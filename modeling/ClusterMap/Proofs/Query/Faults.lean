import ClusterMap.Proofs.Query.Composing

/-!
# Where a predicate goes wrong

What is reported of a text that is cut into tokens but is no predicate. Tokens are viable if some
predicate starts with them. The reader goes on just as long as what it has read is viable: a draft
can be completed from where it stands (`Draft.completion`), and it refuses no front of what it
accepts. So the first token with which the text is no longer viable is at fault. If there is none,
the text stops too early, and then what stands behind the innermost open parenthesis decides
(`Draft.Marks`). Main statements: `viable_iff_run`, `Draft.marks_run`, `Located.unique`;
`Expr.ofText_error_iff_located`.
-/

namespace ClusterMap

open Grammar Text

/-! ## Texts of given tokens -/

/-- What spellings spell, they spell one behind another with blanks between them. -/
theorem exists_cut_of_spells {kinds : List TokenKind}
    (h : ∀ kind ∈ kinds, ∃ source, Spells source kind) :
    ∃ cs, Cut cs kinds := by
  induction kinds with
  | nil => exact ⟨[], .nil⟩
  | cons kind kinds ih =>
    obtain ⟨source, hsource⟩ := h kind (List.mem_cons_self ..)
    obtain ⟨cs, hcs⟩ := ih fun k hk => h k (List.mem_cons_of_mem _ hk)
    have hblank : isBlank ' ' = true := by decide
    refine ⟨source ++ ' ' :: cs, .token hsource (fun d hd => ?_) (.blank hblank hcs)⟩
    obtain rfl := Option.some.inj hd
    exact endsAt_of_isBlank hblank kind

/-- Tokens that can be spelled are those of some text. -/
theorem exists_tokenize_of_spells {kinds : List TokenKind}
    (h : ∀ kind ∈ kinds, ∃ source, Spells source kind) :
    ∃ text ts, tokenize text = .ok ts ∧ ts.map Token.kind = kinds := by
  obtain ⟨cs, hcut⟩ := exists_cut_of_spells h
  have hcut' : Cut (String.ofList cs).toList kinds := by rwa [String.toList_ofList]
  obtain ⟨ts, hts⟩ := exists_tokenize_of_cut hcut'
  exact ⟨_, ts, hts⟩

/-! ## Viable tokens -/

/-- Whether some text that is accepted starts with tokens of these kinds. -/
def Viable (kinds : List TokenKind) : Prop :=
  ∃ text ts e, tokenize text = .ok ts ∧ kinds <+: ts.map Token.kind ∧ Expr.ofText text = .ok e

/-- The front of viable tokens is viable. -/
theorem Viable.of_isPrefix {kinds more : List TokenKind} (h : Viable more)
    (hfront : kinds <+: more) :
    Viable kinds := by
  obtain ⟨text, ts, e, htext, hmore, he⟩ := h
  exact ⟨text, ts, e, htext, hfront.trans hmore, he⟩

/-! ### Completing a draft -/

/-- Tokens that end the operand that is due, if one is. -/
def Due.completion : Due → List TokenKind
  | operand => [.word "a", .equals, .word "a"]
  | equals _ => [.equals, .word "a"]
  | literal _ => [.word "a"]
  | joiner => []

namespace Draft

variable {d d' : Draft} {t : Token} {ts us : List Token}

/-- Tokens that make a predicate of what has been read: they end the operand that is due and close
what is open. -/
def completion (d : Draft) : List TokenKind :=
  d.due.completion ++ List.replicate d.opened.length .rightParen

/-- What completes a draft can be spelled. -/
theorem exists_spells_of_mem_completion {kind : TokenKind} (h : kind ∈ d.completion) :
    ∃ source, Spells source kind := by
  have hkind : kind = .word "a" ∨ kind = .equals ∨ kind = .rightParen := by
    obtain hdue | hclosing := List.mem_append.1 h
    · cases hd : d.due <;> grind [Due.completion]
    · exact .inr (.inr (List.eq_of_mem_replicate hclosing))
  obtain rfl | rfl | rfl := hkind
  · exact ⟨['a'], @Spells.word 'a' [] (by decide) rfl⟩
  · exact ⟨_, .equals⟩
  · exact ⟨_, .rightParen⟩

/-- The operand that is due can be ended. -/
theorem run_of_dueCompletion (hts : ts.map Token.kind = d.due.completion) :
    ∃ g, d.run ts = .ok ⟨d.opened, g, .joiner⟩ := by
  have hfree : isReserved "a" = false := by decide
  have hliteral : Literal.ofToken? (.word "a") = some (.text "a") := by decide
  cases hdue : d.due with
  | operand =>
    rw [hdue] at hts
    exact ⟨_, run_of_comparison hfree hliteral hts hdue⟩
  | equals field =>
    rw [hdue] at hts
    obtain ⟨t₁, _, rfl, h₁, hts⟩ := List.map_eq_cons_iff.1 hts
    obtain ⟨t₂, _, rfl, h₂, hts⟩ := List.map_eq_cons_iff.1 hts
    obtain rfl := List.map_eq_nil_iff.1 hts
    have hequals := step_eq_ok_iff.2 (.equals hdue h₁)
    have hvalue :=
      step_eq_ok_iff.2 (.literal (d := { d with due := .literal field }) rfl (h₂ ▸ hliteral))
    exact ⟨_, by rw [run_cons_of_ok hequals, run_cons_of_ok hvalue]; rfl⟩
  | literal field =>
    rw [hdue] at hts
    obtain ⟨t₁, _, rfl, h₁, hts⟩ := List.map_eq_cons_iff.1 hts
    obtain rfl := List.map_eq_nil_iff.1 hts
    have hvalue := step_eq_ok_iff.2 (.literal hdue (h₁ ▸ hliteral))
    exact ⟨_, by rw [run_cons_of_ok hvalue]; rfl⟩
  | joiner =>
    rw [hdue] at hts
    obtain rfl := List.map_eq_nil_iff.1 hts
    exact ⟨d.group, by rw [run, ← hdue]⟩

/-- Behind an operand all that is open can be closed. -/
theorem run_of_closing {opened : List (Nat × Group)} {g : Group}
    (hts : ts.map Token.kind = List.replicate opened.length .rightParen) :
    ∃ g', run ⟨opened, g, .joiner⟩ ts = .ok ⟨[], g', .joiner⟩ := by
  induction opened generalizing g ts with
  | nil =>
    obtain rfl := List.map_eq_nil_iff.1 hts
    exact ⟨g, rfl⟩
  | cons mark opened ih =>
    rw [List.length_cons, List.replicate_succ] at hts
    obtain ⟨t, ts, rfl, hkind, hts⟩ := List.map_eq_cons_iff.1 hts
    obtain ⟨offset, outer⟩ := mark
    have hclose :=
      step_eq_ok_iff.2 (.rightParen (d := ⟨(offset, outer) :: opened, g, .joiner⟩) rfl hkind rfl)
    rw [run_cons_of_ok hclose]
    exact ih hts

/-- A draft is completed by its completion. -/
theorem run_of_completion (hts : ts.map Token.kind = d.completion) :
    ∃ g, d.run ts = .ok ⟨[], g, .joiner⟩ := by
  obtain ⟨us, vs, rfl, hus, hvs⟩ := List.map_eq_append_iff.1 hts
  obtain ⟨g, hrun⟩ := run_of_dueCompletion hus
  rw [run_append_of_ok hrun]
  exact run_of_closing hvs

end Draft

/-- What has been read is viable. -/
theorem viable_of_run {ts : List Token} {d : Draft}
    (hspelled : ∀ t ∈ ts, ∃ source, Spells source t.kind) (hrun : Draft.empty.run ts = .ok d) :
    Viable (ts.map Token.kind) := by
  have hspelled' : ∀ kind ∈ ts.map Token.kind ++ d.completion, ∃ source, Spells source kind :=
    fun kind hkind => by
    obtain hkind | hkind := List.mem_append.1 hkind
    · obtain ⟨t, ht, rfl⟩ := List.mem_map.1 hkind
      exact hspelled t ht
    · exact Draft.exists_spells_of_mem_completion hkind
  obtain ⟨text, us, htext, hus⟩ := exists_tokenize_of_spells hspelled'
  obtain ⟨vs, ws, rfl, hvs, hws⟩ := List.map_eq_append_iff.1 hus
  -- The tokens stand elsewhere than those of `ts`, so the two are compared by what they say.
  obtain ⟨g, hcompleted⟩ := Draft.run_of_completion hws
  have hne : ts ++ ws ≠ [] := fun hnil => by
    rw [← Draft.run_append_of_ok hrun, hnil] at hcompleted
    exact nomatch (congrArg Draft.due (Except.ok.inj hcompleted) : Due.operand = .joiner)
  have hread : Expr.ofTokens (ts ++ ws) 0 = .ok g.expr := by
    rw [Expr.ofTokens, if_neg hne, Draft.run_append_of_ok hrun, hcompleted]
    rfl
  have hsays := Expr.says_of_ofTokens hread
  rw [List.map_append, ← hvs, ← List.map_append] at hsays
  obtain ⟨e, he, -⟩ :=
    Expr.ofTokens_of_says hsays (fun n hn => ofToken?_of_tokenize htext hn) text.utf8ByteSize
  have hfront : ts.map Token.kind <+: (vs ++ ws).map Token.kind :=
    ⟨ws.map Token.kind, by rw [List.map_append, hvs]⟩
  exact ⟨text, vs ++ ws, e, htext, hfront, by rw [Expr.ofText_of_tokenize htext, he]⟩

/-- The reader refuses no front of what it accepts. -/
theorem exists_run_of_viable {ts : List Token} (h : Viable (ts.map Token.kind)) :
    ∃ d, Draft.empty.run ts = .ok d := by
  obtain ⟨text, us, e, htext, ⟨more, hmore⟩, he⟩ := h
  rw [Expr.ofText_of_tokenize htext] at he
  have hsays := Expr.says_of_ofTokens he
  -- The same tokens, but the first of them where those of `ts` stand.
  let vs : List Token := ts ++ more.map fun kind => ⟨kind, 0⟩
  have hkinds : vs.map Token.kind = us.map Token.kind := by
    rw [← hmore, List.map_append, List.map_map]
    exact congrArg _ (List.map_id more)
  rw [← hkinds] at hsays
  obtain ⟨e', he', -⟩ :=
    Expr.ofTokens_of_says hsays (fun n hn => ofToken?_of_tokenize htext (hkinds ▸ hn)) 0
  by_cases hne : vs = []
  · rw [(List.append_eq_nil_iff.1 hne).1]
    exact ⟨_, rfl⟩
  · obtain ⟨g, hrun, -⟩ := Expr.exists_run_of_ofTokens hne he'
    rw [Draft.run_append] at hrun
    split at hrun
    · next d hd => exact ⟨d, hd⟩
    · contradiction

/-- Tokens are viable just if the reader reads them all. -/
theorem viable_iff_run {ts : List Token} (hspelled : ∀ t ∈ ts, ∃ source, Spells source t.kind) :
    Viable (ts.map Token.kind) ↔ ∃ d, Draft.empty.run ts = .ok d :=
  ⟨exists_run_of_viable, fun ⟨_, hrun⟩ => viable_of_run hspelled hrun⟩

/-! ## The token at fault -/

namespace Draft

variable {d d' : Draft} {t : Token} {ts us : List Token} {e : SyntaxError}

/-- A token that is refused is at fault itself. -/
theorem step_eq_error (h : d.step t = .error e) : e = t.unexpected := by
  unfold step at h
  split at h
  · unfold readOperand at h
    split at h
    · split at h <;> cases h
      rfl
    · split at h <;> cases h
      rfl
    · cases h
      rfl
  · split at h <;> cases h
    rfl
  · split at h <;> cases h
    rfl
  · unfold readJoiner at h
    split at h
    · split at h
      · cases h
      · split at h <;> cases h
        rfl
    · split at h <;> cases h
      rfl
    · cases h
      rfl

/-- Where reading stops, the tokens before have been read and the next one is refused. -/
theorem exists_refused_of_run_error (h : d.run ts = .error e) :
    ∃ before t after d', ts = before ++ t :: after ∧ d.run before = .ok d' ∧
      d'.step t = .error e := by
  induction ts generalizing d with
  | nil => contradiction
  | cons t ts ih =>
    rw [run] at h
    split at h
    · next d₁ hstep =>
      obtain ⟨before, u, after, d', rfl, hrun, hrefused⟩ := ih h
      exact ⟨t :: before, u, after, d', rfl, by rw [run_cons_of_ok hstep, hrun], hrefused⟩
    · next e' hstep =>
      cases h
      exact ⟨[], t, ts, d, rfl, rfl, hstep⟩

end Draft

/-! ## Open parentheses -/

/-- Whether every parenthesis among some tokens has its partner among them. -/
def Balanced (kinds : List TokenKind) : Prop :=
  (∀ us, us <+: kinds → us.count .rightParen ≤ us.count .leftParen) ∧
    kinds.count .leftParen = kinds.count .rightParen

/-- An open parenthesis with nothing open behind it. -/
structure Innermost (ts : List Token) (t : Token) (inside : List Token) : Prop where
  exists_append : ∃ before, ts = before ++ t :: inside
  paren : t.kind = .leftParen
  balanced : Balanced (inside.map Token.kind)

/-- A parenthesis that is open in front of another open one is not the innermost. -/
theorem not_balanced_of_append {us vs : List TokenKind} (hvs : Balanced vs) :
    ¬Balanced (us ++ .leftParen :: vs) := by
  intro h
  have hus := h.1 us (List.prefix_append us _)
  have hall := h.2
  rw [List.count_append, List.count_append, List.count_cons_self, List.count_cons_of_ne (by decide),
    hvs.2] at hall
  omega

/-- There is one innermost open parenthesis. -/
theorem Innermost.eq_of_append {ts ts' more inside inside' : List Token} {t t' : Token}
    (h : Innermost ts t inside) (h' : Innermost ts' t' inside')
    (happend : t :: inside = more ++ t' :: inside') : t = t' ∧ inside = inside' := by
  cases more with
  | nil => exact List.cons.inj happend
  | cons u more =>
    obtain rfl : inside = more ++ t' :: inside' := (List.cons.inj happend).2
    have hbalanced := h.balanced
    rw [List.map_append, List.map_cons, h'.paren] at hbalanced
    exact absurd hbalanced (not_balanced_of_append h'.balanced)

/-- There is one innermost open parenthesis at most. -/
theorem Innermost.unique {ts inside inside' : List Token} {t t' : Token} (h : Innermost ts t inside)
    (h' : Innermost ts t' inside') : t = t' ∧ inside = inside' := by
  obtain ⟨before, hbefore⟩ := h.exists_append
  obtain ⟨before', hbefore'⟩ := h'.exists_append
  obtain ⟨more, -, happend⟩ | ⟨more, -, happend⟩ :=
    List.append_eq_append_iff.1 (hbefore.symm.trans hbefore')
  · exact h.eq_of_append h' happend
  · obtain ⟨rfl, rfl⟩ := h'.eq_of_append h happend
    exact ⟨rfl, rfl⟩

/-! ### Open parentheses of a draft -/

namespace Draft

variable {d d' : Draft} {t : Token} {ts us : List Token}

/-- Parentheses that are open were opened and not closed. -/
theorem length_opened_run (h : d.run ts = .ok d') :
    d'.opened.length + (ts.map Token.kind).count .rightParen =
      d.opened.length + (ts.map Token.kind).count .leftParen := by
  induction ts generalizing d with
  | nil =>
    cases h
    rfl
  | cons t ts ih =>
    obtain ⟨d₁, hstep, h⟩ := exists_step_of_run h
    have hfirst := length_opened_step hstep
    have hrest := ih h
    rw [List.map_cons, ← List.singleton_append, List.count_append, List.count_append]
    omega

/-- Every draft on the way has as many groups open as there are parentheses without a partner. -/
theorem count_le_of_run {kinds : List TokenKind} (h : empty.run ts = .ok d)
    (hfront : kinds <+: ts.map Token.kind) :
    kinds.count .rightParen ≤ kinds.count .leftParen := by
  obtain ⟨more, hmore⟩ := hfront
  obtain ⟨us, vs, rfl, rfl, -⟩ := List.map_eq_append_iff.1 hmore.symm
  rw [run_append] at h
  split at h
  · next d₁ hrun =>
    have hlength := length_opened_run hrun
    have hempty : empty.opened.length = 0 := rfl
    omega
  · contradiction

/-- What is read with nothing open at the end is balanced. -/
theorem balanced_of_run (h : empty.run ts = .ok d) (hopened : d.opened = []) :
    Balanced (ts.map Token.kind) := by
  refine ⟨fun us hus => count_le_of_run h hus, ?_⟩
  have hlength := length_opened_run h
  rw [hopened] at hlength
  simpa [empty] using hlength.symm

/-- Whether tokens that have been read show where every open group starts: behind its parenthesis,
what has been read since then has been read as if it were all. -/
structure Marks (d : Draft) (ts : List Token) : Prop where
  length_le : d.opened.length ≤ maxNesting
  -- Not of the innermost group alone, as a closing parenthesis makes the group around it the
  -- innermost one.
  exists_append : ∀ inner offset g outer, d.opened = inner ++ (offset, g) :: outer →
    ∃ before t behind, ts = before ++ t :: behind ∧ t.kind = .leftParen ∧ t.offset = offset ∧
      empty.run behind = .ok ⟨inner, d.group, d.due⟩

/-- Nothing is open in an empty draft. -/
theorem marks_empty : empty.Marks [] where
  length_le := Nat.zero_le _
  exists_append inner offset g outer h := by simp [empty] at h

/-- A token more is one step more. -/
theorem run_concat {d'' : Draft} (hrun : d.run ts = .ok d') (hstep : d'.step t = .ok d'') :
    d.run (ts ++ [t]) = .ok d'' := by
  rw [run_append_of_ok hrun, run_cons_of_ok hstep]
  rfl

/-- A token does the same without the groups around, if it closes none of them. -/
theorem step_alone {inner inner' outer : List (Nat × Group)} (hopened : d.opened = inner ++ outer)
    (hopened' : d'.opened = inner' ++ outer) (hroom : inner.length < maxNesting)
    (hstep : d.step t = .ok d') :
    step ⟨inner, d.group, d.due⟩ t = .ok ⟨inner', d'.group, d'.due⟩ := by
  have same {g : Group} {due : Due} (hsame : d.opened = inner' ++ outer)
      (h : step ⟨inner, d.group, d.due⟩ t = .ok ⟨inner, g, due⟩) :
      step ⟨inner, d.group, d.due⟩ t = .ok ⟨inner', g, due⟩ := by
    obtain rfl := List.append_cancel_right (hopened.symm.trans hsame)
    exact h
  cases step_eq_ok_iff.1 hstep with
  | leftParen hdue hkind =>
    rw [hopened, ← List.cons_append] at hopened'
    obtain rfl := List.append_cancel_right hopened'
    exact step_eq_ok_iff.2 (.leftParen hdue hkind (Nat.ne_of_lt hroom))
  | field hdue hkind hfree => exact same hopened' (step_eq_ok_iff.2 (.field hdue hkind hfree))
  | equals hdue hkind => exact same hopened' (step_eq_ok_iff.2 (.equals hdue hkind))
  | literal hdue hliteral => exact same hopened' (step_eq_ok_iff.2 (.literal hdue hliteral))
  | and hdue hkind hw => exact same hopened' (step_eq_ok_iff.2 (.and hdue hkind hw))
  | or hdue hkind hw => exact same hopened' (step_eq_ok_iff.2 (.or hdue hkind hw))
  | @rightParen offset g opened hdue hkind hfirst =>
    have hopened' : opened = inner' ++ outer := hopened'
    rw [hopened', ← List.cons_append, hopened] at hfirst
    obtain rfl := List.append_cancel_right hfirst
    exact step_eq_ok_iff.2 (.rightParen hdue hkind rfl)

/-- Every group that is open behind a token was open before, or the token opens it. -/
theorem opened_of_step {inner' outer : List (Nat × Group)} {mark : Nat × Group}
    (hstep : d.step t = .ok d') (hopened' : d'.opened = inner' ++ mark :: outer) :
    (∃ inner, d.opened = inner ++ mark :: outer) ∨
      inner' = [] ∧ t.kind = .leftParen ∧ mark.1 = t.offset ∧ d'.group = .empty ∧
      d'.due = .operand := by
  cases step_eq_ok_iff.1 hstep with
  | leftParen _ hkind =>
    obtain ⟨rfl, hcons⟩ | ⟨inner, rfl, hcons⟩ := List.cons_eq_append_iff.1 hopened'
    · cases hcons
      exact .inr ⟨rfl, hkind, rfl, rfl, rfl⟩
    · exact .inl ⟨inner, hcons⟩
  | rightParen _ _ hfirst => exact .inl ⟨_ :: inner', by rw [hfirst]; exact congrArg _ hopened'⟩
  | field | equals | literal | and | or => exact .inl ⟨inner', hopened'⟩

/-- Marks stay where they are with one token more. -/
theorem marks_step (h : d.Marks ts) (hstep : d.step t = .ok d') : d'.Marks (ts ++ [t]) where
  length_le := by
    have hle := h.length_le
    cases step_eq_ok_iff.1 hstep with
    | leftParen _ _ hroom => exact Nat.lt_of_le_of_ne hle hroom
    | rightParen _ _ hfirst =>
      rw [hfirst] at hle
      exact Nat.le_of_succ_le hle
    | field | equals | literal | and | or => exact hle
  exists_append inner' offset g outer hopened' := by
    obtain ⟨inner, hopened⟩ | ⟨rfl, hkind, rfl, hgroup, hdue⟩ := opened_of_step hstep hopened'
    · obtain ⟨before, t', behind, rfl, hkind, hoffset, hrun⟩ :=
        h.exists_append inner offset g outer hopened
      have hroom : inner.length < maxNesting := by
        have hlength := h.length_le
        rw [hopened, List.length_append, List.length_cons] at hlength
        omega
      have halone := step_alone hopened hopened' hroom hstep
      exact ⟨before, t', behind ++ [t], by simp, hkind, hoffset, run_concat hrun halone⟩
    · exact ⟨ts, t, [], rfl, hkind, rfl, by rw [hgroup, hdue]; rfl⟩

/-- Marks show where the open groups start, whatever has been read. -/
theorem marks_run (h : d.Marks ts) (hrun : d.run us = .ok d') : d'.Marks (ts ++ us) := by
  induction us generalizing d ts with
  | nil =>
    cases hrun
    rwa [List.append_nil]
  | cons t us ih =>
    obtain ⟨d₁, hstep, hrun⟩ := exists_step_of_run hrun
    rw [List.append_cons]
    exact ih (marks_step h hstep) hrun

/-- The mark of the innermost group is the innermost open parenthesis. -/
theorem Marks.innermost {offset : Nat} {g : Group} {outer : List (Nat × Group)} (h : d.Marks ts)
    (hopened : d.opened = (offset, g) :: outer) :
    ∃ t inside, Innermost ts t inside ∧ t.offset = offset ∧
      empty.run inside = .ok ⟨[], d.group, d.due⟩ := by
  obtain ⟨before, t, inside, happend, hkind, hoffset, hrun⟩ :=
    h.exists_append [] offset g outer hopened
  have hinnermost : Innermost ts t inside := ⟨⟨before, happend⟩, hkind, balanced_of_run hrun rfl⟩
  exact ⟨t, inside, hinnermost, hoffset, hrun⟩

/-- Where nothing is open, no parenthesis is the innermost open one. -/
theorem not_innermost_of_run {inside : List Token} (hrun : empty.run ts = .ok d)
    (hopened : d.opened = []) :
    ¬Innermost ts t inside := by
  rintro ⟨⟨before, rfl⟩, hkind, hinside⟩
  have hbalanced := (balanced_of_run hrun hopened).2
  have hfront : before.map Token.kind <+: (before ++ t :: inside).map Token.kind := by simp
  have hbefore := count_le_of_run hrun hfront
  rw [List.map_append, List.map_cons, hkind, List.count_append, List.count_append,
    List.count_cons_self, List.count_cons_of_ne (by decide), hinside.2] at hbalanced
  omega

/-- What has been read up to the end of an operand with nothing open is a disjunction. -/
theorem exists_disjunction_of_run (hrun : empty.run ts = .ok d) (hopened : d.opened = [])
    (hdue : d.due = .joiner) :
    ∃ m, Disjunction maxNesting (ts.map Token.kind) m := by
  have hreads : d.Reads (ts.map Token.kind) := reads_run reads_empty hrun
  have hfinish : d.finish 0 = .ok d.group.expr := by rw [finish, hdue, hopened]
  obtain ⟨m, hm, -⟩ := disjunction_of_finish hreads hfinish
  exact ⟨m, hm⟩

/-- Behind a disjunction an operand has ended. -/
theorem due_of_disjunction {m : Meaning} (hrun : empty.run ts = .ok d)
    (h : Disjunction maxNesting (ts.map Token.kind) m) (hlegible : Legible (ts.map Token.kind)) :
    d.due = .joiner := by
  obtain ⟨g, hrun', -⟩ := run_of_disjunction h hlegible rfl (d := .empty) rfl rfl (by decide)
  rw [hrun] at hrun'
  exact congrArg Draft.due (Except.ok.inj hrun')

/-- Where something is due but the end, the end is at fault. -/
theorem finish_of_due_ne (h : d.due ≠ .joiner) (length : Nat) :
    d.finish length = .error ⟨"<end of input>", length⟩ := by
  unfold finish
  split
  · next hdue _ => exact absurd hdue h
  · next hdue _ => exact absurd hdue h
  · rfl

end Draft

/-- No more than `maxNesting` parentheses of viable tokens are open at once: with one more they are
not viable. -/
theorem Viable.count_le {kinds : List TokenKind} (h : Viable kinds) :
    kinds.count .leftParen ≤ kinds.count .rightParen + maxNesting := by
  obtain ⟨text, us, e, htext, ⟨more, hmore⟩, he⟩ := h
  obtain ⟨ts, _, rfl, rfl, -⟩ := List.map_eq_append_iff.1 hmore.symm
  obtain ⟨d, hrun⟩ := exists_run_of_viable ⟨text, _, e, htext, ⟨more, hmore⟩, he⟩
  have hlength := Draft.length_opened_run hrun
  have hle := (Draft.marks_run Draft.marks_empty hrun).length_le
  have hempty : Draft.empty.opened.length = 0 := rfl
  omega

/-! ## What is reported -/

/-- What is at fault in tokens that are no predicate, of a text of `length` bytes. -/
inductive Located (ts : List Token) (length : Nat) : SyntaxError → Prop where
  /-- The first token with which they are no longer viable. -/
  | refused {before after : List Token} {t : Token} :
      ts = before ++ t :: after → Viable (before.map Token.kind) →
      ¬Viable ((before ++ [t]).map Token.kind) → Located ts length ⟨t.kind.text, t.offset⟩
  /-- The innermost open parenthesis, where all are viable and what stands behind it could end
  there. -/
  | unclosed {t : Token} {inside : List Token} {m : Meaning} :
      Viable (ts.map Token.kind) → Innermost ts t inside →
      Disjunction maxNesting (inside.map Token.kind) m → Located ts length ⟨"(", t.offset⟩
  /-- The end, where all are viable and what stands behind the innermost open parenthesis, if there
  is one, lacks something itself. -/
  | unfinished : Viable (ts.map Token.kind) →
      (∀ t inside m, Innermost ts t inside → ¬Disjunction maxNesting (inside.map Token.kind) m) →
      Located ts length ⟨"<end of input>", length⟩

variable {ts : List Token} {length : Nat} {e e' : SyntaxError}

/-- A front that is viable ends before the first token that is no longer. -/
theorem prefix_of_refused {before after front : List Token} {t : Token}
    (hfront : front <+: before ++ t :: after) (hviable : Viable (front.map Token.kind))
    (hrefused : ¬Viable ((before ++ [t]).map Token.kind)) :
    front <+: before := by
  have hbefore : before <+: before ++ t :: after := List.prefix_append before _
  have hmore : before ++ [t] <+: before ++ t :: after := ⟨after, by simp⟩
  by_cases hlength : front.length ≤ before.length
  · exact List.prefix_of_prefix_length_le hfront hbefore hlength
  · have hlength' : (before ++ [t]).length ≤ front.length := by
      rw [List.length_append, List.length_singleton]
      omega
    have hbefore' := List.prefix_of_prefix_length_le hmore hfront hlength'
    exact absurd (hviable.of_isPrefix (hbefore'.map Token.kind)) hrefused

/-- Where some token is refused, not all are viable. -/
theorem not_viable_of_refused {before after : List Token} {t : Token}
    (hrefused : ¬Viable ((before ++ [t]).map Token.kind)) :
    ¬Viable ((before ++ t :: after).map Token.kind) :=
  fun h => hrefused (h.of_isPrefix (List.IsPrefix.map Token.kind ⟨after, by simp⟩))

/-- Only one thing is at fault. -/
theorem Located.unique (h : Located ts length e) (h' : Located ts length e') : e = e' := by
  cases h with
  | @refused before after t hts hviable hrefused =>
    subst hts
    cases h' with
    | @refused before' after' t' hts hviable' hrefused' =>
      have hle : before <+: before' :=
        prefix_of_refused (hts ▸ List.prefix_append before _) hviable hrefused'
      have hge : before' <+: before :=
        prefix_of_refused (hts ▸ List.prefix_append before' _) hviable' hrefused
      obtain rfl := hle.eq_of_length_le hge.length_le
      obtain ⟨rfl, -⟩ := List.cons.inj (List.append_cancel_left hts)
      rfl
    | unclosed hall | unfinished hall => exact absurd hall (not_viable_of_refused hrefused)
  | unclosed hall hinner hdisjunction =>
    cases h' with
    | refused hts _ hrefused =>
      subst hts
      exact absurd hall (not_viable_of_refused hrefused)
    | unclosed _ hinner' =>
      obtain ⟨rfl, -⟩ := hinner.unique hinner'
      rfl
    | unfinished _ hnone => exact absurd hdisjunction (hnone _ _ _ hinner)
  | unfinished hall hnone =>
    cases h' with
    | refused hts _ hrefused =>
      subst hts
      exact absurd hall (not_viable_of_refused hrefused)
    | unclosed _ hinner hdisjunction => exact absurd hdisjunction (hnone _ _ _ hinner)
    | unfinished => rfl

namespace Expr

/-- A draft that is not finished lacks the partner of its innermost parenthesis, or something in
front of that. -/
theorem located_of_finish {d : Draft} (hviable : Viable (ts.map Token.kind))
    (hlegible : Draft.Legible (ts.map Token.kind)) (hrun : Draft.empty.run ts = .ok d)
    (hfinish : d.finish length = .error e) : Located ts length e := by
  have hmarks := Draft.marks_run Draft.marks_empty hrun
  by_cases hdue : d.due = .joiner
  · cases hopened : d.opened with
    | nil =>
      rw [Draft.finish, hdue, hopened] at hfinish
      contradiction
    | cons mark outer =>
      obtain ⟨offset, g⟩ := mark
      rw [Draft.finish, hdue, hopened] at hfinish
      cases hfinish
      obtain ⟨t, inside, hinner, rfl, hinside⟩ := hmarks.innermost hopened
      obtain ⟨m, hdisjunction⟩ := Draft.exists_disjunction_of_run hinside rfl hdue
      exact .unclosed hviable hinner hdisjunction
  · rw [Draft.finish_of_due_ne hdue] at hfinish
    cases hfinish
    refine .unfinished hviable fun t inside m hinner hdisjunction => ?_
    cases hopened : d.opened with
    | nil => exact Draft.not_innermost_of_run hrun hopened hinner
    | cons mark outer =>
      obtain ⟨u, inside', hinner', -, hinside⟩ := hmarks.innermost hopened
      obtain ⟨rfl, rfl⟩ := hinner.unique hinner'
      have hsub : inside ⊆ ts := by
        obtain ⟨before, rfl⟩ := hinner.exists_append
        exact fun u hu => List.mem_append_right _ (List.mem_cons_of_mem _ hu)
      have hinside : Draft.empty.run inside = .ok (⟨[], d.group, d.due⟩ : Draft) := hinside
      have hlegible' : Draft.Legible (inside.map Token.kind) :=
        hlegible.of_subset (List.map_subset _ hsub)
      have hjoiner := Draft.due_of_disjunction hinside hdisjunction hlegible'
      exact hdue hjoiner

/-- What is reported is located where the text cannot be read on. -/
theorem located_of_ofText_error {text : String} (h : tokenize text = .ok ts)
    (herror : ofText text = .error e) :
    Located ts text.utf8ByteSize e := by
  have hspelled := exists_spells_of_tokenize h
  rw [ofText_of_tokenize h, ofTokens] at herror
  split at herror
  · contradiction
  cases hrun : Draft.empty.run ts with
  | error e' =>
    rw [hrun] at herror
    cases herror
    obtain ⟨before, t, after, d, rfl, hbefore, hrefused⟩ := Draft.exists_refused_of_run_error hrun
    have hviable := viable_of_run (fun u hu => hspelled u (List.mem_append_left _ hu)) hbefore
    rw [Draft.step_eq_error hrefused]
    refine .refused rfl hviable fun hmore => ?_
    obtain ⟨d', hd'⟩ := exists_run_of_viable hmore
    rw [Draft.run_append_of_ok hbefore, Draft.run, hrefused] at hd'
    contradiction
  | ok d =>
    rw [hrun] at herror
    exact located_of_finish (viable_of_run hspelled hrun) (fun n hn =>
      ofToken?_of_tokenize h hn) hrun herror

/-- Of a text that is cut into tokens but is no predicate, just what is at fault is reported. -/
theorem ofText_error_iff_located {text : String} (h : tokenize text = .ok ts)
    (hno : ∀ e, ofText text ≠ .ok e) (e : SyntaxError) :
    ofText text = .error e ↔ Located ts text.utf8ByteSize e := by
  refine ⟨located_of_ofText_error h, fun hlocated => ?_⟩
  cases htext : ofText text with
  | ok expr => exact absurd htext (hno expr)
  | error e' => rw [(located_of_ofText_error h htext).unique hlocated]

/-- Two groups, both open, of which the inner one could end: its parenthesis is at fault. -/
theorem ofText_error_iff_located_of_two :
    Located [⟨.leftParen, 0⟩, ⟨.word "a", 1⟩, ⟨.equals, 2⟩, ⟨.number "1", 3⟩, ⟨.word "OR", 5⟩,
      ⟨.leftParen, 8⟩, ⟨.word "b", 9⟩, ⟨.equals, 10⟩, ⟨.number "2", 11⟩] 12 ⟨"(", 8⟩ := by
  have htokens : (tokenize "(a=1 OR (b=2").toOption =
      some [⟨.leftParen, 0⟩, ⟨.word "a", 1⟩, ⟨.equals, 2⟩, ⟨.number "1", 3⟩, ⟨.word "OR", 5⟩,
        ⟨.leftParen, 8⟩, ⟨.word "b", 9⟩, ⟨.equals, 10⟩, ⟨.number "2", 11⟩] := by
    decide +kernel
  have herror : ofText "(a=1 OR (b=2" = .error ⟨"(", 8⟩ :=
    failure?_eq_some_iff.1 (by decide +kernel)
  cases h : tokenize "(a=1 OR (b=2" with
  | error e =>
    rw [h] at htokens
    contradiction
  | ok ts =>
    rw [h] at htokens
    obtain rfl := Option.some.inj htokens
    have hno : ∀ e, ofText "(a=1 OR (b=2" ≠ .ok e := fun e he => by
      rw [herror] at he
      contradiction
    exact (ofText_error_iff_located h hno _).1 herror

end Expr

end ClusterMap
