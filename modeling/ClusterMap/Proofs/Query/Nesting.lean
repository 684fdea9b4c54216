import ClusterMap.Proofs.Query.Canonical
import ClusterMap.Proofs.Query.Comparisons
import ClusterMap.Proofs.Query.Faults
import ClusterMap.Proofs.Query.Slices

/-!
# How deep canonical texts nest

The limit on open parentheses is one on the text that is read. The canonical text puts parentheses
around every conjunction and disjunction, and what stands between two parentheses of the text may
hold both, one inside the other: so it nests up to twice as deep, and once more around the whole
(`Expr.height_le_of_ofTokens`). Texts that go up and down like stairs attain that bound (`stairs`).
Where the literals are words, a canonical text is cut into the tokens of its expression, so it is
read again just if it keeps to the limit itself. Main statements: `Expr.nests_tokens_iff`,
`Draft.low_step`, `Draft.low_run`; `Criteria.compile_nests`.
-/

namespace ClusterMap

open Grammar Text

/-! ## Parentheses among tokens -/

/-- Whether no more than `depth` parentheses among some tokens are open at once. -/
def Nests (depth : Nat) (kinds : List TokenKind) : Prop :=
  ∀ us, us <+: kinds → us.count .leftParen ≤ us.count .rightParen + depth

section Nests

variable {depth : Nat} {kinds kinds' : List TokenKind}

/-- Tokens without parentheses nest nowhere. -/
theorem nests_of_count_eq_zero (h : kinds.count .leftParen = 0) : Nests depth kinds :=
  fun us hus => by
  have hle := hus.sublist.count_le .leftParen
  omega

/-- What nests within a depth nests within a greater one. -/
theorem Nests.mono {depth' : Nat} (h : Nests depth kinds) (hle : depth ≤ depth') :
    Nests depth' kinds :=
  fun us hus => Nat.le_trans (h us hus) (Nat.add_le_add_left hle _)

/-- Behind tokens that close what they open nothing has changed. -/
theorem nests_append (h : kinds.count .leftParen = kinds.count .rightParen) :
    Nests depth (kinds ++ kinds') ↔ Nests depth kinds ∧ Nests depth kinds' := by
  constructor
  · intro hnests
    constructor
    · exact fun us hus => hnests us (hus.trans (List.prefix_append kinds kinds'))
    · intro us hus
      have hfront : kinds ++ us <+: kinds ++ kinds' := (List.prefix_append_right_inj kinds).2 hus
      have hboth := hnests (kinds ++ us) hfront
      rw [List.count_append, List.count_append] at hboth
      omega
  · rintro ⟨hfront, hbehind⟩ us ⟨more, hmore⟩
    -- a front of both ends among the first tokens or among those behind them
    obtain ⟨rest, rfl, -⟩ | ⟨rest, rfl, hrest⟩ := List.append_eq_append_iff.1 hmore
    · exact hfront us (List.prefix_append _ _)
    · have hle := hbehind rest ⟨more, hrest.symm⟩
      rw [List.count_append, List.count_append]
      omega

/-- A pair of parentheses makes one more. -/
theorem nests_parentheses (h : kinds.count .leftParen = kinds.count .rightParen) :
    Nests depth (.leftParen :: kinds ++ [.rightParen]) ↔ 0 < depth ∧ Nests (depth - 1) kinds := by
  constructor
  · intro hnests
    have hpos : 1 ≤ depth := by simpa using hnests [.leftParen] (by simp)
    refine ⟨hpos, fun us hus => ?_⟩
    have hle := hnests (.leftParen :: us)
      (by simpa using hus.trans (List.prefix_append kinds [.rightParen]))
    rw [List.count_cons_self, List.count_cons_of_ne (by decide)] at hle
    omega
  · rintro ⟨hpos, hinside⟩ us hus
    cases us with
    | nil => simp
    | cons kind us =>
      rw [List.cons_append, List.cons_prefix_cons] at hus
      obtain ⟨rfl, hus⟩ := hus
      have hclose : Nests (depth - 1) (kinds ++ [.rightParen]) :=
        (nests_append h).2 ⟨hinside, nests_of_count_eq_zero (by decide)⟩
      have hle := hclose us hus
      rw [List.count_cons_self, List.count_cons_of_ne (by decide)]
      omega

/-- Tokens with joiners between them nest as deep as each of them. -/
theorem nests_intercalate (word : String) (depth : Nat) {parts : List (List TokenKind)}
    (h : ∀ part ∈ parts, part.count .leftParen = part.count .rightParen) :
    ([TokenKind.word word].intercalate parts).count .leftParen =
      ([TokenKind.word word].intercalate parts).count .rightParen ∧
      (Nests depth ([TokenKind.word word].intercalate parts) ↔
        ∀ part ∈ parts, Nests depth part) := by
  induction parts with
  | nil => exact ⟨by simp, by simpa using nests_of_count_eq_zero (by simp)⟩
  | cons part parts ih =>
    cases parts with
    | nil => simpa using h
    | cons part' parts =>
      obtain ⟨hcount, hnests⟩ := ih fun p hp => h p (List.mem_cons_of_mem part hp)
      have hpart := h part List.mem_cons_self
      have hjoiner : Nests depth [TokenKind.word word] := nests_of_count_eq_zero (by simp)
      rw [List.intercalate_cons_cons, nests_append (by simpa using hpart),
        nests_append hpart, hnests, List.forall_mem_cons]
      exact ⟨by simp [hpart, hcount], by simp [hjoiner]⟩

end Nests

/-! ## Heights -/

namespace Expr

mutual

/-- The most conjunctions and disjunctions that stand one inside the other. -/
def height : Expr → Nat
  | all => 0
  | equal _ _ => 0
  | and terms => termHeight terms + 1
  | or terms => termHeight terms + 1
termination_by structural e => e

/-- The greatest height in a list of terms. -/
def termHeight : List Expr → Nat
  | [] => 0
  | e :: rest => max (height e) (termHeight rest)
termination_by structural l => l

end

/-- Terms are as high as the highest. -/
theorem termHeight_le_iff {terms : List Expr} {n : Nat} :
    termHeight terms ≤ n ↔ ∀ e ∈ terms, e.height ≤ n := by
  induction terms with
  | nil => simp [termHeight]
  | cons e rest ih => rw [termHeight, Nat.max_le, ih, List.forall_mem_cons]

/-- A conjunction is one higher than its terms. -/
theorem height_and_le_iff {terms : List Expr} {n : Nat} :
    (and terms).height ≤ n ↔ 0 < n ∧ ∀ e ∈ terms, e.height ≤ n - 1 := by
  rw [height, ← termHeight_le_iff]
  omega

/-- A disjunction is one higher than its terms. -/
theorem height_or_le_iff {terms : List Expr} {n : Nat} :
    (or terms).height ≤ n ↔ 0 < n ∧ ∀ e ∈ terms, e.height ≤ n - 1 := by
  rw [height, ← termHeight_le_iff]
  omega

/-- The canonical text closes what it opens, and nests as deep as the expression is high. -/
theorem nests_tokens_iff (e : Expr) :
    e.tokens.count .leftParen = e.tokens.count .rightParen ∧ ∀ depth, Nests depth e.tokens ↔
    e.height ≤ depth := by
  induction e using Expr.induction with
  | all => exact ⟨rfl, fun depth => iff_of_true (nests_of_count_eq_zero rfl) (Nat.zero_le depth)⟩
  | equal field literal =>
    have hleft : (equal field literal).tokens.count .leftParen = 0 := by
      cases literal <;> rfl
    have hright : (equal field literal).tokens.count .rightParen = 0 := by
      cases literal <;> rfl
    exact ⟨hleft.trans hright.symm, fun depth =>
      iff_of_true (nests_of_count_eq_zero hleft) (Nat.zero_le depth)⟩
  | and terms ih | or terms ih =>
    have hparts : ∀ part ∈ terms.map tokens, part.count .leftParen = part.count .rightParen := by
      simpa using fun e he => (ih e he).1
    have hinside := fun word depth => nests_intercalate word depth hparts
    have hterms : ∀ depth, (∀ part ∈ terms.map tokens, Nests depth part) ↔
        ∀ e ∈ terms, e.height ≤ depth :=
      fun depth => by simpa using forall₂_congr fun e he => (ih e he).2 depth
    simp only [tokens_and, tokens_or, height_and_le_iff, height_or_le_iff]
    refine ⟨by simp [List.count_append, (hinside _ 0).1], fun depth => ?_⟩
    rw [nests_parentheses (hinside _ 0).1, (hinside _ _).2, hterms]

/-- Every term is lower than its node. -/
theorem height_le_of_mem {terms : List Expr} {n : Nat} (h : termHeight terms + 1 ≤ n) {e : Expr}
    (he : e ∈ terms) :
    e.height ≤ n :=
  Nat.le_trans (termHeight_le_iff.1 (Nat.le_refl _) e he) (by omega)

end Expr

/-! ## Heights in a draft -/

namespace Group

/-- Whether a group holds terms of no more than some height, and conjunctions of no more than one
more. -/
structure Low (n : Nat) (g : Group) : Prop where
  terms : ∀ e ∈ g.terms, e.height ≤ n
  conjunctions : ∀ e ∈ g.conjunctions, e.height ≤ n + 1

variable {n : Nat} {g : Group} {e : Expr}

/-- An empty group is low. -/
theorem low_empty : empty.Low n where
  terms := by simp [empty]
  conjunctions := by simp [empty]

/-- A node of one term is no higher than one of several. -/
theorem height_collapse_le {node : List Expr → Expr} {terms : List Expr}
    (hterms : ∀ e ∈ terms, e.height ≤ n) (hnode : (node terms).height ≤ n + 1) :
    (collapse node terms).height ≤ n + 1 := by
  match terms with
  | [] => exact hnode
  | [e] => exact Nat.le_succ_of_le (hterms e (List.mem_singleton_self e))
  | e :: f :: rest => exact hnode

/-- A group stays low with a term that is. -/
theorem Low.addTerm (h : g.Low n) (he : e.height ≤ n) : (g.addTerm e).Low n where
  conjunctions := by simpa using h.conjunctions
  terms f hf := by
    unfold Group.addTerm at hf
    split at hf
    · obtain hf | hf := List.mem_append.1 hf
      · exact Expr.height_le_of_mem he (List.mem_reverse.1 hf)
      · exact h.terms f hf
    · obtain rfl | hf := List.mem_cons.1 hf
      · exact he
      · exact h.terms f hf

/-- The open conjunction of a low group is one higher at most. -/
theorem Low.conjunction (h : g.Low n) : g.conjunction.height ≤ n + 1 := by
  have hterms : ∀ e ∈ g.terms.reverse, e.height ≤ n := by simpa using h.terms
  exact height_collapse_le hterms (Expr.height_and_le_iff.2 ⟨Nat.succ_pos n, hterms⟩)

/-- The conjunctions of a low group are one higher at most. -/
theorem Low.allConjunctions (h : g.Low n) : ∀ e ∈ g.allConjunctions, e.height ≤ n + 1 := by
  have hcurrent := h.conjunction
  intro e he
  unfold Group.allConjunctions at he
  split at he
  · next terms heq =>
    rw [heq] at hcurrent
    obtain he | he := List.mem_append.1 he
    · exact Expr.height_le_of_mem hcurrent (List.mem_reverse.1 he)
    · exact h.conjunctions e he
  · obtain rfl | he := List.mem_cons.1 he
    · exact hcurrent
    · exact h.conjunctions e he

/-- A group stays low if a conjunction is closed. -/
theorem Low.close (h : g.Low n) : g.close.Low n where
  terms := by simp [Group.close]
  conjunctions := h.allConjunctions

/-- What becomes of a low group is two higher at most. -/
theorem Low.expr (h : g.Low n) : g.expr.height ≤ n + 2 := by
  have hall : ∀ e ∈ g.allConjunctions.reverse, e.height ≤ n + 1 := by simpa using h.allConjunctions
  exact height_collapse_le hall (Expr.height_or_le_iff.2 ⟨Nat.succ_pos _, hall⟩)

end Group

namespace Draft

/-- Whether the groups around the innermost one hold no higher terms than a text may write that
opens `depth` parentheses at once: two more for every parenthesis that may still be opened in
them. -/
def LowAround (depth : Nat) : List (Nat × Group) → Prop
  | [] => True
  | (_, g) :: outer => g.Low (2 * (depth - outer.length)) ∧ LowAround depth outer

/-- Whether all groups of a draft hold no higher terms than a text may write that opens `depth`
parentheses at once. -/
structure Low (depth : Nat) (d : Draft) : Prop where
  opened : LowAround depth d.opened
  group : d.group.Low (2 * (depth - d.opened.length))

variable {depth : Nat} {d d' : Draft} {t : Token} {ts : List Token}

theorem low_empty (depth : Nat) : empty.Low depth := ⟨trivial, Group.low_empty⟩

/-- Terms stay as low with one token more, if it opens no parenthesis too many. -/
theorem low_step (h : d.Low depth) (hstep : d.step t = .ok d') (hlength : d.opened.length ≤ depth) :
    d'.Low depth := by
  obtain ⟨hopened, hgroup⟩ := h
  cases step_eq_ok_iff.1 hstep with
  | leftParen => exact ⟨⟨hgroup, hopened⟩, Group.low_empty⟩
  | field | equals | and => exact ⟨hopened, hgroup⟩
  | @literal field literal =>
    have hheight : (Expr.equal field literal).height ≤ 2 * (depth - d.opened.length) :=
      Nat.zero_le _
    exact ⟨hopened, hgroup.addTerm hheight⟩
  | or => exact ⟨hopened, hgroup.close⟩
  | rightParen hdue hkind hfirst =>
    rw [hfirst] at hopened hgroup hlength
    obtain ⟨houter, hrest⟩ := hopened
    -- the group around has room for one parenthesis more, so for two more in height
    refine ⟨hrest, houter.addTerm (Nat.le_trans hgroup.expr ?_)⟩
    rw [List.length_cons] at hlength ⊢
    omega

/-- Terms stay as low as the parentheses of the tokens demand. -/
theorem low_run (h : d.Low depth) (hrun : d.run ts = .ok d')
    (hnests : ∀ us, us <+: ts.map Token.kind →
      d.opened.length + us.count .leftParen ≤ us.count .rightParen + depth) :
    d'.Low depth := by
  induction ts generalizing d with
  | nil =>
    cases hrun
    exact h
  | cons t ts ih =>
    obtain ⟨d₁, hstep, hrun⟩ := exists_step_of_run hrun
    have hcount := length_opened_step hstep
    have hlength : d.opened.length ≤ depth := by simpa using hnests [] List.nil_prefix
    refine ih (low_step h hstep hlength) hrun fun us hus => ?_
    have hus' := hnests (t.kind :: us) (by simpa using hus)
    rw [← List.singleton_append, List.count_append, List.count_append] at hus'
    omega

end Draft

namespace Expr

/-- What is read is no higher than twice the parentheses of the tokens and the one pair around the
whole demand. -/
theorem height_le_of_ofTokens {ts : List Token} {length depth : Nat} {e : Expr}
    (h : ofTokens ts length = .ok e) (hnests : Nests depth (ts.map Token.kind)) :
    e.height ≤ 2 * (depth + 1) := by
  by_cases hne : ts = []
  · rw [ofTokens, if_pos hne] at h
    cases h
    exact Nat.zero_le _
  · obtain ⟨g, hrun, rfl⟩ := exists_run_of_ofTokens hne h
    have hlow :=
      Draft.low_run (Draft.low_empty depth) hrun (by simpa [Draft.empty, Nests] using hnests)
    exact hlow.group.expr

end Expr

/-! ## Reading canonical texts again -/

/-- A word that was read is one. -/
theorem isWord_of_tokenize {text : String} {ts : List Token} (h : tokenize text = .ok ts)
    {t : Token} (ht : t ∈ ts) {w : String} (hkind : t.kind = .word w) : IsWord w := by
  obtain ⟨source, hsource⟩ := exists_spells_of_tokenize h t ht
  rw [hkind] at hsource
  rw [IsWord, eq_of_spells hsource (.inl rfl)]
  exact tokenize_of_spells (eq_of_spells hsource (.inl rfl) ▸ hsource)

/-- A numeral that was read is one. -/
theorem isNumber_of_tokenize {text : String} {ts : List Token} (h : tokenize text = .ok ts)
    {t : Token} (ht : t ∈ ts) {n : String} (hkind : t.kind = .number n) : IsNumber n := by
  obtain ⟨source, hsource⟩ := exists_spells_of_tokenize h t ht
  rw [hkind] at hsource
  rw [IsNumber, eq_of_spells hsource (.inr rfl)]
  exact tokenize_of_spells (eq_of_spells hsource (.inr rfl) ▸ hsource)

namespace Expr

variable {e : Expr}

/-- An expression in normal form whose comparisons are words with plain literals is one that texts
can write. -/
theorem Normal.canonical (h : e.Normal)
    (hplain : ∀ c ∈ e.comparisons, IsWord c.1 ∧ isReserved c.1 = false ∧ c.2.Plain) {depth : Nat}
    (hdepth : e.height ≤ depth) : e.Canonical depth := by
  induction h generalizing depth with
  | equal field literal =>
    obtain ⟨hfield, hfree, hliteral⟩ := hplain (field, literal) (by simp)
    exact .equal hfield hfree hliteral
  | @and terms hlength _ hne ih =>
    obtain ⟨hpos, hterms⟩ := height_and_le_iff.1 hdepth
    obtain ⟨depth, rfl⟩ : ∃ n, depth = n + 1 := ⟨depth - 1, by omega⟩
    refine .and hlength (fun f hf => ih f hf (fun c hc => hplain c ?_) (hterms f hf)) hne
    rw [comparisons_and]
    exact List.mem_flatMap.2 ⟨f, hf, hc⟩
  | @or terms hlength _ hne ih =>
    obtain ⟨hpos, hterms⟩ := height_or_le_iff.1 hdepth
    obtain ⟨depth, rfl⟩ : ∃ n, depth = n + 1 := ⟨depth - 1, by omega⟩
    refine .or hlength (fun f hf => ih f hf (fun c hc => hplain c ?_) (hterms f hf)) hne
    rw [comparisons_or]
    exact List.mem_flatMap.2 ⟨f, hf, hc⟩

/-- The canonical text is cut into the tokens of the expression. -/
theorem tokenize_render {depth : Nat} (h : e.Canonical depth) :
    ∃ ts, tokenize e.render = .ok ts ∧ ts.map Token.kind = e.tokens := by
  have hcut := laidOut_of_canonical h [] [] (fun _ hd => by contradiction) .nil
  rw [List.append_nil, List.append_nil] at hcut
  exact exists_tokenize_of_cut hcut

/-- Where the literals are plain, what is read from tokens of a text can be written. -/
theorem canonical_of_ofTokens {text : String} {ts : List Token} {length : Nat}
    (htext : tokenize text = .ok ts) (hne : ts ≠ []) (h : ofTokens ts length = .ok e)
    (htexts : ∀ c ∈ e.comparisons, ∀ s, c.2 = .text s → c.2.Plain) {depth : Nat}
    (hdepth : e.height ≤ depth) : e.Canonical depth := by
  refine (normal_of_ofTokens hne h).canonical (fun c hc => ?_) hdepth
  obtain ⟨p, hp, hfield, hfree, hliteral⟩ := exists_compares_of_mem (comparisons_of_ofTokens h) hc
  obtain ⟨hmem, hmem'⟩ := mem_of_mem_writtenComparisons hp
  refine ⟨isWord_of_tokenize htext hmem hfield, hfree, ?_⟩
  have hplain := htexts c hc
  generalize hkind : p.2.kind = kind, c.2 = literal at hliteral hplain ⊢
  cases hliteral with
  | quoted | word => exact hplain _ rfl
  | number n => exact .number (isNumber_of_tokenize htext hmem' hkind)
  | bool => exact .bool _

end Expr

namespace Criteria

/-- A text that is compiled keeps to the limit. -/
theorem nests_of_compile {text : String} {ts : List Token} {P : Predicate}
    (htext : tokenize text = .ok ts) (h : (expression text).compile = .ok P) :
    Nests maxNesting (ts.map Token.kind) := by
  obtain ⟨us, e, hus, hread, -⟩ := exists_ofTokens_of_compile h
  obtain rfl := Except.ok.inj (hus.symm.trans htext)
  rw [← Expr.ofText_of_tokenize htext] at hread
  exact fun front hfront => Viable.count_le ⟨text, us, e, htext, hfront, hread⟩

/-- The canonical text of an expression that texts can write is compiled just if it keeps to the
limit, and then into the expression. -/
theorem compile_render_iff {e : Expr} (h : ∀ depth, e.height ≤ depth → e.Canonical depth) :
    ((expression e.render).compile = .ok ⟨e.render, e⟩ ↔ Nests maxNesting e.tokens) ∧
      ((∃ Q, (expression e.render).compile = .ok Q) ↔ Nests maxNesting e.tokens) := by
  obtain ⟨ts, hts, hkinds⟩ := Expr.tokenize_render (h _ (Nat.le_refl _))
  have hkeeps : ∀ Q, (expression e.render).compile = .ok Q →
      Nests maxNesting e.tokens := fun Q hQ =>
    hkinds ▸ nests_of_compile hts hQ
  have hcompile : Nests maxNesting e.tokens → (expression e.render).compile = .ok ⟨e.render, e⟩ :=
    fun hnests => by
    have hcanonical := h maxNesting ((e.nests_tokens_iff.2 _).1 hnests)
    have hne : ts ≠ [] :=
      fun hnil => Expr.tokens_ne_nil hcanonical (by rw [← hkinds, hnil, List.map_nil])
    have hrun := Expr.readBack_of_canonical hcanonical .empty ts rfl
      (Nat.le_of_eq (Nat.zero_add maxNesting)) hkinds
    have hexpr : (Draft.empty.addOperand e).group.expr = e := Group.expr_addTerm_empty hcanonical
    have hread : Expr.ofTokens ts e.render.utf8ByteSize = .ok e := by
      rw [Expr.ofTokens, if_neg hne, hrun]
      exact congrArg Except.ok hexpr
    rw [compile, Predicate.ofText, Expr.ofText_of_tokenize hts, hread]
  refine ⟨⟨hkeeps _, hcompile⟩, ?_, fun hnests => ⟨_, hcompile hnests⟩⟩
  rintro ⟨Q, hQ⟩
  exact hkeeps Q hQ

end Criteria

/-! ## Stairs -/

/-- So many disjunctions, each with a conjunction in it that holds the next one. -/
def stairs : Nat → Expr
  | 0 => .equal "a" (.number "1")
  | n + 1 => .or [.equal "a" (.number "1"), .and [.equal "a" (.number "1"), stairs n]]

/-- What stands between the parentheses of two stairs. -/
def flightText : String := "a=1 OR a=1 AND"

/-- The tokens of a flight. -/
def flight : List TokenKind :=
  [.word "a", .equals, .number "1"] ++ .word "OR" ::
    ([.word "a", .equals, .number "1"] ++ [.word "AND"])

/-- A text of stairs that opens one parenthesis for a disjunction and the conjunction in it. -/
def stairsText : Nat → String
  | 0 => "a=1"
  | n + 1 => "(" ++ flightText ++ " " ++ stairsText n ++ ")"

/-- The tokens of stairs. -/
def stairsKinds : Nat → List TokenKind
  | 0 => [.word "a", .equals, .number "1"]
  | n + 1 => .leftParen :: (flight ++ stairsKinds n) ++ [.rightParen]

/-- Every step of the stairs adds two to their height. -/
theorem height_stairs (n : Nat) : (stairs n).height = 2 * n := by
  induction n with
  | zero => rfl
  | succ n ih =>
    simp only [stairs, Expr.height, Expr.termHeight, ih]
    omega

/-- Every step of the stairs is one pair of parentheses. -/
theorem count_stairsKinds (n : Nat) : (stairsKinds n).count .leftParen = n := by
  induction n with
  | zero => rfl
  | succ n ih => simp [stairsKinds, flight, ih]

/-- Stairs are canonical at a depth of twice their steps. -/
theorem canonical_stairs {n depth : Nat} (h : 2 * n ≤ depth) : (stairs n).Canonical depth := by
  have hcomparison : ∀ depth, (Expr.equal "a" (.number "1")).Canonical depth := fun depth =>
    .equal (by decide +kernel) (by decide) (.number (by decide +kernel))
  induction n generalizing depth with
  | zero => exact hcomparison depth
  | succ n ih =>
    obtain ⟨depth, rfl⟩ : ∃ m, depth = m + 1 + 1 := ⟨depth - 2, by omega⟩
    have hstairs : (stairs n).Canonical depth := ih (by omega)
    have hne : ∀ l, stairs n ≠ .and l := by cases n <;> simp [stairs]
    have hand : (Expr.and [.equal "a" (.number "1"), stairs n]).Canonical (depth + 1) :=
      .and (by simp) (by simp [hcomparison, hstairs]) (by simp [hne])
    exact .or (by simp) (by simp [hcomparison, hand]) (by simp)

namespace Draft

variable {ts : List Token}

/-- A flight leaves a disjunction whose conjunction goes on. -/
theorem run_of_flight {d : Draft} (hts : ts.map Token.kind = flight) (hdue : d.due = .operand)
    (hgroup : d.group = .empty) :
    d.run ts = .ok ⟨d.opened, ⟨[.equal "a" (.number "1")], [.equal "a" (.number "1")]⟩,
      .operand⟩ := by
  have hfree : isReserved "a" = false := by decide
  have hliteral : Literal.ofToken? (.number "1") = some (.number "1") := by decide
  obtain ⟨us, _, rfl, hus, hts⟩ := List.map_eq_append_iff.1 hts
  obtain ⟨t, _, rfl, ht, hts⟩ := List.map_eq_cons_iff.1 hts
  obtain ⟨vs, _, rfl, hvs, hts⟩ := List.map_eq_append_iff.1 hts
  obtain ⟨t', _, rfl, ht', hts⟩ := List.map_eq_cons_iff.1 hts
  obtain rfl := List.map_eq_nil_iff.1 hts
  rw [run_append_of_ok (run_of_comparison hfree hliteral hus hdue), addOperand, hgroup,
    run_cons_of_ok (step_of_or (sameIgnoringCase_self "OR") ht _ _),
    run_append_of_ok (run_of_comparison hfree hliteral hvs rfl), addOperand,
    run_cons_of_ok (step_of_and (sameIgnoringCase_self "AND") ht' _ _)]
  rfl

/-- Behind a flight stairs are read as they are. -/
theorem run_of_stairs (n : Nat) {d : Draft} (hts : ts.map Token.kind = flight ++ stairsKinds n)
    (hdue : d.due = .operand) (hgroup : d.group = .empty)
    (hroom : d.opened.length + n ≤ maxNesting) :
    d.run ts = .ok ⟨d.opened, ⟨[.equal "a" (.number "1")], [stairs n, .equal "a" (.number "1")]⟩,
      .joiner⟩ := by
  induction n generalizing d ts with
  | zero =>
    obtain ⟨us, vs, rfl, hus, hvs⟩ := List.map_eq_append_iff.1 hts
    rw [run_append_of_ok (run_of_flight hus hdue hgroup)]
    exact run_of_comparison (by decide) (by decide) hvs rfl
  | succ n ih =>
    obtain ⟨us, vs, rfl, hus, hvs⟩ := List.map_eq_append_iff.1 hts
    have hroom' : d.opened.length < maxNesting := by omega
    obtain ⟨e, hrun, rfl⟩ := run_of_group (P := (· = stairs (n + 1)))
      (d := ⟨d.opened, ⟨[.equal "a" (.number "1")], [.equal "a" (.number "1")]⟩, .operand⟩)
        hvs rfl hroom'
      fun offset ws hws =>
        ⟨_, ih (d := ⟨_ :: d.opened, .empty, .operand⟩) hws rfl rfl
          (by rw [List.length_cons]; omega), rfl⟩
    rw [run_append_of_ok (run_of_flight hus hdue hgroup), hrun]
    rfl

end Draft

/-- Words and numerals stop at a blank. -/
theorem stops_blank {rest : List Char} : Stops (' ' :: rest) := by
  intro d hd kind
  cases hd
  exact endsAt_of_isBlank (by decide) kind

/-- The text of a step is cut into its tokens. -/
theorem isCut_flight {rest : List Char} {others : List TokenKind} (h : IsCut rest others) :
    IsCut (flightText.toList ++ ' ' :: rest) (flight ++ others) := by
  have htext :
      tokenize flightText = .ok [⟨.word "a", 0⟩, ⟨.equals, 1⟩, ⟨.number "1", 2⟩, ⟨.word "OR", 4⟩,
        ⟨.word "a", 7⟩, ⟨.equals, 8⟩, ⟨.number "1", 9⟩, ⟨.word "AND", 11⟩] := by decide +kernel
  exact isCut_append htext stops_blank (isCut_blank (by decide) h)

/-- A text of stairs is cut into its tokens. -/
theorem isCut_stairs (n : Nat) {rest : List Char} {others : List TokenKind} (hrest : Stops rest)
    (h : IsCut rest others) : IsCut ((stairsText n).toList ++ rest) (stairsKinds n ++ others) := by
  induction n generalizing rest others with
  | zero =>
    have htext : tokenize "a=1" = .ok [⟨.word "a", 0⟩, ⟨.equals, 1⟩, ⟨.number "1", 2⟩] := by
      decide +kernel
    exact isCut_append htext hrest h
  | succ n ih =>
    have hclose : IsCut (')' :: rest) (.rightParen :: others) :=
      isCut_token .rightParen (fun _ _ => rfl) h
    have hopen :=
      isCut_token .leftParen (fun _ _ => rfl) (isCut_flight (ih stops_rightParen hclose))
    have htext : (stairsText (n + 1)).toList ++ rest =
        ['('] ++ (flightText.toList ++ ' ' :: ((stairsText n).toList ++ ')' :: rest)) := by
      simp [stairsText]
    have hkinds : stairsKinds (n + 1) ++ others =
        .leftParen :: (flight ++ (stairsKinds n ++ .rightParen :: others)) := by
      simp [stairsKinds]
    rw [htext, hkinds]
    exact hopen

namespace Criteria

/-- What stairs are compiled into. -/
theorem compile_stairs {n : Nat} (h : n ≤ maxNesting) :
    (expression (flightText ++ " " ++ stairsText n)).compile =
      .ok ⟨(stairs (n + 1)).render, stairs (n + 1)⟩ := by
  have hcut : IsCut (flightText ++ " " ++ stairsText n).toList (flight ++ stairsKinds n) := by
    have hstairs := isCut_flight (isCut_stairs n (fun _ hd => by contradiction) isCut_nil)
    simpa using hstairs
  have hroom : Draft.empty.opened.length + n ≤ maxNesting := by simpa [Draft.empty] using h
  let g : Group := ⟨[.equal "a" (.number "1")], [stairs n, .equal "a" (.number "1")]⟩
  exact compile_of_run (g := g) hcut fun ts hts => Draft.run_of_stairs n hts rfl rfl hroom

/-- The text of stairs opens as many parentheses at once as it says. -/
theorem nestsWithin_stairs (n : Nat) : NestsWithin n (flightText ++ " " ++ stairsText n) := by
  obtain ⟨ts, hts, hkinds⟩ :=
    isCut_flight (isCut_stairs n (fun _ hd => by contradiction) isCut_nil) [] 0
  have htext : tokenize (flightText ++ " " ++ stairsText n) = .ok ts := by
    simpa [tokenize] using hts
  refine nestsWithin_of_count_le htext ?_
  rw [hkinds]
  simp [flight, count_stairsKinds]

/-! ## Compiling -/

/-- A text that is compiled keeps to the limit, but its canonical text nests up to twice as deep as
the text, and once more around the whole; and there are texts, as deep as the limit allows, for
which it nests just so deep. So it keeps to the limit where the text keeps to half of it. Where the
literals are words the canonical text is cut into the tokens of its expression, and it is compiled
again, into the same, just if it keeps to the limit itself. -/
theorem compile_nests :
    (∀ text P, (expression text).compile = .ok P →
      NestsWithin maxNesting text ∧
      (∀ depth, NestsWithin depth text → Nests (2 * (depth + 1)) P.expr.tokens) ∧
      ((∀ c ∈ P.expr.comparisons, ∀ s, c.2 = .text s → c.2.Plain) →
        (∃ ts, tokenize P.text = .ok ts ∧ ts.map Token.kind = P.expr.tokens) ∧
        ((expression P.text).compile = .ok P ↔ Nests maxNesting P.expr.tokens) ∧
        ((∃ Q, (expression P.text).compile = .ok Q) ↔ Nests maxNesting P.expr.tokens))) ∧
    ∀ depth, depth ≤ maxNesting → ∃ text P, (expression text).compile = .ok P ∧
      NestsWithin depth text ∧
      ∀ bound, Nests bound P.expr.tokens ↔ 2 * (depth + 1) ≤ bound := by
  constructor
  · intro text P h
    obtain ⟨ts, e, htext, hread, rfl⟩ := exists_ofTokens_of_compile h
    refine ⟨⟨ts, htext, nests_of_compile htext h⟩, fun depth hdepth => ?_, fun htexts => ?_⟩
    · obtain ⟨us, hus, hnests⟩ := hdepth
      obtain rfl := Except.ok.inj (hus.symm.trans htext)
      exact (e.nests_tokens_iff.2 _).2 (Expr.height_le_of_ofTokens hread hnests)
    · by_cases hne : ts = []
      · rw [hne, Expr.ofTokens, if_pos rfl] at hread
        obtain rfl := Except.ok.inj hread
        have hnests : Nests maxNesting Expr.all.tokens := nests_of_count_eq_zero rfl
        have hcompile : (expression Expr.all.render).compile = .ok ⟨Expr.all.render, .all⟩ := by
          decide +kernel
        have htokens : tokenize Expr.all.render = .ok [] := by decide +kernel
        exact ⟨⟨[], htokens, rfl⟩, iff_of_true hcompile hnests, iff_of_true ⟨_, hcompile⟩ hnests⟩
      · have hcanonical : ∀ depth, e.height ≤ depth → e.Canonical depth := fun depth hdepth =>
          Expr.canonical_of_ofTokens htext hne hread htexts hdepth
        have htokens := Expr.tokenize_render (hcanonical _ (Nat.le_refl _))
        exact ⟨htokens, compile_render_iff hcanonical⟩
  · intro depth hdepth
    refine ⟨_, _, compile_stairs hdepth, nestsWithin_stairs depth, fun bound => ?_⟩
    rw [(Expr.nests_tokens_iff _).2, height_stairs]

/-- A conjunction beside another one and around a disjunction. -/
theorem compile_nests_of_three :
    let P : Predicate := ⟨"(a=1 OR (b=true AND (c=x OR a=2)))", .or [.equal "a" (.number "1"),
      .and [.equal "b" (.bool true), .or [.equal "c" (.text "x"), .equal "a" (.number "2")]]]⟩
    (expression "a=1 OR b=true AND (c=x OR a=2)").compile = .ok P ∧ Nests 4 P.expr.tokens ∧
      (expression P.text).compile = .ok P := by
  intro P
  have hcompile : (expression "a=1 OR b=true AND (c=x OR a=2)").compile = .ok P := by decide +kernel
  have htokens : tokenize "a=1 OR b=true AND (c=x OR a=2)" =
      .ok [⟨.word "a", 0⟩, ⟨.equals, 1⟩, ⟨.number "1", 2⟩, ⟨.word "OR", 4⟩, ⟨.word "b", 7⟩,
      ⟨.equals, 8⟩, ⟨.word "true", 9⟩, ⟨.word "AND", 14⟩, ⟨.leftParen, 18⟩, ⟨.word "c", 19⟩,
      ⟨.equals, 20⟩, ⟨.word "x", 21⟩, ⟨.word "OR", 23⟩, ⟨.word "a", 26⟩, ⟨.equals, 27⟩,
      ⟨.number "2", 28⟩, ⟨.rightParen, 29⟩] := by decide +kernel
  have hword : (Literal.text "x").Plain := .text (by decide +kernel) (by decide) (by decide)
  obtain ⟨-, hdeep, hagain⟩ := compile_nests.1 _ P hcompile
  have hnests : Nests 4 P.expr.tokens := hdeep 1 (nestsWithin_of_count_le htokens (by decide))
  obtain ⟨-, hsame, -⟩ := hagain fun c hc s hs => by
    rw [hs]
    simp [P] at hc
    obtain rfl | rfl | rfl | rfl := hc <;> cases hs
    exact hword
  exact ⟨hcompile, hnests, hsame.2 (hnests.mono (by decide))⟩

/-- Stairs of half the limit, with a canonical text that exceeds it and is not compiled again. -/
theorem compile_stairs_exceeds :
    ∃ P, (expression (flightText ++ " " ++ stairsText 128)).compile = .ok P ∧
      ¬Nests maxNesting P.expr.tokens ∧
      ∀ Q, (expression P.text).compile ≠ .ok Q := by
  have hhigh : ¬Nests maxNesting (stairs 129).tokens := by
    rw [(Expr.nests_tokens_iff _).2, height_stairs]
    decide
  have hcanonical : ∀ depth, (stairs 129).height ≤ depth → (stairs 129).Canonical depth :=
    fun depth hdepth =>
    canonical_stairs (by rwa [height_stairs] at hdepth)
  refine ⟨_, compile_stairs (by decide), hhigh, fun Q hQ => hhigh ?_⟩
  exact (compile_render_iff hcanonical).2.1 ⟨Q, hQ⟩

end Criteria

end ClusterMap
