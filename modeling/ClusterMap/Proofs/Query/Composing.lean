import ClusterMap.Proofs.Query.Normal
import ClusterMap.Proofs.Query.Seams
import ClusterMap.Query.Predicate

/-!
# Predicates put together

Predicate texts between parentheses may be joined. At the seams the text is cut, as no token goes on
with a closing parenthesis. Between parentheses the same tokens are read as they are on their own,
while there is room for the parentheses that they open (`Draft.Inside`); they make one operand, and
as it is in normal form it is taken over as it is. Main statements: `Draft.inside_step`,
`Draft.inside_run`; `Criteria.compile_joined`.
-/

namespace ClusterMap

open Text

/-! ## Reading inside other groups -/

namespace Draft

/-- Whether a draft stands where another one does, but inside more groups. -/
structure Inside (outer : List (Nat × Group)) (d inside : Draft) : Prop where
  opened : ∃ inner, inside.opened = inner ++ outer ∧ inner.map Prod.snd = d.opened.map Prod.snd
  group : inside.group = d.group
  due : inside.due = d.due

variable {outer : List (Nat × Group)} {d d' inside : Draft} {t t' : Token}

/-- Within parentheses that are open already there are as many more. -/
theorem Inside.length_opened (h : d.Inside outer inside) :
    inside.opened.length = d.opened.length + outer.length := by
  obtain ⟨inner, hopened, hinner⟩ := h.opened
  have hlength := congrArg List.length hinner
  rw [List.length_map, List.length_map] at hlength
  rw [hopened, List.length_append, hlength]

/-- Every token that opens or closes a group is a parenthesis. -/
theorem length_opened_step (h : d.step t = .ok d') :
    d'.opened.length + [t.kind].count .rightParen =
      d.opened.length + [t.kind].count .leftParen := by
  cases step_eq_ok_iff.1 h with
  | leftParen _ hkind => simp [hkind]
  | field _ hkind | equals _ hkind | and _ hkind | or _ hkind => simp [hkind]
  | literal _ hliteral =>
    cases hkind : t.kind <;> simp_all [Literal.ofToken?, addOperand]
  | rightParen _ hkind hopened => simp [hkind, hopened, addOperand]

/-- A token does the same inside more groups, if they leave room for it. -/
theorem inside_step (h : d.Inside outer inside) (hkind : t'.kind = t.kind)
    (hstep : d.step t = .ok d') (hroom : d'.opened.length + outer.length ≤ maxNesting) :
    ∃ inside', inside.step t' = .ok inside' ∧ d'.Inside outer inside' := by
  have hlength := h.length_opened
  obtain ⟨⟨inner, hopened, hinner⟩, hgroup, hdue⟩ := h
  cases step_eq_ok_iff.1 hstep with
  | leftParen hd hk =>
    rw [List.length_cons] at hroom
    have hstep' := step_eq_ok_iff.2 (.leftParen (hdue.trans hd) (hkind.trans hk) (by omega))
    refine ⟨_, hstep', ⟨(t'.offset, inside.group) :: inner, ?_, ?_⟩, rfl, rfl⟩
    · simp [hopened]
    · simp [hinner, hgroup]
  | field hd hk hfree =>
    have hstep' := step_eq_ok_iff.2 (.field (hdue.trans hd) (hkind.trans hk) hfree)
    exact ⟨_, hstep', ⟨inner, hopened, hinner⟩, hgroup, rfl⟩
  | equals hd hk =>
    have hstep' := step_eq_ok_iff.2 (.equals (hdue.trans hd) (hkind.trans hk))
    exact ⟨_, hstep', ⟨inner, hopened, hinner⟩, hgroup, rfl⟩
  | literal hd hliteral =>
    have hstep' := step_eq_ok_iff.2 (.literal (hdue.trans hd) (hkind ▸ hliteral))
    refine ⟨_, hstep', ⟨inner, hopened, hinner⟩, ?_, rfl⟩
    simp [addOperand, hgroup]
  | and hd hk hw =>
    have hstep' := step_eq_ok_iff.2 (.and (hdue.trans hd) (hkind.trans hk) hw)
    exact ⟨_, hstep', ⟨inner, hopened, hinner⟩, hgroup, rfl⟩
  | or hd hk hw =>
    have hstep' := step_eq_ok_iff.2 (.or (hdue.trans hd) (hkind.trans hk) hw)
    refine ⟨_, hstep', ⟨inner, hopened, hinner⟩, ?_, rfl⟩
    simp [hgroup]
  | rightParen hd hk hd' =>
    rw [hd', List.map_cons] at hinner
    obtain ⟨entry, inner, rfl, hentry, hrest⟩ := List.map_eq_cons_iff.1 hinner
    obtain ⟨offset, g⟩ := entry
    cases hentry
    have hstep' := step_eq_ok_iff.2 (.rightParen (hdue.trans hd) (hkind.trans hk) hopened)
    refine ⟨_, hstep', ⟨inner, rfl, hrest⟩, ?_, rfl⟩
    simp [addOperand, hgroup]

/-- Tokens do the same inside more groups, if they leave room for all the parentheses that are open
at once. -/
theorem inside_run {ts ts' : List Token} {depth : Nat} (h : d.Inside outer inside)
    (hkinds : ts'.map Token.kind = ts.map Token.kind) (hrun : d.run ts = .ok d')
    (hnests : ∀ us, us <+: ts.map Token.kind →
      d.opened.length + us.count .leftParen ≤ us.count .rightParen + depth)
    (hroom : depth + outer.length ≤ maxNesting) :
    ∃ inside', inside.run ts' = .ok inside' ∧ d'.Inside outer inside' := by
  induction ts generalizing d inside ts' with
  | nil =>
    cases hrun
    obtain rfl := List.map_eq_nil_iff.1 hkinds
    exact ⟨inside, rfl, h⟩
  | cons t ts ih =>
    obtain ⟨t', ts', rfl, hkind, hkinds⟩ := List.map_eq_cons_iff.1 hkinds
    obtain ⟨d₁, hstep, hrun⟩ := exists_step_of_run hrun
    have hcount := length_opened_step hstep
    have hfirst := hnests [t.kind] (by simp)
    obtain ⟨inside₁, hstep', hinside⟩ := inside_step h hkind hstep (by omega)
    obtain ⟨inside', hrun', hinside'⟩ := ih hinside hkinds hrun fun us hus => by
      have hus' := hnests (t.kind :: us) (by simpa using hus)
      rw [← List.singleton_append, List.count_append, List.count_append] at hus'
      omega
    exact ⟨inside', by rw [run_cons_of_ok hstep', hrun'], hinside'⟩

/-! ## Operands -/

/-- Whether tokens are read as an operand where one is due and no parenthesis is open. -/
def ReadAs (kinds : List TokenKind) (e : Expr) : Prop :=
  ∀ (g : Group) (ts : List Token), ts.map Token.kind = kinds →
    run ⟨[], g, .operand⟩ ts = .ok ⟨[], g.addTerm e, .joiner⟩

/-- What is read on its own is read as an operand between parentheses, if it leaves room for
them. -/
theorem readAs_of_run {ts : List Token} {g : Group} (hrun : empty.run ts = .ok ⟨[], g, .joiner⟩)
    (hnests : ∀ us, us <+: ts.map Token.kind →
      us.count .leftParen ≤ us.count .rightParen + (maxNesting - 1)) :
    ReadAs (.leftParen :: (ts.map Token.kind ++ [.rightParen])) g.expr := by
  intro outer us hus
  obtain ⟨e, hread, rfl⟩ := run_of_group (P := (· = g.expr)) (d := ⟨[], outer, .operand⟩) hus rfl
    (by decide : 0 < maxNesting) fun offset vs hvs => by
      have hinside : empty.Inside [(offset, outer)] ⟨[(offset, outer)], .empty, .operand⟩ :=
        ⟨⟨[], rfl, rfl⟩, rfl, rfl⟩
      obtain ⟨⟨opened, group, due⟩, hrun', ⟨inner, hopened, hinner⟩, hgroup, hdue⟩ :=
        inside_run hinside hvs hrun (by simpa [empty] using hnests)
          (by decide : maxNesting - 1 + 1 ≤ maxNesting)
      obtain rfl := List.map_eq_nil_iff.1 hinner
      cases hopened
      cases hgroup
      cases hdue
      exact ⟨g, hrun', rfl⟩
  exact hread

/-- Two operands with a joiner between them, where `join` is what the joiner makes of the group in
front of it. -/
theorem run_of_joined {kinds kinds' : List TokenKind} {e f : Expr} (he : ReadAs kinds e)
    (hf : ReadAs kinds' f) {word : String} {join : Group → Group}
    (hjoin : ∀ (t : Token) (g : Group), t.kind = .word word →
      step ⟨[], g, .joiner⟩ t = .ok ⟨[], join g, .operand⟩)
    {ts : List Token} (hts : ts.map Token.kind = kinds ++ .word word :: kinds') :
    empty.run ts = .ok ⟨[], (join (Group.empty.addTerm e)).addTerm f, .joiner⟩ := by
  obtain ⟨us, _, rfl, hus, hts⟩ := List.map_eq_append_iff.1 hts
  obtain ⟨t, vs, rfl, ht, hvs⟩ := List.map_eq_cons_iff.1 hts
  have hfirst : empty.run us = .ok ⟨[], Group.empty.addTerm e, .joiner⟩ := he .empty us hus
  rw [run_append_of_ok hfirst, run_cons_of_ok (hjoin t _ ht), hf _ vs hvs]

end Draft

namespace Group

/-- Two terms side by side hold if both do. -/
theorem evaluate_expr_and (e f : Expr) (v : Value) :
    ((empty.addTerm e).addTerm f).expr.evaluate v = (e.evaluate v && f.evaluate v) := by
  simp [evaluate_expr, all_addTerm, empty]

/-- Two terms in two conjunctions hold if one does. -/
theorem evaluate_expr_or (e f : Expr) (v : Value) :
    ((empty.addTerm e).close.addTerm f).expr.evaluate v = (e.evaluate v || f.evaluate v) := by
  simp [evaluate_expr, all_addTerm, any_allConjunctions, close, empty]

end Group

/-! ## Parentheses and joiners in a text -/

section Seams

variable {rest : List Char} {others : List TokenKind}

/-- A text in parentheses is cut into its tokens between two parentheses. -/
theorem isCut_parentheses {text : String} {ts : List Token} (htext : tokenize text = .ok ts)
    (h : IsCut rest others) :
    IsCut ('(' :: (text.toList ++ ')' :: rest))
    (.leftParen :: (ts.map Token.kind ++ .rightParen :: others)) :=
  have hclose := isCut_token .rightParen (fun _ _ => rfl) h
  isCut_token .leftParen (fun _ _ => rfl) (isCut_append htext stops_rightParen hclose)

/-- A word between blanks is cut off. -/
theorem isCut_joiner {word : String} (hword : Spells word.toList (.word word))
    (h : IsCut rest others) :
    IsCut (' ' :: (word.toList ++ ' ' :: rest)) (.word word :: others) := by
  have hend : ∀ d ∈ (' ' :: rest).head?, (TokenKind.word word).endsAt d = true := fun d hd => by
    cases hd
    rfl
  have hblank : IsCut (' ' :: rest) others := isCut_blank (by decide) h
  exact isCut_blank (by decide) (isCut_token hword hend hblank)

end Seams

/-! ## Compiling -/

namespace Criteria

/-- Whether a text is cut into tokens of which no more than `depth` parentheses are open at once. -/
def NestsWithin (depth : Nat) (text : String) : Prop :=
  ∃ ts, tokenize text = .ok ts ∧
    ∀ us, us <+: ts.map Token.kind → us.count .leftParen ≤ us.count .rightParen + depth

/-- A text with few opening parentheses cannot nest deeply. -/
theorem nestsWithin_of_count_le {text : String} {ts : List Token} {depth : Nat}
    (h : tokenize text = .ok ts) (hcount : (ts.map Token.kind).count .leftParen ≤ depth) :
    NestsWithin depth text := by
  refine ⟨ts, h, fun us hus => ?_⟩
  have hle := hus.sublist.count_le .leftParen
  omega

/-- A text whose tokens are read as one group is compiled into what the group holds. -/
theorem compile_of_run {text : String} {kinds : List TokenKind} {g : Group}
    (hcut : IsCut text.toList kinds)
    (hrun : ∀ ts, ts.map Token.kind = kinds → Draft.empty.run ts = .ok ⟨[], g, .joiner⟩) :
    (expression text).compile = .ok ⟨g.expr.render, g.expr⟩ := by
  obtain ⟨ts, hts, hkinds⟩ := hcut [] 0
  have hread := hrun ts hkinds
  have hne : ts ≠ [] := fun hnil => by
    rw [hnil] at hread
    exact nomatch (congrArg Draft.due (Except.ok.inj hread) : Due.operand = .joiner)
  rw [compile, Predicate.ofText, Expr.ofText_of_tokenize (show tokenize text = .ok ts from hts),
    Expr.ofTokens, if_neg hne, hread]
  rfl

/-- A text that is compiled and leaves room for one more parenthesis is read as an operand between
parentheses. -/
theorem exists_readAs_of_compile {text : String} {P : Predicate}
    (h : (expression text).compile = .ok P) (hblank : text.toList.all isBlank = false)
    (hnests : NestsWithin (maxNesting - 1) text) :
    ∃ ts e, tokenize text = .ok ts ∧ P = ⟨e.render, e⟩ ∧ e.Normal ∧
      Draft.ReadAs (.leftParen :: (ts.map Token.kind ++ [.rightParen])) e := by
  obtain ⟨ts, hts, hnests⟩ := hnests
  have hne : ts ≠ [] := by
    rintro rfl
    rw [all_isBlank_of_tokensFrom hts] at hblank
    contradiction
  rw [compile, Predicate.ofText, Expr.ofText_of_tokenize hts] at h
  split at h
  · next e he =>
    cases h
    obtain ⟨g, hrun, rfl⟩ := Expr.exists_run_of_ofTokens hne he
    exact ⟨ts, g.expr, hts, rfl, Expr.normal_of_ofTokens hne he, Draft.readAs_of_run hrun hnests⟩
  · contradiction

/-- Two texts between parentheses with a joiner between them are compiled into what their operands
are joined to. -/
theorem compile_of_joined (join : Group → Group) {p q text word : String} {ts us : List Token}
    {e f : Expr} (hp : tokenize p = .ok ts) (hq : tokenize q = .ok us)
    (he : Draft.ReadAs (.leftParen :: (ts.map Token.kind ++ [.rightParen])) e)
    (hf : Draft.ReadAs (.leftParen :: (us.map Token.kind ++ [.rightParen])) f)
    (hword : Spells word.toList (.word word))
    (hjoin : ∀ (t : Token) (g : Group), t.kind = .word word →
      Draft.step ⟨[], g, .joiner⟩ t = .ok ⟨[], join g, .operand⟩)
    (htext : text.toList =
      '(' :: (p.toList ++ ')' :: ' ' :: (word.toList ++ ' ' :: '(' :: (q.toList ++ [')'])))) :
    let g := (join (Group.empty.addTerm e)).addTerm f
    (expression text).compile = .ok ⟨g.expr.render, g.expr⟩ := by
  have hcut := isCut_parentheses hp (isCut_joiner hword (isCut_parentheses hq isCut_nil))
  rw [← htext] at hcut
  exact compile_of_run hcut fun vs hvs => Draft.run_of_joined he hf hjoin (by simpa using hvs)

/-- Texts that compile, are not blank and leave room for one more parenthesis may be put between
parentheses and joined. Joined by `AND` they are met by what meets both, joined by `OR` by what
meets one of them, and a single one between parentheses is compiled into what it is compiled into
without them. -/
theorem compile_joined {p q : String} {P Q : Predicate} (hp : (expression p).compile = .ok P)
    (hq : (expression q).compile = .ok Q) (hpblank : p.toList.all isBlank = false)
    (hqblank : q.toList.all isBlank = false) (hpnests : NestsWithin (maxNesting - 1) p)
    (hqnests : NestsWithin (maxNesting - 1) q) :
    (∃ R, (expression ("(" ++ p ++ ") AND (" ++ q ++ ")")).compile = .ok R ∧
      ∀ v, R.holds v = (P.holds v && Q.holds v)) ∧
    (∃ R, (expression ("(" ++ p ++ ") OR (" ++ q ++ ")")).compile = .ok R ∧
      ∀ v, R.holds v = (P.holds v || Q.holds v)) ∧
    (expression ("(" ++ p ++ ")")).compile = .ok P := by
  obtain ⟨ts, e, hts, rfl, he, hread⟩ := exists_readAs_of_compile hp hpblank hpnests
  obtain ⟨us, f, hus, rfl, -, hread'⟩ := exists_readAs_of_compile hq hqblank hqnests
  refine ⟨?_, ?_, ?_⟩
  · have hword : Spells "AND".toList (.word "AND") := .word (c := 'A') rfl rfl
    refine ⟨_, compile_of_joined id hts hus hread hread' hword (fun t g ht => ?_) (by simp), ?_⟩
    · exact Draft.step_of_and (sameIgnoringCase_self "AND") ht [] g
    · exact Group.evaluate_expr_and e f
  · have hword : Spells "OR".toList (.word "OR") := .word (c := 'O') rfl rfl
    refine ⟨_, compile_of_joined Group.close hts hus hread hread' hword (fun t g ht => ?_)
      (by simp), ?_⟩
    · exact Draft.step_of_or (sameIgnoringCase_self "OR") ht [] g
    · exact Group.evaluate_expr_or e f
  · have hcut :
        IsCut ("(" ++ p ++ ")").toList (.leftParen :: (ts.map Token.kind ++ [.rightParen])) := by
      simpa using isCut_parentheses hts isCut_nil
    have hcompile := compile_of_run hcut (hread .empty)
    rwa [Group.expr_addTerm_of_normal he] at hcompile

/-- A disjunction that ends in a number and a conjunction that ends in a quote. -/
theorem compile_joined_of_or :
    let P : Predicate :=
      ⟨"(a=1 OR b=-2.5)", .or [.equal "a" (.number "1"), .equal "b" (.number "-2.5")]⟩
    let Q : Predicate :=
      ⟨"(c=x AND d=it's)", .and [.equal "c" (.text "x"), .equal "d" (.text "it's")]⟩
    (expression "a=1 OR b=-2.5").compile = .ok P ∧
    (expression "(c=x) AND d='it''s'").compile = .ok Q ∧
      (∃ R, (expression "(a=1 OR b=-2.5) AND ((c=x) AND d='it''s')").compile = .ok R ∧
        ∀ v, R.holds v = (P.holds v && Q.holds v)) ∧
      (expression "(a=1 OR b=-2.5)").compile = .ok P := by
  intro P Q
  have hP : (expression "a=1 OR b=-2.5").compile = .ok P := by decide +kernel
  have hQ : (expression "(c=x) AND d='it''s'").compile = .ok Q := by decide +kernel
  have hp : tokenize "a=1 OR b=-2.5" =
      .ok [⟨.word "a", 0⟩, ⟨.equals, 1⟩, ⟨.number "1", 2⟩, ⟨.word "OR", 4⟩, ⟨.word "b", 7⟩,
        ⟨.equals, 8⟩, ⟨.number "-2.5", 9⟩] := by decide +kernel
  have hq : tokenize "(c=x) AND d='it''s'" =
      .ok [⟨.leftParen, 0⟩, ⟨.word "c", 1⟩, ⟨.equals, 2⟩, ⟨.word "x", 3⟩, ⟨.rightParen, 4⟩,
        ⟨.word "AND", 6⟩, ⟨.word "d", 10⟩, ⟨.equals, 11⟩, ⟨.quoted "it's", 12⟩] := by decide +kernel
  obtain ⟨hand, -, hsame⟩ :=
    compile_joined hP hQ (by decide) (by decide) (nestsWithin_of_count_le hp (by decide))
    (nestsWithin_of_count_le hq (by decide))
  exact ⟨hP, hQ, hand, hsame⟩

end Criteria

end ClusterMap
