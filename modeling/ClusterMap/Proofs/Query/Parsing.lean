import ClusterMap.Proofs.Query.Numbers
import ClusterMap.Query.Draft
import ClusterMap.Query.Grammar

/-!
# The reader and the grammar

A predicate text is accepted if and only if the grammar derives its tokens, and the expression that
is read says of every value what the derivation says. Soundness carries along what a draft has read
(`Reads`): the tokens of the groups around the innermost one, each up to its open parenthesis, and
the tokens of that group. Completeness follows a derivation and never sees a token refused. As the
reader gives one expression, all derivations of a text mean the same. Main statements: `reads_step`,
`reads_run`; `run_of_disjunction`; `accepts_iff_says`.
-/

namespace ClusterMap

open Grammar Text

/-! ## Groups and their truth -/

namespace Group

theorem evaluate_collapse_and (terms : List Expr) (v : Value) :
    (collapse .and terms).evaluate v = terms.all (Expr.evaluate v) := by
  match terms with
  | [] => rfl
  | [e] => simp [collapse]
  | e :: f :: rest => rw [collapse, Expr.evaluate_and]; simp

theorem evaluate_collapse_or (terms : List Expr) (v : Value) :
    (collapse .or terms).evaluate v = terms.any (Expr.evaluate v) := by
  match terms with
  | [] => rfl
  | [e] => simp [collapse]
  | e :: f :: rest => rw [collapse, Expr.evaluate_or]; simp

@[simp] theorem conjunctions_addTerm (g : Group) (e : Expr) :
    (g.addTerm e).conjunctions = g.conjunctions := by
  unfold addTerm
  split <;> rfl

/-- Taking over the terms of a conjunction is as good as adding it. -/
theorem all_addTerm (g : Group) (e : Expr) (v : Value) :
    (g.addTerm e).terms.all (Expr.evaluate v) =
      (g.terms.all (Expr.evaluate v) && e.evaluate v) := by
  unfold addTerm
  split
  · next terms => rw [List.all_append, List.all_reverse, Expr.evaluate_and, Bool.and_comm]
  · rw [List.all_cons, Bool.and_comm]

theorem evaluate_conjunction (g : Group) (v : Value) :
    g.conjunction.evaluate v = g.terms.all (Expr.evaluate v) := by
  rw [conjunction, evaluate_collapse_and, List.all_reverse]

/-- Taking over the terms of a disjunction is as good as adding it. -/
theorem any_allConjunctions (g : Group) (v : Value) :
    g.allConjunctions.any (Expr.evaluate v) =
      (g.conjunctions.any (Expr.evaluate v) || g.terms.all (Expr.evaluate v)) := by
  have hcurrent := g.evaluate_conjunction v
  unfold allConjunctions
  split
  · next terms heq =>
    rw [heq, Expr.evaluate_or] at hcurrent
    rw [List.any_append, List.any_reverse, hcurrent, Bool.or_comm]
  · rw [List.any_cons, hcurrent, Bool.or_comm]

/-- A group is true where one of its conjunctions is. -/
theorem evaluate_expr (g : Group) (v : Value) :
    g.expr.evaluate v = (g.conjunctions.any (Expr.evaluate v) ||
      g.terms.all (Expr.evaluate v)) := by
  rw [expr, evaluate_collapse_or, List.any_reverse, any_allConjunctions]

end Group

/-! ## What a token does -/

/-- Two words that differ in more than their case are no spellings of one word. -/
theorem sameIgnoringCase_eq_false {w s t : String} (hs : sameIgnoringCase w s = true)
    (hst : sameIgnoringCase s t = false) : sameIgnoringCase w t = false := by
  rw [Bool.eq_false_iff] at hst ⊢
  intro ht
  rw [sameIgnoringCase_comm] at hs
  exact hst (sameIgnoringCase_trans hs ht)

/-- A draft accepts a token, and what it is then. -/
inductive Draft.Accepts (d : Draft) (t : Token) : Draft → Prop where
  | leftParen (due_eq : d.due = .operand) (kind_eq : t.kind = .leftParen)
      (room : d.opened.length ≠ maxNesting) :
      Accepts d t ⟨(t.offset, d.group) :: d.opened, .empty, .operand⟩
  | field {w : String} (due_eq : d.due = .operand) (kind_eq : t.kind = .word w)
      (free : isReserved w = false) :
      Accepts d t { d with due := .equals w }
  | equals {field : String} (due_eq : d.due = .equals field) (kind_eq : t.kind = .equals) :
      Accepts d t { d with due := .literal field }
  | literal {field : String} {literal : Literal} (due_eq : d.due = .literal field)
      (literal_eq : Literal.ofToken? t.kind = some literal) :
        Accepts d t (d.addOperand (.equal field literal))
  | and {w : String} (due_eq : d.due = .joiner) (kind_eq : t.kind = .word w)
      (joins : sameIgnoringCase w "AND" = true) : Accepts d t { d with due := .operand }
  | or {w : String} (due_eq : d.due = .joiner) (kind_eq : t.kind = .word w)
      (joins : sameIgnoringCase w "OR" = true) :
        Accepts d t { d with group := d.group.close, due := .operand }
  | rightParen {offset : Nat} {outer : Group} {opened : List (Nat × Group)}
      (due_eq : d.due = .joiner)
      (kind_eq : t.kind = .rightParen) (opened_eq : d.opened = (offset, outer) :: opened) :
      Accepts d t (Draft.addOperand ⟨opened, outer, .operand⟩ d.group.expr)

namespace Draft

variable {d d' : Draft} {t : Token} {ts : List TokenKind}

/-- A step succeeds just if the draft accepts the token. -/
theorem step_eq_ok_iff : d.step t = .ok d' ↔ d.Accepts t d' := by
  constructor
  · intro h
    unfold step at h
    split at h
    · next hdue =>
      unfold readOperand at h
      split at h
      · next hkind =>
        split at h
        · contradiction
        · next hroom => cases h; exact .leftParen hdue hkind hroom
      · next w hkind =>
        split at h
        · contradiction
        · next hfree => cases h; exact .field hdue hkind (Bool.eq_false_iff.2 hfree)
      · contradiction
    · next field hdue =>
      split at h
      · next hkind => cases h; exact .equals hdue hkind
      · contradiction
    · next field hdue =>
      split at h
      · next literal hliteral => cases h; exact .literal hdue hliteral
      · contradiction
    · next hdue =>
      unfold readJoiner at h
      split at h
      · next w hkind =>
        split at h
        · next hw => cases h; exact .and hdue hkind hw
        · split at h
          · next hw => cases h; exact .or hdue hkind hw
          · contradiction
      · next hkind =>
        split at h
        · contradiction
        · next hopened => cases h; exact .rightParen hdue hkind hopened
      · contradiction
  · intro h
    cases h with
    | leftParen hdue hkind hroom => simp only [step, hdue, readOperand, hkind, if_neg hroom]
    | field hdue hkind hfree => simp [step, hdue, readOperand, hkind, hfree]
    | equals hdue hkind => simp [step, hdue, hkind]
    | literal hdue hliteral => simp [step, hdue, hliteral]
    | and hdue hkind hw => simp [step, hdue, readJoiner, hkind, hw]
    | or hdue hkind hw =>
      have hother := sameIgnoringCase_eq_false hw (t := "AND") (by decide)
      simp [step, hdue, readJoiner, hkind, hw, hother]
    | rightParen hdue hkind hopened => simp [step, hdue, readJoiner, hkind, hopened]

end Draft

/-! ## What has been read -/

namespace Draft

/-- The tokens of the conjunctions of a group that have ended, the joiner behind the last one
included. -/
inductive Ended (depth : Nat) : List Expr → List TokenKind → Prop where
  | nothing : Ended depth [] []
  | or {es : List Expr} {ts : List TokenKind} {w : String} {m : Meaning} :
      Disjunction depth ts m → sameIgnoringCase w "OR" = true →
      (∀ v, es.any (Expr.evaluate v) = m v) →
      Ended depth es (ts ++ [.word w])

/-- The tokens of a group behind one of its operands. -/
inductive Whole (depth : Nat) (g : Group) : List TokenKind → Prop where
  | intro {ts us : List TokenKind} {m : Meaning} :
      Ended depth g.conjunctions ts → Conjunction depth us m →
      (∀ v, g.terms.all (Expr.evaluate v) = m v) → Whole depth g (ts ++ us)

/-- The tokens of a group in front of one of its operands. -/
inductive Partial (depth : Nat) (g : Group) : List TokenKind → Prop where
  | first {ts : List TokenKind} : Ended depth g.conjunctions ts → g.terms = [] → Partial depth g ts
  | and {ts : List TokenKind} {w : String} :
      Whole depth g ts → sameIgnoringCase w "AND" = true → Partial depth g (ts ++ [.word w])

theorem Partial.addTerm {depth : Nat} {g : Group} {ts us : List TokenKind} {e : Expr} {m : Meaning}
    (h : Partial depth g ts) (hoperand : Operand depth us m) (he : ∀ v, e.evaluate v = m v) :
    Whole depth (g.addTerm e) (ts ++ us) := by
  cases h with
  | first hended hterms =>
    have hall : ∀ v, (g.addTerm e).terms.all (Expr.evaluate v) = m v := fun v => by
      rw [Group.all_addTerm, hterms, List.all_nil, Bool.true_and, he]
    exact .intro (by rw [Group.conjunctions_addTerm]; exact hended) (.single hoperand) hall
  | @and _ w hwhole hw =>
    obtain ⟨hended, hconjunction, hterms⟩ := hwhole
    rename_i ts cs n
    have hall : ∀ v, (g.addTerm e).terms.all (Expr.evaluate v) = (n v && m v) := fun v => by
      rw [Group.all_addTerm, hterms, he]
    rw [List.append_assoc, List.append_assoc, List.singleton_append]
    exact .intro (by rw [Group.conjunctions_addTerm]; exact hended)
      (.and hconjunction hw hoperand) hall

/-- A group that ends behind an operand is a disjunction. -/
theorem Whole.disjunction {depth : Nat} {g : Group} {ts : List TokenKind} (h : Whole depth g ts) :
    ∃ m, Disjunction depth ts m ∧ ∀ v, g.expr.evaluate v = m v := by
  obtain ⟨hended, hconjunction, hterms⟩ := h
  rename_i ts us n
  generalize hes : g.conjunctions = es at hended
  cases hended with
  | nothing =>
    refine ⟨n, .single hconjunction, fun v => ?_⟩
    rw [Group.evaluate_expr, hes, List.any_nil, Bool.false_or, hterms]
  | @or _ ts w m hdisjunction hw hany =>
    refine ⟨fun v => m v || n v, ?_, fun v => ?_⟩
    · rw [List.append_assoc, List.singleton_append]
      exact .or hdisjunction hw hconjunction
    · rw [Group.evaluate_expr, hes, hany, hterms]

theorem Whole.close {depth : Nat} {g : Group} {ts : List TokenKind} {w : String}
    (h : Whole depth g ts) (hw : sameIgnoringCase w "OR" = true) :
    Partial depth g.close (ts ++ [.word w]) := by
  obtain ⟨m, hdisjunction, hexpr⟩ := h.disjunction
  refine .first (.or hdisjunction hw fun v => ?_) rfl
  rw [Group.close, Group.any_allConjunctions, ← Group.evaluate_expr, hexpr]

/-- The tokens in front of the innermost group, given the groups around it. -/
inductive Enclosing : List (Nat × Group) → List TokenKind → Prop where
  | outside : Enclosing [] []
  | inside {opened : List (Nat × Group)} {offset : Nat} {g : Group} {ts us : List TokenKind} :
      opened.length < maxNesting → Enclosing opened ts → Partial (maxNesting - opened.length) g us →
      Enclosing ((offset, g) :: opened) (ts ++ us ++ [.leftParen])

theorem Enclosing.length_le {opened : List (Nat × Group)} {ts : List TokenKind}
    (h : Enclosing opened ts) :
    opened.length ≤ maxNesting := by
  cases h with
  | outside => exact Nat.zero_le _
  | inside hlength _ _ => exact hlength

/-- The tokens of the innermost group, given which sort of token is due. -/
def Within (depth : Nat) (g : Group) : Due → List TokenKind → Prop
  | .operand, ts => Partial depth g ts
  | .equals field, ts =>
    ∃ us, ts = us ++ [.word field] ∧ isReserved field = false ∧ Partial depth g us
  | .literal field, ts =>
    ∃ us, ts = us ++ [.word field, .equals] ∧ isReserved field = false ∧ Partial depth g us
  | .joiner, ts => Whole depth g ts

/-- A draft has read a list of tokens. -/
def Reads (d : Draft) (ts : List TokenKind) : Prop :=
  ∃ us vs, ts = us ++ vs ∧ Enclosing d.opened us ∧
    Within (maxNesting - d.opened.length) d.group d.due vs

theorem reads_empty : empty.Reads [] := ⟨[], [], rfl, .outside, .first .nothing rfl⟩

/-! ## Soundness -/

variable {d d' : Draft} {t : Token} {ts : List TokenKind}

/-- An operand of the innermost group may be followed by what follows operands. -/
theorem reads_addOperand {e : Expr} {us vs ws : List TokenKind} {m : Meaning}
    (houter : Enclosing d.opened us) (hinner : Partial (maxNesting - d.opened.length) d.group vs)
    (hoperand : Operand (maxNesting - d.opened.length) ws m) (he : ∀ v, e.evaluate v = m v) :
    (d.addOperand e).Reads (us ++ (vs ++ ws)) :=
  ⟨us, vs ++ ws, rfl, houter, hinner.addTerm hoperand he⟩

/-- What has been read stays so with one token more. -/
theorem reads_step (h : d.Reads ts) (hstep : d.step t = .ok d') : d'.Reads (ts ++ [t.kind]) := by
  obtain ⟨us, vs, rfl, houter, hinner⟩ := h
  cases step_eq_ok_iff.1 hstep with
  | leftParen hdue hkind hroom =>
    rw [hdue] at hinner
    have hlength : d.opened.length < maxNesting := Nat.lt_of_le_of_ne houter.length_le hroom
    rw [hkind]
    exact ⟨_, [], (List.append_nil _).symm, .inside hlength houter hinner, .first .nothing rfl⟩
  | @field w hdue hkind hfree =>
    rw [hdue] at hinner
    rw [hkind]
    exact ⟨us, vs ++ [.word w], List.append_assoc us vs _, houter, vs, rfl, hfree, hinner⟩
  | @equals field hdue hkind =>
    rw [hdue] at hinner
    obtain ⟨ws, rfl, hfield, hpartial⟩ := hinner
    rw [hkind]
    exact ⟨us, ws ++ [.word field, .equals], by simp, houter, ws, rfl, hfield, hpartial⟩
  | @literal field literal hdue hliteral =>
    rw [hdue] at hinner
    obtain ⟨ws, rfl, hfield, hpartial⟩ := hinner
    have htokens : us ++ (ws ++ [.word field, .equals]) ++ [t.kind] =
        us ++ (ws ++ [.word field, .equals, t.kind]) := by simp
    rw [htokens]
    exact reads_addOperand houter hpartial (.comparison hfield (denotes_of_ofToken? hliteral))
      fun v => rfl
  | @and w hdue hkind hw =>
    rw [hdue] at hinner
    rw [hkind, List.append_assoc]
    exact ⟨us, vs ++ [TokenKind.word w], rfl, houter, .and hinner hw⟩
  | @or w hdue hkind hw =>
    rw [hdue] at hinner
    rw [hkind, List.append_assoc]
    exact ⟨us, vs ++ [TokenKind.word w], rfl, houter, hinner.close hw⟩
  | @rightParen offset outer opened hdue hkind hopened =>
    rw [hdue] at hinner
    rw [hopened] at houter hinner
    obtain ⟨m, hdisjunction, hexpr⟩ := hinner.disjunction
    obtain ⟨_⟩ | ⟨hlength, houter, hpartial⟩ := houter
    rename_i ts us
    have hdepth : maxNesting - opened.length =
        maxNesting - ((offset, outer) :: opened).length + 1 := by
      rw [List.length_cons]
      omega
    have hoperand : Operand (maxNesting - opened.length) (.leftParen :: vs ++ [.rightParen]) m := by
      rw [hdepth]
      exact .group hdisjunction
    have htokens : ts ++ us ++ [.leftParen] ++ vs ++ [t.kind] =
        ts ++ (us ++ (.leftParen :: vs ++ [.rightParen])) := by
      simp [hkind]
    rw [htokens]
    exact reads_addOperand (d := ⟨opened, outer, .operand⟩) houter hpartial hoperand hexpr

/-- The draft behind the first token of a run. -/
theorem exists_step_of_run {tokens : List Token} (h : d.run (t :: tokens) = .ok d') :
    ∃ d₁, d.step t = .ok d₁ ∧ d₁.run tokens = .ok d' := by
  rw [run] at h
  split at h
  · next d₁ hstep => exact ⟨d₁, hstep, h⟩
  · contradiction

/-- A draft that was reached has read the tokens that led there. -/
theorem reads_run {tokens : List Token} (h : d.Reads ts) (hrun : d.run tokens = .ok d') :
    d'.Reads (ts ++ tokens.map Token.kind) := by
  induction tokens generalizing d ts with
  | nil =>
    cases hrun
    rw [List.map_nil, List.append_nil]
    exact h
  | cons t tokens ih =>
    obtain ⟨d₁, hstep, hrun⟩ := exists_step_of_run hrun
    rw [List.map_cons, List.append_cons]
    exact ih (reads_step h hstep) hrun

/-- What is accepted at the end of the text is a disjunction, and the expression has its meaning. -/
theorem disjunction_of_finish {length : Nat} {e : Expr} (h : d.Reads ts)
    (hfinish : d.finish length = .ok e) :
    ∃ m, Disjunction maxNesting ts m ∧ ∀ v, e.evaluate v = m v := by
  obtain ⟨us, vs, rfl, houter, hinner⟩ := h
  unfold finish at hfinish
  split at hfinish
  · next hdue hopened =>
    cases hfinish
    rw [hdue, hopened] at hinner
    rw [hopened] at houter
    cases houter
    exact hinner.disjunction
  · contradiction
  · contradiction

/-! ## Completeness -/

/-- Whether every number among some tokens is accepted as a literal. -/
def Legible (ts : List TokenKind) : Prop :=
  ∀ n, .number n ∈ ts → Literal.ofToken? (.number n) = some (.number n)

theorem Legible.of_subset {ts us : List TokenKind} (h : Legible us) (hsub : ts ⊆ us) : Legible ts :=
  fun n hn => h n (hsub hn)

theorem ofToken?_of_denotes {kind : TokenKind} {literal : Literal} (h : Denotes kind literal)
    (hlegible : Legible [kind]) : Literal.ofToken? kind = some literal := by
  cases h with
  | quoted s => rfl
  | number n => exact hlegible n (List.mem_singleton_self _)
  | @bool w b hw =>
    cases b with
    | true =>
      have hword : sameIgnoringCase w "true" = true := hw
      simp only [Literal.ofToken?, hword, if_true]
    | false =>
      have hother : sameIgnoringCase w "true" = false := sameIgnoringCase_eq_false hw (by decide)
      have hword : sameIgnoringCase w "false" = true := hw
      simp only [Literal.ofToken?, hother, hword, Bool.false_eq_true, if_false, if_true]
  | @word w hreserved hbool =>
    have htrue : sameIgnoringCase w "true" = false := hbool true
    have hfalse : sameIgnoringCase w "false" = false := hbool false
    simp only [Literal.ofToken?, htrue, hfalse, hreserved, Bool.false_eq_true, if_false]

/-- Reading on where a run has come to. -/
theorem run_append_of_ok {ts us : List Token} (h : d.run ts = .ok d') :
    d.run (ts ++ us) = d'.run us := by
  rw [run_append, h]

theorem run_cons_of_ok {us : List Token} (h : d.step t = .ok d') : d.run (t :: us) = d'.run us := by
  rw [run, h]

/-- A comparison is read where an operand is due. -/
theorem run_of_comparison {field : String} {kind : TokenKind} {literal : Literal}
    (hfield : isReserved field = false) (hliteral : Literal.ofToken? kind = some literal)
    {tokens : List Token} (hkinds : tokens.map Token.kind = [.word field, .equals, kind])
    (hdue : d.due = .operand) :
    d.run tokens = .ok (d.addOperand (.equal field literal)) := by
  obtain ⟨t₁, _, rfl, h₁, hkinds⟩ := List.map_eq_cons_iff.1 hkinds
  obtain ⟨t₂, _, rfl, h₂, hkinds⟩ := List.map_eq_cons_iff.1 hkinds
  obtain ⟨t₃, _, rfl, h₃, hkinds⟩ := List.map_eq_cons_iff.1 hkinds
  obtain rfl := List.map_eq_nil_iff.1 hkinds
  have hword := step_eq_ok_iff.2 (.field hdue h₁ hfield)
  have hequals := step_eq_ok_iff.2 (.equals (d := { d with due := .equals field }) rfl h₂)
  have hvalue :=
    step_eq_ok_iff.2 (.literal (d := { d with due := .literal field }) rfl (h₃ ▸ hliteral))
  rw [run_cons_of_ok hword, run_cons_of_ok hequals, run_cons_of_ok hvalue]
  rfl

/-- What is read as a group is read as an operand between parentheses, while one more may be
opened. -/
theorem run_of_group {kinds : List TokenKind} {P : Expr → Prop} {tokens : List Token}
    (hkinds : tokens.map Token.kind = .leftParen :: kinds ++ [.rightParen])
    (hdue : d.due = .operand) (hroom : d.opened.length < maxNesting)
    (hgroup : ∀ (offset : Nat) (ts : List Token), ts.map Token.kind = kinds →
      ∃ g, run ⟨(offset, d.group) :: d.opened, .empty, .operand⟩ ts =
        .ok ⟨(offset, d.group) :: d.opened, g, .joiner⟩ ∧ P g.expr) :
    ∃ e, d.run tokens = .ok (d.addOperand e) ∧ P e := by
  obtain ⟨t₁, _, rfl, h₁, hkinds⟩ := List.map_eq_cons_iff.1 hkinds
  obtain ⟨ts, _, rfl, hts, hkinds⟩ := List.map_eq_append_iff.1 hkinds
  obtain ⟨t₂, _, rfl, h₂, hkinds⟩ := List.map_eq_cons_iff.1 hkinds
  obtain rfl := List.map_eq_nil_iff.1 hkinds
  have hopening := step_eq_ok_iff.2 (.leftParen hdue h₁ (Nat.ne_of_lt hroom))
  obtain ⟨g, hrun, hg⟩ := hgroup t₁.offset ts hts
  have hclosing := step_eq_ok_iff.2
    (.rightParen (d := ⟨(t₁.offset, d.group) :: d.opened, g, .joiner⟩) rfl h₂ rfl)
  refine ⟨g.expr, ?_, hg⟩
  rw [run_cons_of_ok hopening, run_append_of_ok hrun, run_cons_of_ok hclosing]
  rfl

/-- `AND` leads to the next operand of the conjunction. -/
theorem step_of_and {w : String} (hw : sameIgnoringCase w "AND" = true) (ht : t.kind = .word w)
    (opened : List (Nat × Group)) (g : Group) :
    step ⟨opened, g, .joiner⟩ t = .ok ⟨opened, g, .operand⟩ :=
  step_eq_ok_iff.2 (.and rfl ht hw)

/-- `OR` ends the conjunction. -/
theorem step_of_or {w : String} (hw : sameIgnoringCase w "OR" = true) (ht : t.kind = .word w)
    (opened : List (Nat × Group)) (g : Group) :
    step ⟨opened, g, .joiner⟩ t = .ok ⟨opened, g.close, .operand⟩ :=
  step_eq_ok_iff.2 (.or rfl ht hw)

mutual

/-- Where an operand is due none is refused. -/
theorem run_of_operand {depth : Nat} {kinds : List TokenKind} {m : Meaning}
    (h : Operand depth kinds m) (hlegible : Legible kinds) {tokens : List Token}
    (hkinds : tokens.map Token.kind = kinds) {d : Draft} (hdue : d.due = .operand)
    (hdepth : d.opened.length + depth ≤ maxNesting) :
    ∃ e, d.run tokens = .ok (d.addOperand e) ∧ ∀ v, e.evaluate v = m v := by
  match h with
  | @Operand.comparison _ field kind literal hfield hliteral =>
    have htoken : Literal.ofToken? kind = some literal :=
      ofToken?_of_denotes hliteral (hlegible.of_subset (by simp))
    exact ⟨.equal field literal, run_of_comparison hfield htoken hkinds hdue, fun v => rfl⟩
  | @Operand.group depth kinds m hdisjunction =>
    refine run_of_group (P := fun e => ∀ v, e.evaluate v = m v) hkinds hdue (by omega)
      fun offset ts hts => ?_
    refine run_of_disjunction hdisjunction (hlegible.of_subset (by simp)) hts rfl rfl ?_
    rw [List.length_cons]
    omega

/-- Where a conjunction is due none is refused. -/
theorem run_of_conjunction {depth : Nat} {kinds : List TokenKind} {m : Meaning}
    (h : Conjunction depth kinds m) (hlegible : Legible kinds) {tokens : List Token}
    (hkinds : tokens.map Token.kind = kinds) {d : Draft} (hdue : d.due = .operand)
    (hterms : d.group.terms = []) (hdepth : d.opened.length + depth ≤ maxNesting) :
    ∃ g, d.run tokens = .ok ⟨d.opened, g, .joiner⟩ ∧ g.conjunctions = d.group.conjunctions ∧
      ∀ v, g.terms.all (Expr.evaluate v) = m v := by
  match h with
  | .single hoperand =>
    obtain ⟨e, hrun, he⟩ := run_of_operand hoperand hlegible hkinds hdue hdepth
    refine ⟨d.group.addTerm e, hrun, d.group.conjunctions_addTerm e, fun v => ?_⟩
    rw [Group.all_addTerm, hterms, List.all_nil, Bool.true_and, he]
  | .and hconjunction hw hoperand =>
    obtain ⟨ts, _, rfl, hts, hkinds⟩ := List.map_eq_append_iff.1 hkinds
    obtain ⟨t, us, rfl, ht, hus⟩ := List.map_eq_cons_iff.1 hkinds
    obtain ⟨g, hrun, hconjunctions, hall⟩ :=
      run_of_conjunction hconjunction (hlegible.of_subset (by simp)) hts hdue hterms hdepth
    have hstep := step_of_and hw ht d.opened g
    obtain ⟨e, hrun', he⟩ := run_of_operand hoperand (hlegible.of_subset (by simp)) hus
      (d := ⟨d.opened, g, .operand⟩) rfl hdepth
    refine ⟨g.addTerm e, ?_, ?_, fun v => ?_⟩
    · rw [run_append_of_ok hrun, run_cons_of_ok hstep, hrun']
      rfl
    · rw [Group.conjunctions_addTerm, hconjunctions]
    · rw [Group.all_addTerm, hall, he]

/-- At the start of a group no disjunction is refused. -/
theorem run_of_disjunction {depth : Nat} {kinds : List TokenKind} {m : Meaning}
    (h : Disjunction depth kinds m) (hlegible : Legible kinds) {tokens : List Token}
    (hkinds : tokens.map Token.kind = kinds) {d : Draft} (hdue : d.due = .operand)
    (hgroup : d.group = .empty) (hdepth : d.opened.length + depth ≤ maxNesting) :
    ∃ g, d.run tokens = .ok ⟨d.opened, g, .joiner⟩ ∧ ∀ v, g.expr.evaluate v = m v := by
  match h with
  | .single hconjunction =>
    have hterms : d.group.terms = [] := by rw [hgroup]; rfl
    obtain ⟨g, hrun, hconjunctions, hall⟩ :=
      run_of_conjunction hconjunction hlegible hkinds hdue hterms hdepth
    refine ⟨g, hrun, fun v => ?_⟩
    rw [Group.evaluate_expr, hconjunctions, hgroup, hall]
    rfl
  | .or hdisjunction hw hconjunction =>
    obtain ⟨ts, _, rfl, hts, hkinds⟩ := List.map_eq_append_iff.1 hkinds
    obtain ⟨t, us, rfl, ht, hus⟩ := List.map_eq_cons_iff.1 hkinds
    obtain ⟨g, hrun, hexpr⟩ :=
      run_of_disjunction hdisjunction (hlegible.of_subset (by simp)) hts hdue hgroup hdepth
    have hstep := step_of_or hw ht d.opened g
    obtain ⟨g', hrun', hconjunctions, hall⟩ := run_of_conjunction hconjunction
      (hlegible.of_subset (by simp)) hus (d := ⟨d.opened, g.close, .operand⟩) rfl rfl hdepth
    refine ⟨g', ?_, fun v => ?_⟩
    · rw [run_append_of_ok hrun, run_cons_of_ok hstep, hrun']
    · rw [Group.evaluate_expr, hconjunctions, hall, Group.close, Group.any_allConjunctions,
        ← Group.evaluate_expr, hexpr]

end

end Draft

/-! ## Predicate texts -/

namespace Expr

theorem ofText_of_tokenize {text : String} {ts : List Token} (h : tokenize text = .ok ts) :
    ofText text = ofTokens ts text.utf8ByteSize := by
  rw [ofText, h]

/-- What is read from tokens is said by them. -/
theorem says_of_ofTokens {ts : List Token} {length : Nat} {e : Expr}
    (h : ofTokens ts length = .ok e) :
    Says (ts.map Token.kind) fun v => e.evaluate v := by
  unfold ofTokens at h
  split at h
  · next hnil =>
    cases h
    rw [hnil]
    exact .nothing
  · split at h
    · next d hrun =>
      have hreads : d.Reads (ts.map Token.kind) := Draft.reads_run Draft.reads_empty hrun
      obtain ⟨m, hdisjunction, he⟩ := Draft.disjunction_of_finish hreads h
      rw [funext he]
      exact .disjunction hdisjunction
    · contradiction

/-- What tokens say is read from them. -/
theorem ofTokens_of_says {ts : List Token} {m : Meaning} (h : Says (ts.map Token.kind) m)
    (hlegible : Draft.Legible (ts.map Token.kind)) (length : Nat) :
    ∃ e, ofTokens ts length = .ok e ∧ ∀ v, e.evaluate v = m v := by
  generalize hkinds : ts.map Token.kind = kinds at h hlegible
  cases h with
  | nothing =>
    obtain rfl := List.map_eq_nil_iff.1 hkinds
    exact ⟨.all, rfl, fun v => rfl⟩
  | disjunction h =>
    obtain ⟨g, hrun, hexpr⟩ :=
      Draft.run_of_disjunction h hlegible hkinds (d := .empty) rfl rfl (by decide)
    have hne : ts ≠ [] := fun hnil => by
      rw [hnil] at hrun
      exact nomatch (congrArg Draft.due (Except.ok.inj hrun) : Due.operand = .joiner)
    refine ⟨g.expr, ?_, hexpr⟩
    rw [ofTokens, if_neg hne, hrun]
    rfl

/-- A text that is cut into tokens is accepted if and only if they are none or the grammar derives
them with no more than `maxNesting` parentheses open at once, and whatever is read says of every
value what every derivation says. -/
theorem accepts_iff_says {text : String} {ts : List Token} (h : tokenize text = .ok ts) :
    ((∃ e, ofText text = .ok e) ↔ ∃ m, Says (ts.map Token.kind) m) ∧
      ∀ e, ofText text = .ok e → (Says (ts.map Token.kind) fun v => e.evaluate v) ∧
        ∀ m, Says (ts.map Token.kind) m → ∀ v, e.evaluate v = m v := by
  have hlegible : Draft.Legible (ts.map Token.kind) := fun n hn => ofToken?_of_tokenize h hn
  rw [ofText_of_tokenize h]
  refine ⟨⟨?_, ?_⟩, fun e he => ⟨says_of_ofTokens he, fun m hm v => ?_⟩⟩
  · rintro ⟨e, he⟩
    exact ⟨_, says_of_ofTokens he⟩
  · rintro ⟨m, hm⟩
    obtain ⟨e, he, -⟩ := ofTokens_of_says hm hlegible text.utf8ByteSize
    exact ⟨e, he⟩
  · obtain ⟨e', he', heval⟩ := ofTokens_of_says hm hlegible text.utf8ByteSize
    rw [he] at he'
    cases he'
    exact heval v

/-- Two comparisons and a joiner in lower case. -/
theorem accepts_iff_says_of_or :
    ∃ e, ofText "a=1 or b=x" = .ok e ∧ ∀ v, e.evaluate v =
      ((Expr.equal "a" (.number "1")).evaluate v || (Expr.equal "b" (.text "x")).evaluate v) := by
  have htokens : (tokenize "a=1 or b=x").toOption =
      some [⟨.word "a", 0⟩, ⟨.equals, 1⟩, ⟨.number "1", 2⟩, ⟨.word "or", 4⟩, ⟨.word "b", 7⟩,
        ⟨.equals, 8⟩, ⟨.word "x", 9⟩] := by decide +kernel
  have hfirst : Disjunction maxNesting [.word "a", .equals, .number "1"]
      fun v => (Expr.equal "a" (.number "1")).evaluate v :=
    .single (.single (.comparison (by decide) (.number "1")))
  have hsecond : Conjunction maxNesting [.word "b", .equals, .word "x"]
      fun v => (Expr.equal "b" (.text "x")).evaluate v :=
    .single (.comparison (by decide) (.word (by decide) fun b => by cases b <;> decide))
  have hsays := Says.disjunction (.or hfirst (w := "or") (by decide) hsecond)
  cases h : tokenize "a=1 or b=x" with
  | error e =>
    rw [h] at htokens
    contradiction
  | ok ts =>
    rw [h] at htokens
    obtain rfl := Option.some.inj htokens
    obtain ⟨⟨-, haccepts⟩, hmeaning⟩ := accepts_iff_says h
    obtain ⟨e, he⟩ := haccepts ⟨_, hsays⟩
    exact ⟨e, he, (hmeaning e he).2 _ hsays⟩

end Expr

end ClusterMap
