import Mathlib.Data.List.Forall2
import ClusterMap.Proofs.Query.Normal
import ClusterMap.Query.Predicate

/-!
# The comparisons of a predicate

Reading a predicate loses no comparison, makes up none and changes no order. In the tokens a
comparison is an equals sign with the token in front of it and the one behind it
(`writtenComparisons`), whatever is read around it. Groups keep their terms last first and take
those of an operand apart, but the comparisons of a draft only grow at the end. Main statements:
`Group.comparisons_expr`, `Draft.comparisons_run`; `Expr.comparisons_of_ofTokens`.
-/

namespace ClusterMap

open Grammar Text

/-! ## Comparisons of expressions -/

namespace Expr

mutual

/-- The comparisons of an expression, from the left. -/
def comparisons : Expr → List (String × Literal)
  | all => []
  | equal field literal => [(field, literal)]
  | and terms => termComparisons terms
  | or terms => termComparisons terms
termination_by structural e => e

/-- The comparisons of a list of terms. -/
def termComparisons : List Expr → List (String × Literal)
  | [] => []
  | e :: rest => comparisons e ++ termComparisons rest
termination_by structural l => l

end

/-- The comparisons of terms are those of each term, in order. -/
theorem termComparisons_eq_flatMap (terms : List Expr) :
    termComparisons terms = terms.flatMap comparisons := by
  induction terms with
  | nil => rfl
  | cons e rest ih => rw [termComparisons, ih, List.flatMap_cons]

@[simp] theorem comparisons_equal (field : String) (literal : Literal) :
    comparisons (equal field literal) = [(field, literal)] := rfl

/-- The comparisons of a conjunction are those of its terms, in order. -/
@[simp] theorem comparisons_and (terms : List Expr) :
    comparisons (and terms) = terms.flatMap comparisons := by
  rw [comparisons, termComparisons_eq_flatMap]

/-- The comparisons of a disjunction are those of its terms, in order. -/
@[simp] theorem comparisons_or (terms : List Expr) :
    comparisons (or terms) = terms.flatMap comparisons := by
  rw [comparisons, termComparisons_eq_flatMap]

end Expr

/-! ## Comparisons of groups -/

namespace Group

/-- The comparisons that a group holds, from the left. -/
def comparisons (g : Group) : List (String × Literal) :=
  (g.conjunctions.reverse ++ g.terms.reverse).flatMap Expr.comparisons

/-- A node of one term has the comparisons of the term. -/
theorem comparisons_collapse {node : List Expr → Expr}
    (hnode : ∀ terms, (node terms).comparisons = terms.flatMap Expr.comparisons)
    (terms : List Expr) :
    (collapse node terms).comparisons = terms.flatMap Expr.comparisons := by
  match terms with
  | [] => exact hnode []
  | [e] => simp [collapse]
  | e :: f :: rest => exact hnode _

/-- A term adds its comparisons to a group. -/
theorem comparisons_addTerm (g : Group) (e : Expr) :
    (g.addTerm e).comparisons = g.comparisons ++ e.comparisons := by
  unfold addTerm
  split <;> simp [comparisons]

/-- The conjunctions of a group have its comparisons, in order. -/
theorem comparisons_allConjunctions (g : Group) :
    g.allConjunctions.reverse.flatMap Expr.comparisons = g.comparisons := by
  have hcurrent : g.conjunction.comparisons = g.terms.reverse.flatMap Expr.comparisons :=
    comparisons_collapse Expr.comparisons_and _
  unfold allConjunctions
  split
  · next terms heq =>
    rw [heq, Expr.comparisons_or] at hcurrent
    simp [comparisons, hcurrent]
  · simp [comparisons, hcurrent]

/-- Closing a conjunction keeps the comparisons of a group. -/
theorem comparisons_close (g : Group) : g.close.comparisons = g.comparisons := by
  rw [← comparisons_allConjunctions g]
  simp [close, comparisons]

/-- What becomes of a group has its comparisons. -/
theorem comparisons_expr (g : Group) : g.expr.comparisons = g.comparisons := by
  rw [expr, comparisons_collapse Expr.comparisons_or, comparisons_allConjunctions]

end Group

/-! ## Comparisons of tokens -/

/-- The comparisons that tokens write, from the left: the token in front of every equals sign and
the one behind it. -/
def writtenComparisons : List Token → List (Token × Token)
  | field :: sign :: literal :: rest =>
    if sign.kind = .equals then (field, literal) :: writtenComparisons rest
    else writtenComparisons (sign :: literal :: rest)
  | _ => []

/-- A token before anything but an equals sign is in no comparison. -/
theorem writtenComparisons_cons {t : Token} {ts : List Token}
    (h : ∀ u ∈ ts.head?, u.kind ≠ .equals) :
    writtenComparisons (t :: ts) = writtenComparisons ts := by
  match ts with
  | [] => rfl
  | [_] => rfl
  | sign :: literal :: rest => rw [writtenComparisons, if_neg (h sign rfl)]

/-- Both sides of a written comparison are tokens of the text. -/
theorem mem_of_mem_writtenComparisons {ts : List Token} {p : Token × Token}
    (h : p ∈ writtenComparisons ts) :
    p.1 ∈ ts ∧ p.2 ∈ ts := by
  fun_induction writtenComparisons ts with
  | case1 field sign literal rest hsign ih =>
    obtain rfl | h := List.mem_cons.1 h
    · simp
    · simp [ih h]
  | case2 field sign literal rest hsign ih =>
    exact ⟨List.mem_cons_of_mem _ (ih h).1, List.mem_cons_of_mem _ (ih h).2⟩
  | case3 => contradiction

/-- Two tokens write a comparison: a word that names a field, and a token that stands for a
literal. -/
structure Compares (written : Token × Token) (comparison : String × Literal) : Prop where
  field : written.1.kind = .word comparison.1
  free : isReserved comparison.1 = false
  literal : Denotes written.2.kind comparison.2

/-- Every comparison was written. -/
theorem exists_compares_of_mem {written : List (Token × Token)}
    {comparisons : List (String × Literal)} (h : List.Forall₂ Compares written comparisons)
    {c : String × Literal} (hc : c ∈ comparisons) :
    ∃ p ∈ written, Compares p c := by
  induction h with
  | nil => contradiction
  | @cons p c' written comparisons hpc _ ih =>
    obtain rfl | hc := List.mem_cons.1 hc
    · exact ⟨p, List.mem_cons_self, hpc⟩
    · obtain ⟨q, hq, hqc⟩ := ih hc
      exact ⟨q, List.mem_cons_of_mem p hq, hqc⟩

/-! ## Comparisons of drafts -/

namespace Draft

/-- The comparisons that a draft holds, from the left. -/
def comparisons (d : Draft) : List (String × Literal) :=
  (d.opened.reverse.flatMap fun entry => entry.2.comparisons) ++ d.group.comparisons

/-- The tokens of a comparison that has been begun. -/
inductive Begun : Due → List Token → Prop where
  | operand : Begun .operand []
  | equals {t : Token} {field : String} :
      t.kind = .word field → isReserved field = false → Begun (.equals field) [t]
  | literal {t sign : Token} {field : String} : t.kind = .word field → isReserved field = false →
      sign.kind = .equals → Begun (.literal field) [t, sign]
  | joiner : Begun .joiner []

variable {d d' : Draft} {ts begun : List Token}

/-- Where an operand or a joiner is due no comparison has been begun. -/
theorem begun_iff {due : Due} (hdue : due = .operand ∨ due = .joiner) :
    Begun due begun ↔ begun = [] := by
  constructor
  · intro h
    cases h <;> simp_all
  · rintro rfl
    obtain rfl | rfl := hdue
    · exact .operand
    · exact .joiner

/-- An equals sign follows nothing but a word that names a field. -/
theorem ne_equals_of_run (hdue : d.due = .operand ∨ d.due = .joiner) (hrun : d.run ts = .ok d') :
    ∀ t ∈ ts.head?, t.kind ≠ .equals := by
  intro t ht hkind
  obtain ⟨rest, rfl⟩ := List.head?_eq_some_iff.1 ht
  obtain ⟨d₁, hstep, -⟩ := exists_step_of_run hrun
  cases step_eq_ok_iff.1 hstep <;> simp_all

/-- Behind an operand the comparisons have grown by those that the tokens write. -/
theorem comparisons_run (hbegun : Begun d.due begun) (hrun : d.run ts = .ok d')
    (hdue : d'.due = .joiner) :
    ∃ new, d'.comparisons = d.comparisons ++ new ∧
      List.Forall₂ Compares (writtenComparisons (begun ++ ts)) new := by
  induction ts generalizing d begun with
  | nil =>
    cases hrun
    obtain rfl := (begun_iff (.inr hdue)).1 hbegun
    exact ⟨[], by simp, .nil⟩
  | cons t ts ih =>
    obtain ⟨d₁, hstep, hrun⟩ := exists_step_of_run hrun
    -- what a token between two comparisons leaves as it is
    have hbetween : (d.due = .operand ∨ d.due = .joiner) → (d₁.due = .operand ∨ d₁.due = .joiner) →
        d₁.comparisons = d.comparisons → ∃ new, d'.comparisons = d.comparisons ++ new ∧
          List.Forall₂ Compares (writtenComparisons (begun ++ t :: ts)) new := by
      intro hd hd₁ hsame
      obtain rfl := (begun_iff hd).1 hbegun
      obtain ⟨new, hnew, hwritten⟩ := ih ((begun_iff hd₁).2 rfl) hrun
      refine ⟨new, by rw [hnew, hsame], ?_⟩
      rwa [List.nil_append, writtenComparisons_cons (ne_equals_of_run hd₁ hrun)]
    cases step_eq_ok_iff.1 hstep with
    | leftParen hd =>
      exact hbetween (.inl hd) (.inl rfl) (by simp [comparisons, Group.comparisons, Group.empty])
    | field hd hkind hfree =>
      obtain rfl := (begun_iff (.inl hd)).1 hbegun
      exact ih (.equals hkind hfree) hrun
    | equals hd hkind =>
      rw [hd] at hbegun
      cases hbegun with
      | equals hfield hfree => exact ih (.literal hfield hfree hkind) hrun
    | @literal field literal hd hliteral =>
      rw [hd] at hbegun
      cases hbegun with
      | literal hfield hfree hsign =>
        obtain ⟨new, hnew, hwritten⟩ := ih .joiner hrun
        refine ⟨(field, literal) :: new, ?_, ?_⟩
        · rw [hnew]
          simp [comparisons, addOperand, Group.comparisons_addTerm]
        · simp only [List.cons_append, List.nil_append, writtenComparisons, hsign, if_true]
          exact .cons ⟨hfield, hfree, denotes_of_ofToken? hliteral⟩ hwritten
    | and hd => exact hbetween (.inr hd) (.inl rfl) rfl
    | or hd => exact hbetween (.inr hd) (.inl rfl) (by simp [comparisons, Group.comparisons_close])
    | rightParen hd _ hopened =>
      refine hbetween (.inr hd) (.inr rfl) ?_
      simp [comparisons, addOperand, hopened, Group.comparisons_addTerm, Group.comparisons_expr]

end Draft

namespace Expr

/-- The comparisons of what is read are those that the tokens write, in the same order. -/
theorem comparisons_of_ofTokens {ts : List Token} {length : Nat} {e : Expr}
    (h : ofTokens ts length = .ok e) :
    List.Forall₂ Compares (writtenComparisons ts) e.comparisons := by
  by_cases hne : ts = []
  · rw [ofTokens, if_pos hne] at h
    cases h
    rw [hne]
    exact .nil
  · obtain ⟨g, hrun, rfl⟩ := exists_run_of_ofTokens hne h
    obtain ⟨new, hnew, hwritten⟩ := Draft.comparisons_run .operand hrun rfl
    have hgroup : g.comparisons = new := by
      simpa [Draft.comparisons, Draft.empty, Group.comparisons, Group.empty] using hnew
    rwa [Group.comparisons_expr, hgroup]

end Expr

/-- What a text is compiled into is what its tokens are read as. -/
theorem Criteria.exists_ofTokens_of_compile {text : String} {P : Predicate}
    (h : (Criteria.expression text).compile = .ok P) :
    ∃ ts e, tokenize text = .ok ts ∧ Expr.ofTokens ts text.utf8ByteSize = .ok e ∧
      P = ⟨e.render, e⟩ := by
  rw [compile, Predicate.ofText] at h
  split at h
  · next e he =>
    cases h
    unfold Expr.ofText at he
    split at he
    · next ts hts => exact ⟨ts, e, hts, he, rfl⟩
    · contradiction
  · contradiction

end ClusterMap
