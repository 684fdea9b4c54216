import ClusterMap.Proofs.Query.Parsing

/-!
# Normal forms

What a reader makes of a text is in normal form: a node has at least two terms, none of its own
operator, and nothing that is always true stands below it. Every group of a draft holds expressions
in normal form only (`Draft.Normal`). Main statements: `Draft.normal_run`;
`Group.expr_addTerm_of_normal`, parentheses around an expression in normal form make no difference.
-/

namespace ClusterMap

open Text

/-! ## Expressions -/

/-- A node has at least two terms, in normal form and none of its own operator. -/
inductive Expr.Normal : Expr → Prop where
  | equal (field : String) (literal : Literal) : Normal (.equal field literal)
  | and {terms : List Expr} :
      2 ≤ terms.length → (∀ e ∈ terms, Normal e) → (∀ e ∈ terms, ∀ l, e ≠ .and l) →
      Normal (.and terms)
  | or {terms : List Expr} :
      2 ≤ terms.length → (∀ e ∈ terms, Normal e) → (∀ e ∈ terms, ∀ l, e ≠ .or l) →
      Normal (.or terms)

namespace Group

/-- A group that holds expressions in normal form, none of which could be taken apart. -/
structure Normal (g : Group) : Prop where
  conjunctions : ∀ e ∈ g.conjunctions, e.Normal
  conjunctions_ne : ∀ e ∈ g.conjunctions, ∀ l, e ≠ .or l
  terms : ∀ e ∈ g.terms, e.Normal
  terms_ne : ∀ e ∈ g.terms, ∀ l, e ≠ .and l

variable {g : Group} {e : Expr}

theorem normal_empty : empty.Normal where
  conjunctions := by simp [empty]
  conjunctions_ne := by simp [empty]
  terms := by simp [empty]
  terms_ne := by simp [empty]

theorem collapse_of_two_le {node : List Expr → Expr} {terms : List Expr} (h : 2 ≤ terms.length) :
    collapse node terms = node terms := by
  match terms with
  | e :: f :: rest => rfl

/-- A node that is made of at least one term is in normal form if it would be with two. -/
theorem normal_collapse {node : List Expr → Expr} {terms : List Expr} (hne : terms ≠ [])
    (hterms : ∀ e ∈ terms, e.Normal) (hnode : 2 ≤ terms.length → (node terms).Normal) :
    (collapse node terms).Normal := by
  match terms with
  | [e] => exact hterms e (List.mem_singleton_self e)
  | e :: f :: rest => exact hnode (by simp)

theorem addTerm_of_ne_and (h : ∀ l, e ≠ .and l) (g : Group) :
    g.addTerm e = ⟨g.conjunctions, e :: g.terms⟩ := by
  cases e with
  | and l => exact absurd rfl (h l)
  | _ => rfl

theorem Normal.addTerm (h : g.Normal) (he : e.Normal) : (g.addTerm e).Normal := by
  obtain ⟨hconjunctions, hconjunctions', hterms, hterms'⟩ := h
  cases he with
  | equal => constructor <;> simp_all [Group.addTerm, Expr.Normal.equal]
  | and hlength hnormal hne => constructor <;> simp_all [Group.addTerm, or_imp]
  | or hlength hnormal hne =>
    have hor := Expr.Normal.or hlength hnormal hne
    constructor <;> simp_all [Group.addTerm]

theorem terms_addTerm_ne_nil (g : Group) (he : e.Normal) : (g.addTerm e).terms ≠ [] := by
  cases he with
  | @and terms hlength => cases terms <;> simp_all [addTerm]
  | _ => simp [addTerm]

theorem Normal.conjunction (h : g.Normal) (hne : g.terms ≠ []) : g.conjunction.Normal := by
  refine normal_collapse (by simpa using hne) (by simpa using h.terms) fun hlength => ?_
  exact .and hlength (by simpa using h.terms) (by simpa using h.terms_ne)

/-- The conjunctions of a group behind an operand, the current one included. -/
theorem Normal.allConjunctions (h : g.Normal) (hne : g.terms ≠ []) :
    g.allConjunctions ≠ [] ∧ ∀ e ∈ g.allConjunctions, e.Normal ∧ ∀ l, e ≠ .or l := by
  have hcurrent := h.conjunction hne
  unfold Group.allConjunctions
  split
  · next terms heq =>
    rw [heq] at hcurrent
    cases hcurrent with
    | @or terms hlength hnormal hne' =>
      have hcons : terms ≠ [] := List.ne_nil_of_length_pos (by omega)
      refine ⟨by simp [hcons], fun e he => ?_⟩
      obtain he | he := List.mem_append.1 he
      · exact ⟨hnormal e (List.mem_reverse.1 he), hne' e (List.mem_reverse.1 he)⟩
      · exact ⟨h.conjunctions e he, h.conjunctions_ne e he⟩
  · next hor =>
    have hothers : ∀ e ∈ g.conjunctions, e.Normal ∧ ∀ l, e ≠ .or l := fun e he =>
      ⟨h.conjunctions e he, h.conjunctions_ne e he⟩
    exact ⟨List.cons_ne_nil _ _, List.forall_mem_cons.2 ⟨⟨hcurrent, hor⟩, hothers⟩⟩

theorem Normal.close (h : g.Normal) (hne : g.terms ≠ []) : g.close.Normal where
  conjunctions e he := ((h.allConjunctions hne).2 e he).1
  conjunctions_ne e he := ((h.allConjunctions hne).2 e he).2
  terms e he := by contradiction
  terms_ne e he := by contradiction

theorem Normal.expr (h : g.Normal) (hne : g.terms ≠ []) : g.expr.Normal := by
  obtain ⟨hcons, hall⟩ := h.allConjunctions hne
  have hnormal : ∀ e ∈ g.allConjunctions.reverse, e.Normal :=
    fun e he => (hall e (List.mem_reverse.1 he)).1
  refine normal_collapse (by simpa using hcons) hnormal fun hlength =>
    .or hlength hnormal fun e he => ?_
  exact (hall e (List.mem_reverse.1 he)).2

/-- A conjunction of one operand that is no disjunction is that operand. -/
theorem allConjunctions_addTerm (he : e.Normal) (hor : ∀ l, e ≠ .or l) (conjunctions : List Expr) :
    (addTerm ⟨conjunctions, []⟩ e).allConjunctions = e :: conjunctions := by
  cases he with
  | equal => rfl
  | @and terms hlength =>
    have hconjunction : (Group.addTerm ⟨conjunctions, []⟩ (.and terms)).conjunction =
        .and terms := by
      simp only [Group.addTerm, Group.conjunction, List.append_nil, List.reverse_reverse]
      exact collapse_of_two_le hlength
    simp only [Group.allConjunctions, hconjunction]
    rfl
  | or => exact absurd rfl (hor _)

/-- A group of one operand is that operand. -/
theorem expr_addTerm_of_normal (he : e.Normal) : (addTerm .empty e).expr = e := by
  by_cases hor : ∃ l, e = .or l
  · obtain ⟨l, rfl⟩ := hor
    cases he with
    | or hlength =>
      have hall : (Group.addTerm .empty (.or l)).allConjunctions = l.reverse := List.append_nil _
      rw [Group.expr, hall, List.reverse_reverse, collapse_of_two_le hlength]
  · have hall : (Group.addTerm .empty e).allConjunctions = [e] :=
      allConjunctions_addTerm he (fun l hl => hor ⟨l, hl⟩) []
    rw [Group.expr, hall]
    rfl

end Group

/-! ## Drafts -/

namespace Draft

/-- A draft all of whose groups are in normal form, the innermost one with a term behind an
operand. -/
structure Normal (d : Draft) : Prop where
  opened : ∀ entry ∈ d.opened, entry.2.Normal
  group : d.group.Normal
  terms_ne_nil : d.due = .joiner → d.group.terms ≠ []

variable {d d' : Draft} {t : Token}

theorem normal_empty : empty.Normal where
  opened := by simp [empty]
  group := Group.normal_empty
  terms_ne_nil h := by contradiction

theorem Normal.addOperand {opened : List (Nat × Group)} {g : Group} {due : Due} {e : Expr}
    (hopened : ∀ entry ∈ opened, entry.2.Normal) (hg : g.Normal) (he : e.Normal) :
    (Draft.addOperand ⟨opened, g, due⟩ e).Normal where
  opened := hopened
  group := hg.addTerm he
  terms_ne_nil _ := g.terms_addTerm_ne_nil he

theorem normal_step (h : d.Normal) (hstep : d.step t = .ok d') : d'.Normal := by
  have hterms := h.terms_ne_nil
  cases step_eq_ok_iff.1 hstep with
  | leftParen =>
    exact ⟨List.forall_mem_cons.2 ⟨h.group, h.opened⟩, Group.normal_empty,
      fun hdue => by contradiction⟩
  | field | equals | and => exact ⟨h.opened, h.group, fun hdue => by contradiction⟩
  | literal => exact .addOperand h.opened h.group (.equal _ _)
  | or hdue => exact ⟨h.opened, h.group.close (hterms hdue), fun hdue => by contradiction⟩
  | rightParen hdue _ hopened =>
    have houter := h.opened
    rw [hopened, List.forall_mem_cons] at houter
    exact .addOperand houter.2 houter.1 (h.group.expr (hterms hdue))

theorem normal_run {ts : List Token} (h : d.Normal) (hrun : d.run ts = .ok d') : d'.Normal := by
  induction ts generalizing d with
  | nil => cases hrun; exact h
  | cons t ts ih =>
    obtain ⟨d₁, hstep, hrun⟩ := exists_step_of_run hrun
    exact ih (normal_step h hstep) hrun

end Draft

namespace Expr

variable {ts : List Token} {length : Nat} {e : Expr}

/-- Where tokens are read as an expression, it is that of the group behind all of them. -/
theorem exists_run_of_ofTokens (hne : ts ≠ []) (h : ofTokens ts length = .ok e) :
    ∃ g, Draft.empty.run ts = .ok ⟨[], g, .joiner⟩ ∧ g.expr = e := by
  rw [ofTokens, if_neg hne] at h
  split at h
  · next d hrun =>
    obtain ⟨opened, g, due⟩ := d
    unfold Draft.finish at h
    split at h
    · next hdue hopened =>
      cases h
      cases hdue
      cases hopened
      exact ⟨g, hrun, rfl⟩
    · contradiction
    · contradiction
  · contradiction

/-- What is read from tokens is in normal form. -/
theorem normal_of_ofTokens (hne : ts ≠ []) (h : ofTokens ts length = .ok e) : e.Normal := by
  obtain ⟨g, hrun, rfl⟩ := exists_run_of_ofTokens hne h
  have hnormal := Draft.normal_run Draft.normal_empty hrun
  exact hnormal.group.expr (hnormal.terms_ne_nil rfl)

end Expr

end ClusterMap
