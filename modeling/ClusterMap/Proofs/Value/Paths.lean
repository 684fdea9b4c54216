import ClusterMap.Query.Expr

/-!
# Paths through records

Where a dotted path leads, told by the records alone: names that hold no dot, joined by dots, are
followed one record after the other (`segments_intercalate`, `descend_eq_some_iff_reaches`). So
paths joined by a dot are followed one behind the other, and a comparison with a path is one with
the value that it leads to. Main statement: `paths_compose`.
-/

namespace ClusterMap

/-- Names that hold no dot are what their join by dots lists. -/
theorem Path.segments_intercalate {names : List String} (hne : names ≠ [])
    (hnames : ∀ name ∈ names, '.' ∉ name.toList) : segments (".".intercalate names) = names := by
  induction names with
  | nil => contradiction
  | cons name names ih =>
    obtain ⟨hname, hrest⟩ := List.forall_mem_cons.1 hnames
    cases names with
    | nil => rw [String.intercalate_singleton, segments_of_not_mem hname]
    | cons other names =>
      rw [String.intercalate_cons_cons, segments_append, segments_of_not_mem hname,
        ih (List.cons_ne_nil other names) hrest, List.singleton_append]

namespace Value

variable {v w : Value} {names : List String}

/-! ## Fields of records -/

/-- Whether a value is a record that has another one under a name. -/
def HasField (v : Value) (name : String) (u : Value) : Prop :=
  ∃ fields, v.tree = .record fields ∧ (name, u.tree) ∈ fields

/-- Where the fields of the records lead that are entered by the names of a list, one after the
other. -/
inductive Reaches : Value → List String → Value → Prop
  | stay (v : Value) : Reaches v [] v
  | enter {v u w : Value} {name : String} {names : List String} (hfield : v.HasField name u)
      (hreaches : Reaches u names w) : Reaches v (name :: names) w

/-- A record has one field of a name, so descending takes the only way there is. -/
theorem descend_eq_some_iff_reaches : v.descend names = some w ↔ v.Reaches names w := by
  rw [descend_eq_some_iff]
  induction names generalizing v with
  | nil =>
    constructor
    · intro h
      rw [eq_of_tree_eq (Option.some.inj h)]
      exact .stay w
    · rintro ⟨⟩
      rfl
  | cons name names ih =>
    constructor
    · intro h
      cases htree : v.tree with
      | scalar s =>
        rw [htree] at h
        contradiction
      | record fields =>
        obtain ⟨hascending, hsorted⟩ := Tree.sorted_record.1 (htree ▸ v.sorted)
        rw [htree, Tree.descend] at h
        cases hlookup : fields.lookup name with
        | none =>
          rw [hlookup] at h
          contradiction
        | some t =>
          rw [hlookup] at h
          have hmem : (name, t) ∈ fields := (Entries.lookup_eq_some_iff hascending).1 hlookup
          have hrest : Reaches ⟨t, hsorted _ hmem⟩ names w := ih.1 h
          exact .enter ⟨fields, htree, hmem⟩ hrest
    · rintro (_ | ⟨⟨fields, htree, hmem⟩, hreaches⟩)
      have hascending := (Tree.sorted_record.1 (htree ▸ v.sorted)).1
      rw [htree, Tree.descend, (Entries.lookup_eq_some_iff hascending).2 hmem]
      exact ih.2 hreaches

theorem field_intercalate (hne : names ≠ []) (hnames : ∀ name ∈ names, '.' ∉ name.toList) :
    v.field (".".intercalate names) = some w ↔ v.Reaches names w := by
  rw [field, Path.segments_intercalate hne hnames, descend_eq_some_iff_reaches]

end Value

/-! ## Comparisons -/

namespace Expr

variable {v w : Value} {names : List String}

theorem evaluate_equal_iff {field : String} {literal : Literal} :
    (equal field literal).evaluate v = true ↔ ∃ w, target v field = some w ∧
    literal.agrees w = true := by
  rw [evaluate]
  cases target v field with
  | none => simp
  | some a => simp

/-- The name `this` alone stands for the value; it is a name like others where it is joined to
one. -/
theorem target_intercalate (hne : names ≠ []) (hnames : ∀ name ∈ names, '.' ∉ name.toList) :
    target v (".".intercalate names) = some w ↔ if names = ["this"] then w = v
      else v.Reaches names w := by
  have hthis : ".".intercalate names = "this" ↔ names = ["this"] := by
    constructor
    · intro h
      rw [← Path.segments_intercalate hne hnames, h]
      exact Path.segments_of_not_mem (by decide)
    · rintro rfl
      exact String.intercalate_singleton
  unfold target
  by_cases h : names = ["this"]
  · rw [if_pos (hthis.2 h), if_pos h, Option.some.injEq, eq_comm]
  · rw [if_neg fun heq => h (hthis.1 heq), if_neg h, Value.field_intercalate hne hnames]

end Expr

/-! ## Paths -/

namespace Value

/-- Paths compose. A path of two that a dot joins, whatever they are, leads where the second one
leads from where the first one does, and nowhere if one of them does not. Names that hold no dot,
joined by dots, lead through the fields of these names, one record after the other; and a comparison
with such a path is true just if the literal equals the value that is reached, which is the value
itself under the path `this`. -/
theorem paths_compose (v : Value) :
    (∀ p q : String, v.field (p ++ "." ++ q) = (v.field p).bind fun w => w.field q) ∧
    ∀ names : List String, names ≠ [] → (∀ name ∈ names, '.' ∉ name.toList) →
      (∀ w, v.field (".".intercalate names) = some w ↔ v.Reaches names w) ∧
      ∀ literal : Literal, (Expr.equal (".".intercalate names) literal).evaluate v = true ↔
        ∃ w, (if names = ["this"] then w = v else v.Reaches names w) ∧ literal.agrees w = true := by
  refine ⟨v.field_append, fun names hne hnames =>
    ⟨fun w => field_intercalate hne hnames, fun literal => ?_⟩⟩
  rw [Expr.evaluate_equal_iff]
  exact exists_congr fun w => and_congr_left' (Expr.target_intercalate hne hnames)

/-- A path through a name without characters to a field named `this`, which is not the value
itself. -/
theorem paths_compose_of_three :
    let v := record [("a", record [("", record [("this", int 7)])])]
    (∀ name ∈ ["a", "", "this"], '.' ∉ name.toList) ∧
    ".".intercalate ["a", "", "this"] = "a..this" ∧
      v.Reaches ["a", "", "this"] (int 7) ∧
      (Expr.equal "a..this" (.number "07")).evaluate v = true ∧
      (Expr.equal "this" (.number "07")).evaluate v = false := by
  intro v
  have hnames : ∀ name ∈ ["a", "", "this"], '.' ∉ name.toList := by decide
  have hjoined : ".".intercalate ["a", "", "this"] = "a..this" := by decide
  obtain ⟨hreaches, hholds⟩ := (paths_compose v).2 ["a", "", "this"] (by decide) hnames
  rw [hjoined] at hreaches hholds
  have hreached : v.Reaches ["a", "", "this"] (int 7) := (hreaches (int 7)).1 (by decide)
  refine ⟨hnames, hjoined, hreached, (hholds (.number "07")).2 ⟨int 7, ?_, by decide⟩, by decide⟩
  rw [if_neg (by decide)]
  exact hreached

end Value

end ClusterMap
