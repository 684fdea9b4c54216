import ClusterMap.Value.Path
import ClusterMap.Value.Tree

/-!
# Values

A value is a tree whose records list each name once, in ascending order. Main statements:
`field_append`, a path descends through its first part and then through the second; `ofTree_tree`.
-/

namespace ClusterMap

open Number

/-- What a map holds under a key. -/
structure Value where
  tree : Tree
  sorted : tree.Sorted

namespace Value

theorem eq_of_tree_eq {v w : Value} (h : v.tree = w.tree) : v = w := by
  cases v; cases w; cases h; rfl

instance : DecidableEq Value := fun v w =>
  if h : v.tree = w.tree then .isTrue (eq_of_tree_eq h) else .isFalse fun e => h (e ▸ rfl)

/-! ## Building values -/

/-- The value of a tree written in any order. -/
def ofTree (t : Tree) : Value := ⟨t.normal, t.sorted_normal⟩

theorem ofTree_tree (v : Value) : ofTree v.tree = v :=
  eq_of_tree_eq (Tree.normal_of_sorted v.sorted)

/-- A value without fields. -/
def scalar (s : Scalar) : Value := ⟨.scalar s, Tree.sorted_scalar s⟩

/-- The value that is there but says nothing. -/
def null : Value := scalar .null

/-- A truth value. -/
def bool (b : Bool) : Value := scalar (.bool b)

/-- An integer. -/
def int (n : Int64) : Value := scalar (.int n)

/-- A double. -/
def float (x : Binary64) : Value := scalar (.float x)

/-- A text. -/
def text (s : String) : Value := scalar (.text s)

/-- The record of a list of fields; of several with one name the last counts. -/
def record (fields : List (String × Value)) : Value :=
  ⟨.record (Table.ofList (fields.map fun p => (p.1, p.2.tree))).toList,
    Tree.sorted_record.2 ⟨Table.ascending _, fun p hp => by
      obtain ⟨q, -, rfl⟩ := List.mem_map.1 (Table.mem_of_mem_ofList hp)
      exact q.2.sorted⟩⟩

/-- A value that may be missing; a missing one is null. -/
def ofOption (v : Option Value) : Value := v.getD null

instance : Inhabited Value := ⟨null⟩

/-! ## Reading values -/

/-- Whether a value is null. -/
def isNull (v : Value) : Bool := v.tree matches .scalar .null

/-- The text of a text value. -/
def asText? (v : Value) : Option String :=
  match v.tree with
  | .scalar (.text s) => some s
  | _ => none

/-- The text that shows a value. -/
def render (v : Value) : String := v.tree.render

/-- The value reached through a list of field names. -/
def descend (v : Value) (names : List String) : Option Value :=
  match h : v.tree.descend names with
  | some t => some ⟨t, Tree.sorted_of_descend v.sorted h⟩
  | none => none

/-- The value that a dotted path leads to; none where a name is missing or a scalar stands in the
way. -/
def field (v : Value) (path : String) : Option Value := v.descend (Path.segments path)

theorem descend_eq_some_iff {v w : Value} {names : List String} :
    v.descend names = some w ↔ v.tree.descend names = some w.tree := by
  unfold descend
  split
  · next t h =>
    constructor
    · intro e; cases e; exact h
    · intro e; exact congrArg some (eq_of_tree_eq (Option.some.inj (h.symm.trans e)))
  · next h => simp [h]

theorem map_tree_descend (v : Value) (names : List String) :
    (v.descend names).map tree = v.tree.descend names := by
  unfold descend
  split <;> simp_all

theorem descend_append (v : Value) (p q : List String) :
    v.descend (p ++ q) = (v.descend p).bind fun w => w.descend q := by
  apply Option.ext
  intro u
  rw [descend_eq_some_iff, Tree.descend_append, ← map_tree_descend v p, Option.bind_map,
    Option.bind_eq_some_iff, Option.bind_eq_some_iff]
  simp only [Function.comp_apply, descend_eq_some_iff]

/-- A path descends through its first part and then through the second. -/
theorem field_append (v : Value) (p q : String) :
    v.field (p ++ "." ++ q) = (v.field p).bind fun w => w.field q := by
  simp only [field, Path.segments_append, descend_append]

end Value

end ClusterMap
