import ClusterMap.Number.Shortest
import ClusterMap.Table
import ClusterMap.Text.Utf8

/-!
# Trees of fields

What a map stores: scalars, and records that nest them under field names. A tree keeps the fields of
a record as they were written, in any order and with names repeated; `Tree.normal` sorts them and
lets the last of several with one name count, at every depth. Main statements: `fold_record` (every
recursive function on trees is a fold), `sorted_normal`, `normal_of_sorted`.
-/

namespace ClusterMap

open Number

/-- A value without fields. -/
inductive Scalar where
  | null
  | bool (b : Bool)
  | int (n : Int64)
  | float (x : Binary64)
  | text (s : String)
  deriving DecidableEq, Repr

/-- The text of a truth value. -/
def boolText (b : Bool) : String := if b then "true" else "false"

/-- The text of a scalar; a null has none. -/
def Scalar.render : Scalar → String
  | .null => ""
  | .bool b => boolText b
  | .int n => toString n.toInt
  | .float x => x.text
  | .text s => s

/-- A scalar, or a record of named trees. -/
inductive Tree where
  | scalar (s : Scalar)
  | record (fields : List (String × Tree))

namespace Tree

/-! ## Folds -/

section Fold

variable {α : Type} (leaf : Scalar → α) (node : List (String × α) → α)

mutual

/-- Evaluates a tree bottom up. -/
def fold : Tree → α
  | .scalar s => leaf s
  | .record fields => node (foldFields fields)
termination_by structural t => t

/-- Evaluates the tree of every field. -/
def foldFields : List (String × Tree) → List (String × α)
  | [] => []
  | field :: rest => foldField field :: foldFields rest
termination_by structural l => l

/-- Evaluates the tree of a field. -/
def foldField : String × Tree → String × α
  | (name, t) => (name, fold t)
termination_by structural p => p

end

@[simp] theorem fold_scalar (s : Scalar) : fold leaf node (.scalar s) = leaf s := rfl

@[simp] theorem fold_record (fields : List (String × Tree)) :
    fold leaf node (.record fields) = node (fields.map fun p => (p.1, fold leaf node p.2)) := by
  have h : ∀ l, foldFields leaf node l = l.map fun p => (p.1, fold leaf node p.2) := fun l => by
    induction l with
    | nil => rfl
    | cons p rest ih => obtain ⟨name, t⟩ := p; rw [foldFields, ih, foldField, List.map_cons]
  rw [fold, h]

end Fold

/-- Induction on a tree: what holds of every scalar, and of a record if of all its fields, holds of
every tree. -/
theorem induction {P : Tree → Prop} (scalar : ∀ s, P (.scalar s))
    (record : ∀ fields, (∀ p ∈ fields, P p.2) → P (.record fields)) : ∀ t, P t
  | .scalar s => scalar s
  | .record fields => record fields fun p hp =>
    have : sizeOf p.2 < 1 + sizeOf fields := by
      have := List.sizeOf_lt_of_mem hp
      cases p; simp_all; omega
    induction scalar record p.2
termination_by t => sizeOf t

/-! ## Text -/

/-- The text of a tree: a record lists its fields between braces, name and text joined by an equals
sign. -/
def render : Tree → String :=
  fold Scalar.render fun fields =>
    "\x7b" ++ ", ".intercalate (fields.map fun p => p.1 ++ "=" ++ p.2) ++ "\x7d"

/-! ## Sorted trees -/

/-- Whether every record of a tree lists each name once, in ascending order. -/
def Sorted : Tree → Prop :=
  fold (fun _ => True) fun fields => Entries.Ascending fields ∧ ∀ p ∈ fields, p.2

@[simp] theorem sorted_scalar (s : Scalar) : Sorted (.scalar s) := trivial

theorem sorted_record {fields : List (String × Tree)} :
    Sorted (.record fields) ↔ Entries.Ascending fields ∧ ∀ p ∈ fields, Sorted p.2 := by
  rw [Sorted, fold_record]
  refine and_congr ?_ ?_
  · exact List.pairwise_map
  · simp only [List.mem_map, forall_exists_index, and_imp, forall_apply_eq_imp_iff₂]

/-- The tree with the fields of every record in ascending order of their names, of several fields
with one name the last. -/
def normal : Tree → Tree :=
  fold .scalar fun fields => .record (Table.ofList fields).toList

theorem normal_record (fields : List (String × Tree)) :
    normal (.record fields) =
      .record (Table.ofList (fields.map fun p => (p.1, normal p.2))).toList := by
  rw [normal, fold_record]

theorem sorted_normal (t : Tree) : Sorted (normal t) := by
  induction t using induction with
  | scalar s => exact sorted_scalar s
  | record fields ih =>
    rw [normal_record, sorted_record]
    refine ⟨Table.ascending _, fun p hp => ?_⟩
    obtain ⟨q, hq, rfl⟩ := List.mem_map.1 (Table.mem_of_mem_ofList hp)
    exact ih q hq

/-- A sorted tree stays as it is. -/
theorem normal_of_sorted {t : Tree} (h : Sorted t) : normal t = t := by
  induction t using induction with
  | scalar s => rfl
  | record fields ih =>
    obtain ⟨hasc, hall⟩ := sorted_record.1 h
    have hmap : (fields.map fun p => (p.1, normal p.2)) = fields := by
      conv => rhs; rw [← List.map_id fields]
      exact List.map_congr_left fun p hp => by rw [ih p hp (hall p hp)]; rfl
    rw [normal_record, hmap, Table.toList_ofList hasc]

/-! ## Fields -/

/-- The tree reached through the fields of a path, one name at a time. -/
def descend : Tree → List String → Option Tree
  | t, [] => some t
  | .scalar _, _ :: _ => none
  | .record fields, name :: path =>
    match fields.lookup name with
    | some t => t.descend path
    | none => none

theorem descend_append (t : Tree) (p q : List String) :
    t.descend (p ++ q) = (t.descend p).bind fun u => u.descend q := by
  induction p generalizing t with
  | nil => rfl
  | cons name p ih =>
    cases t with
    | scalar s => rfl
    | record fields =>
      simp only [List.cons_append, descend]
      cases fields.lookup name with
      | none => rfl
      | some u => exact ih u

theorem sorted_of_descend {t u : Tree} {path : List String} (h : Sorted t)
    (hu : t.descend path = some u) : Sorted u := by
  induction path generalizing t with
  | nil => cases hu; exact h
  | cons name path ih =>
    cases t with
    | scalar s => contradiction
    | record fields =>
      obtain ⟨hasc, hall⟩ := sorted_record.1 h
      simp only [descend] at hu
      split at hu
      · next v hv => exact ih (hall _ ((Entries.lookup_eq_some_iff hasc).1 hv)) hu
      · contradiction

/-! ## Equality -/

mutual

/-- Decides equality of trees. -/
def decEq : (t u : Tree) → Decidable (t = u)
  | .scalar s, .scalar s' => decidable_of_iff (s = s') (by simp)
  | .scalar _, .record _ => .isFalse (by simp)
  | .record _, .scalar _ => .isFalse (by simp)
  | .record l, .record m =>
    match decEqFields l m with
    | .isTrue h => .isTrue (h ▸ rfl)
    | .isFalse h => .isFalse fun e => h (by injection e)
termination_by structural t => t

/-- Decides equality of fields. -/
def decEqFields : (l m : List (String × Tree)) → Decidable (l = m)
  | [], [] => .isTrue rfl
  | [], _ :: _ => .isFalse (by simp)
  | _ :: _, [] => .isFalse (by simp)
  | p :: l, q :: m =>
    match decEqField p q, decEqFields l m with
    | .isTrue h, .isTrue h' => .isTrue (by rw [h, h'])
    | .isFalse h, _ => .isFalse fun e => h (List.cons.inj e).1
    | _, .isFalse h => .isFalse fun e => h (List.cons.inj e).2
termination_by structural l => l

/-- Decides equality of a field. -/
def decEqField : (p q : String × Tree) → Decidable (p = q)
  | (name, t), (name', u) =>
    match decEq t u with
    | .isTrue h => decidable_of_iff (name = name') (by simp [h])
    | .isFalse h => .isFalse fun e => h (Prod.mk.inj e).2
termination_by structural p => p

end

instance : DecidableEq Tree := decEq

end Tree

end ClusterMap
