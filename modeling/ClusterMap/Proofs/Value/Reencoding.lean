import Mathlib.Algebra.Order.BigOperators.Group.List
import Mathlib.Algebra.Order.Group.Nat
import ClusterMap.Proofs.Text.Order
import ClusterMap.Proofs.Value.Acceptance
import ClusterMap.Proofs.Value.Truncation

/-!
# Writing again what was read

Bytes that are read as a value may list the fields of a record in any order and a name more than
once. The value keeps the last field of every name, so writing it again takes no more bytes: a table
has no more entries than the list that it is made of, at every depth. The bytes are the same ones
just if there was nothing to sort and nothing to drop. The order of names is the order of their
bytes (`Text.utf8_lt_iff`). Main statements: `treeSize_normal_le`, `sorted_iff_parts`,
`encode_of_decode`.
-/

namespace ClusterMap

open Text

/-! ## Weights of tables -/

section Weight

variable {α : Type} (weight : String × α → Nat)

theorem Entries.sum_insert_le (name : String) (a : α) (l : List (String × α)) :
    ((Entries.insert name a l).map weight).sum ≤ weight (name, a) + (l.map weight).sum := by
  induction l with
  | nil => simp [Entries.insert]
  | cons p rest ih =>
    obtain ⟨other, b⟩ := p
    unfold Entries.insert
    split
    · simp
    · split
      · simp
      · simp only [List.map_cons, List.sum_cons]
        omega

/-- The entries of a table weigh no more than the list that it is made of. -/
theorem Table.sum_ofList_le (l : List (String × α)) :
    ((Table.ofList l).toList.map weight).sum ≤ (l.map weight).sum := by
  -- for any table to begin with, as the fold goes from one to the next
  have general : ∀ (l : List (String × α)) (t : Table α),
      ((l.foldl (fun t p => t.insert p.1 p.2) t).toList.map weight).sum ≤
        (t.toList.map weight).sum + (l.map weight).sum := by
    intro l
    induction l with
    | nil => simp
    | cons p l ih =>
      intro t
      have hinsert : ((t.insert p.1 p.2).toList.map weight).sum ≤
          weight p + (t.toList.map weight).sum :=
        Entries.sum_insert_le weight p.1 p.2 t.toList
      have hrest := ih (t.insert p.1 p.2)
      simp only [List.foldl_cons, List.map_cons, List.sum_cons]
      omega
  simpa [Table.ofList] using general l ∅

end Weight

/-! ## Records inside a tree -/

namespace Tree

/-- A tree is part of itself and of every record with a field that it is part of. -/
inductive Part (part : Tree) : Tree → Prop where
  | self : Part part part
  | field {fields : List (String × Tree)} {name : String} {t : Tree} :
      (name, t) ∈ fields → Part part t →
      Part part (.record fields)

/-- A tree is sorted if each of the records inside it is. -/
theorem sorted_iff_parts {t : Tree} :
    t.Sorted ↔ ∀ fields, Part (.record fields) t → Entries.Ascending fields := by
  induction t using Tree.induction with
  | scalar s =>
    refine iff_of_true (sorted_scalar s) fun fields hpart => ?_
    cases hpart
  | record fields ih =>
    rw [sorted_record]
    constructor
    · rintro ⟨hascending, hall⟩ inner hpart
      cases hpart with
      | self => exact hascending
      | field hmem hpart => exact (ih _ hmem).1 (hall _ hmem) inner hpart
    · intro h
      exact ⟨h fields .self, fun p hp => (ih p hp).2 fun inner hpart => h inner (.field hp hpart)⟩

end Tree

/-- The names of fields ascend just if their bytes do. -/
theorem Entries.ascending_iff_utf8 {α : Type} {l : List (String × α)} :
    Entries.Ascending l ↔ (l.map fun p => utf8 p.1).Pairwise (· < ·) := by
  simp only [Entries.Ascending, List.pairwise_map, utf8_lt_iff]

/-! ## Bytes of the normal form -/

namespace Codec

/-- A tree takes no fewer bytes than its normal form. -/
theorem treeSize_normal_le (t : Tree) : treeSize t.normal ≤ treeSize t := by
  induction t using Tree.induction with
  | scalar s => exact Nat.le_refl _
  | record fields ih =>
    rw [Tree.normal_record, treeSize_record, treeSize_record]
    refine Nat.add_le_add_left ?_ 12
    calc fieldsSize (Table.ofList (fields.map fun p => (p.1, p.2.normal))).toList
        ≤ fieldsSize (fields.map fun p => (p.1, p.2.normal)) := Table.sum_ofList_le _ _
      _ ≤ fieldsSize fields := by
        rw [fieldsSize, fieldsSize, List.map_map]
        exact List.sum_le_sum fun p hp => Nat.add_le_add_left (ih p hp) _

/-- Trees of which one fits its words have different bytes. -/
theorem encodeTree_inj {t u : Tree} (h : encodeTree t = encodeTree u)
    (hsize : treeSize t < 2 ^ 64) : t = u := by
  have hlength : treeSize t = treeSize u := by rw [← length_encodeTree, h, length_encodeTree]
  have ht := readTreeWithin_encodeTree t _ [] (Nat.le_refl _) hsize
  have hu := readTreeWithin_encodeTree u _ [] (Nat.le_refl _) (hlength ▸ hsize)
  rw [h, hlength, hu] at ht
  exact (Prod.mk.inj (Except.ok.inj ht)).1.symm

/-- The normal form has the bytes of the tree just if the tree is sorted. -/
theorem encodeTree_normal_iff {t : Tree} (hsize : treeSize t < 2 ^ 64) :
    encodeTree t.normal = encodeTree t ↔ t.Sorted := by
  constructor
  · intro h
    rw [encodeTree_inj h.symm hsize]
    exact t.sorted_normal
  · intro h
    rw [Tree.normal_of_sorted h]

end Codec

/-! ## Values -/

namespace Value

/-- A value that was read is written again, to no more bytes than were read, and is read back from
them. They are the bytes that were read just if every record among these, at every depth, lists its
names in strictly ascending order of their bytes. -/
theorem encode_of_decode {b : Bytes} {v : Value} (h : decode b = .ok v) :
    ∃ front rest t b', b = front ++ rest ∧ Codec.readTree b = .ok (t, rest) ∧ Codec.Writes front t ∧
      v.encode = .ok b' ∧ b'.length ≤ front.length ∧ decode b' = .ok v ∧
      (b' = front ↔ ∀ fields, Tree.Part (.record fields) t →
        (fields.map fun p => utf8 p.1).Pairwise (· < ·)) := by
  unfold decode at h
  split at h
  · next hlimit =>
    split at h
    · next t rest hread =>
      obtain rfl := Except.ok.inj h
      obtain ⟨front, rfl, hwrites⟩ := Codec.writes_of_readTreeWithin hread
      have hfront : Codec.encodeTree t = front := Codec.encodeTree_of_writes hwrites
      have hlength : Codec.treeSize t = front.length := by rw [← hfront, Codec.length_encodeTree]
      have hnormal : (ofTree t).size ≤ front.length := hlength ▸ Codec.treeSize_normal_le t
      have hfits : front.length ≤ Codec.maxSize := by
        rw [List.length_append] at hlimit
        omega
      have hsize : (ofTree t).size ≤ Codec.maxSize := Nat.le_trans hnormal hfits
      have hmax : Codec.maxSize < 2 ^ 64 := by decide
      refine ⟨front, rest, t, _, rfl, hread, hwrites, encode_eq_ok_iff.2 ⟨hsize, rfl⟩, ?_,
        decode_encodeTree hsize, ?_⟩
      · rw [Codec.length_encodeTree]
        exact hnormal
      · show Codec.encodeTree t.normal = front ↔ _
        rw [← hfront, Codec.encodeTree_normal_iff (by omega), Tree.sorted_iff_parts]
        simp only [Entries.ascending_iff_utf8]
    · contradiction
  · contradiction

/-- A record with its names out of order, which holds one with a name twice and has a byte behind
it, is written again to fewer bytes. -/
theorem encode_of_decode_record :
    let b :=
      Codec.encodeTree (.record [("b", .record [("a", .scalar .null), ("a", .scalar (.bool true))]),
        ("a", .scalar .null)]) ++ [7]
    let v := record [("a", null), ("b", record [("a", bool true)])]
    decode b = .ok v ∧ ∃ front rest t b', b = front ++ rest ∧ Codec.readTree b = .ok (t, rest) ∧
      Codec.Writes front t ∧ v.encode = .ok b' ∧ b'.length ≤ front.length ∧ decode b' = .ok v ∧
      (b' = front ↔ ∀ fields, Tree.Part (.record fields) t →
        (fields.map fun p => utf8 p.1).Pairwise (· < ·)) := by
  intro b v
  have hdecode : decode b = .ok v := by decide +kernel
  exact ⟨hdecode, encode_of_decode hdecode⟩

end Value

end ClusterMap
