import ClusterMap.Value.Codec
import Mathlib.Algebra.Ring.Nat

/-!
# Reading what was written

A tree is read back from its bytes, whatever follows them: words, texts and scalars first, then the
fields of a record and the tree as a whole, which need no more fuel than the tree has bytes. Every
length inside a tree is at most its size, so it fits its word of eight bytes. Main statements:
`readTreeWithin_encodeTree`, `decode_encodeTree`.
-/

namespace ClusterMap

open Number Text

namespace Codec

/-! ## Words and texts -/

theorem readWord_littleEndian {width n : Nat} (h : n < 256 ^ width) (rest : Bytes) :
    readWord width (littleEndian width n ++ rest) = .ok (n, rest) := by
  have hsplit : split? width (littleEndian width n ++ rest) = some (littleEndian width n, rest) :=
    split?_eq_some_iff.2 ⟨rfl, length_littleEndian width n⟩
  rw [readWord, hsplit]
  simp only [ofLittleEndian_littleEndian h]

theorem readText_encodeText {s : String} (h : s.utf8ByteSize < 2 ^ 64) (rest : Bytes) :
    readText (encodeText s ++ rest) = .ok (s, rest) := by
  have hword : s.utf8ByteSize < 256 ^ 8 := by omega
  have hsplit : split? s.utf8ByteSize (utf8 s ++ rest) = some (utf8 s, rest) :=
    split?_eq_some_iff.2 ⟨rfl, length_utf8 s⟩
  unfold readText encodeText
  rw [List.append_assoc, readWord_littleEndian hword]
  simp only [bind, Except.bind, hsplit, ofUtf8_utf8]

/-! ## Scalars -/

/-- The word of a kind is read first, and decides what comes next. -/
theorem readWord_kindBytes {kind : Nat} (h : kind < 6) (rest : Bytes) :
    readWord 4 (kindBytes kind ++ rest) = .ok (kind, rest) :=
  readWord_littleEndian (by omega) rest

/-- The bytes of a scalar are the word of its kind and what is read behind it. -/
theorem encodeScalar_split {s : Scalar} (h : scalarSize s < 2 ^ 64) :
    ∃ kind payload, kind < 5 ∧ encodeScalar s = kindBytes kind ++ payload ∧
      ∀ rest, readScalar kind (payload ++ rest) = .ok (s, rest) := by
  cases s with
  | null => exact ⟨0, [], by decide, rfl, fun rest => rfl⟩
  | bool b =>
    refine ⟨1, [if b then 1 else 0], by decide, rfl, fun rest => ?_⟩
    cases b <;> rfl
  | int n =>
    refine ⟨2, littleEndian 8 n.toUInt64.toNat, by decide, rfl, fun rest => ?_⟩
    have hword : n.toUInt64.toNat < 256 ^ 8 := n.toUInt64.toNat_lt
    simp only [readScalar, readWord_littleEndian hword, bind, Except.bind, UInt64.ofNat_toNat,
      Int64.toInt64_toUInt64]
  | float x =>
    refine ⟨3, littleEndian 8 x.word, by decide, rfl, fun rest => ?_⟩
    have hword : x.word < 256 ^ 8 := x.bits.toNat_lt
    simp only [readScalar, readWord_littleEndian hword, bind, Except.bind, Binary64.ofWord_word]
  | text s =>
    refine ⟨4, encodeText s, by decide, rfl, fun rest => ?_⟩
    have hlength : s.utf8ByteSize < 2 ^ 64 := by
      simp only [scalarSize] at h
      omega
    simp only [readScalar, readText_encodeText hlength, bind, Except.bind]

theorem four_le_scalarSize (s : Scalar) : 4 ≤ scalarSize s := by
  cases s <;> simp only [scalarSize] <;> omega

/-! ## Trees -/

/-- The bytes of the fields of a record, without their number. -/
def encodeFields (fields : List (String × Tree)) : Bytes :=
  fields.flatMap fun p => encodeText p.1 ++ encodeTree p.2

/-- The number of bytes of the fields of a record. -/
def fieldsSize (fields : List (String × Tree)) : Nat :=
  (fields.map fun p => 8 + p.1.utf8ByteSize + treeSize p.2).sum

theorem encodeTree_record (fields : List (String × Tree)) :
    encodeTree (.record fields) = kindBytes 5 ++
      (littleEndian 8 fields.length ++ encodeFields fields) := by
  rw [encodeTree, Tree.fold_record, encodeRecord, List.length_map, List.flatMap_map,
    List.append_assoc]
  rfl

theorem treeSize_record (fields : List (String × Tree)) :
    treeSize (.record fields) = 12 + fieldsSize fields := by
  rw [treeSize, Tree.fold_record, recordSize, List.map_map]
  rfl

theorem length_le_fieldsSize (fields : List (String × Tree)) :
    fields.length ≤ fieldsSize fields := by
  induction fields with
  | nil => exact Nat.le_refl 0
  | cons p fields ih =>
    simp only [fieldsSize, List.map_cons, List.sum_cons, List.length_cons] at ih ⊢
    omega

/-- Fields are read back if all their trees are. -/
theorem readFieldsWithin_encodeFields {fields : List (String × Tree)}
    (htrees : ∀ p ∈ fields, ∀ fuel rest, treeSize p.2 ≤ fuel → treeSize p.2 < 2 ^ 64 →
      readTreeWithin fuel (encodeTree p.2 ++ rest) = .ok (p.2, rest))
    {fuel : Nat} (hfuel : fieldsSize fields ≤ fuel) (hsize : fieldsSize fields < 2 ^ 64)
    (rest : Bytes) :
    readFieldsWithin fuel fields.length (encodeFields fields ++ rest) = .ok (fields, rest) := by
  induction fields generalizing fuel with
  | nil => cases fuel <;> rfl
  | cons p fields ih =>
    obtain ⟨name, t⟩ := p
    have hcons : fieldsSize ((name, t) :: fields) =
        8 + name.utf8ByteSize + treeSize t + fieldsSize fields := by
      rw [fieldsSize, List.map_cons, List.sum_cons]
      rfl
    rw [hcons] at hfuel hsize
    obtain _ | fuel := fuel
    · omega
    have htreeFuel : treeSize t ≤ fuel := by omega
    have htreeSize : treeSize t < 2 ^ 64 := by omega
    have hfieldsFuel : fieldsSize fields ≤ fuel := by omega
    have hbytes : encodeFields ((name, t) :: fields) ++ rest =
        encodeText name ++ (encodeTree t ++ (encodeFields fields ++ rest)) := by
      simp only [encodeFields, List.flatMap_cons, List.append_assoc]
    have htree : readTreeWithin fuel (encodeTree t ++ (encodeFields fields ++ rest)) =
        .ok (t, encodeFields fields ++ rest) :=
      htrees (name, t) List.mem_cons_self fuel _ htreeFuel htreeSize
    have hrest := ih (fun p hp => htrees p (List.mem_cons_of_mem _ hp)) hfieldsFuel (by omega)
    rw [List.length_cons, readFieldsWithin, hbytes, readText_encodeText (by omega)]
    simp only [bind, Except.bind, htree, hrest]

/-- A tree is read back from its bytes, whatever follows them. -/
theorem readTreeWithin_encodeTree (t : Tree) (fuel : Nat) (rest : Bytes) (hfuel : treeSize t ≤ fuel)
    (hsize : treeSize t < 2 ^ 64) : readTreeWithin fuel (encodeTree t ++ rest) = .ok (t, rest) := by
  induction t using Tree.induction generalizing fuel rest with
  | scalar s =>
    obtain ⟨kind, payload, hkind, hsplit, hread⟩ := encodeScalar_split (s := s) hsize
    have hbytes : encodeTree (.scalar s) ++ rest = kindBytes kind ++ (payload ++ rest) := by
      rw [← List.append_assoc, ← hsplit]
      rfl
    obtain _ | fuel := fuel
    · have hfour := four_le_scalarSize s
      rw [treeSize, Tree.fold_scalar] at hfuel
      omega
    rw [hbytes, readTreeWithin, readWord_kindBytes (by omega)]
    simp only [bind, Except.bind, hread, show kind ≠ 5 by omega, if_false]
  | record fields ih =>
    rw [treeSize_record] at hfuel hsize
    have hcount := length_le_fieldsSize fields
    obtain _ | fuel := fuel
    · omega
    rw [encodeTree_record, List.append_assoc, List.append_assoc, readTreeWithin,
      readWord_kindBytes (by decide)]
    have hlength : fields.length < 256 ^ 8 := by omega
    have hfieldsFuel : fieldsSize fields ≤ fuel := by omega
    have hfields := readFieldsWithin_encodeFields ih hfieldsFuel (by omega) rest
    simp only [bind, Except.bind, if_true, readWord_littleEndian hlength, hfields]

end Codec

namespace Value

/-- A value is read back from its bytes, whatever follows them, if all of it keeps to the limit. -/
theorem decode_encodeTree_append {v : Value} {rest : Bytes}
    (h : v.size + rest.length ≤ Codec.maxSize) :
    decode (Codec.encodeTree v.tree ++ rest) = .ok v := by
  have hlength : (Codec.encodeTree v.tree ++ rest).length = v.size + rest.length := by
    rw [List.length_append, Codec.length_encodeTree]
    rfl
  have hsize : v.size < 2 ^ 64 := by
    have hlimit : Codec.maxSize < 2 ^ 64 := by decide
    omega
  have hread : Codec.readTree (Codec.encodeTree v.tree ++ rest) = .ok (v.tree, rest) := by
    refine Codec.readTreeWithin_encodeTree v.tree _ rest ?_ hsize
    rw [hlength]
    exact Nat.le_succ_of_le (Nat.le_add_right v.size rest.length)
  rw [decode, hlength, if_pos h, hread]
  simp only [ofTree_tree]

/-- A value that keeps to the limit is read back from its bytes. -/
theorem decode_encodeTree {v : Value} (h : v.size ≤ Codec.maxSize) :
    decode (Codec.encodeTree v.tree) = .ok v := by
  have hnone : v.size + ([] : Bytes).length ≤ Codec.maxSize := h
  have hread := decode_encodeTree_append hnone
  rwa [List.append_nil] at hread

end Value

end ClusterMap
