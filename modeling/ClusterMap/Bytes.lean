import ClusterMap.Number.Integer

/-!
# Bytes

Byte strings as lists: words written with the least significant byte first, and cutting off a front
of a given length. Main statements: `ofLittleEndian_littleEndian`, a word that fits is read back;
`split?_eq_some_iff`, a cut succeeds exactly where the front is long enough and loses nothing.
-/

namespace ClusterMap

/-- A byte string. -/
abbrev Bytes := List UInt8

/-! ## Words -/

/-- The `width` lowest bytes of `n`, least significant first. -/
def littleEndian : (width : Nat) → (n : Nat) → Bytes
  | 0, _ => []
  | width + 1, n => UInt8.ofNat n :: littleEndian width (n / 256)

/-- The number that a byte string writes, least significant byte first. -/
def ofLittleEndian : Bytes → Nat
  | [] => 0
  | b :: rest => b.toNat + 256 * ofLittleEndian rest

@[simp] theorem length_littleEndian (width n : Nat) : (littleEndian width n).length = width := by
  induction width generalizing n with
  | zero => rfl
  | succ width ih => simp [littleEndian, ih]

/-- A number below `256 ^ width` is read back from its `width` bytes. -/
theorem ofLittleEndian_littleEndian {width n : Nat} (h : n < 256 ^ width) :
    ofLittleEndian (littleEndian width n) = n := by
  induction width generalizing n with
  | zero => simp only [Nat.pow_zero, Nat.lt_one_iff] at h; simp [littleEndian, ofLittleEndian, h]
  | succ width ih =>
    have hlow : (UInt8.ofNat n).toNat = n % 256 := UInt8.toNat_ofNat'
    have hhigh : n / 256 < 256 ^ width := by rw [Nat.pow_succ] at h; omega
    simp only [littleEndian, ofLittleEndian, ih hhigh]
    omega

/-- As many bytes write no number beyond their width. -/
theorem ofLittleEndian_lt (b : Bytes) : ofLittleEndian b < 256 ^ b.length := by
  induction b with
  | nil => simp [ofLittleEndian]
  | cons b rest ih =>
    have := b.toNat_lt
    simp only [ofLittleEndian, List.length_cons, Nat.pow_succ]
    omega

/-- Bytes are the little-endian form of the number they write. -/
theorem littleEndian_ofLittleEndian (b : Bytes) : littleEndian b.length (ofLittleEndian b) = b := by
  induction b with
  | nil => rfl
  | cons b rest ih =>
    have hb := b.toNat_lt
    have hdiv : (b.toNat + 256 * ofLittleEndian rest) / 256 = ofLittleEndian rest := by omega
    have hlow : UInt8.ofNat (b.toNat + 256 * ofLittleEndian rest) = b := by
      apply UInt8.toNat_inj.1
      rw [UInt8.toNat_ofNat']
      omega
    simp only [List.length_cons, littleEndian, ofLittleEndian, hdiv, hlow, ih]

/-! ## Cutting off a front -/

/-- The first `n` bytes and what follows them; none if there are fewer than `n`. -/
def split? (n : Nat) (b : Bytes) : Option (Bytes × Bytes) :=
  let front := b.take n
  if front.length = n then some (front, b.drop n) else none

/-- A cut gives the two parts of the bytes, the first of the length asked for. -/
theorem split?_eq_some_iff {n : Nat} {b front rest : Bytes} :
    split? n b = some (front, rest) ↔ b = front ++ rest ∧ front.length = n := by
  simp only [split?]
  constructor
  · intro h
    split at h
    · next hn =>
      obtain ⟨rfl, rfl⟩ := Prod.mk.inj (Option.some.inj h)
      exact ⟨(List.take_append_drop n b).symm, hn⟩
    · contradiction
  · rintro ⟨rfl, rfl⟩
    simp

/-- A cut that succeeds does not look at what follows. -/
theorem split?_append_right {n : Nat} {b front rest : Bytes} (h : split? n b = some (front, rest))
    (more : Bytes) :
    split? n (b ++ more) = some (front, rest ++ more) := by
  obtain ⟨rfl, hlength⟩ := split?_eq_some_iff.1 h
  exact split?_eq_some_iff.2 ⟨List.append_assoc front rest more, hlength⟩

end ClusterMap
