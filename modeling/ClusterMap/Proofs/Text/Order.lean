import Mathlib.Tactic.SplitIfs
import ClusterMap.Text.Utf8

/-!
# The order of texts and of their bytes

Texts are ordered by code point, and their UTF-8 forms byte by byte; it is the same order. The bytes
of a character are its code point in base 64, each digit with a mark, and the mark of the first one
grows with the number of digits (`utf8EncodeChar_eq`). So the bytes of two characters differ in the
order of their code points, and as no character begins with another one, what follows them does not
count. Main statements: `utf8EncodeChar_append_lt`, `utf8_lt_iff`.
-/

namespace ClusterMap.Text

/-! ## Digits -/

/-- A number in base 64, the most significant digit first; `mark` is added to the first of its
digits and 128 to each of the `more` others. -/
def markedDigits (mark : Nat) : (more : Nat) → (n : Nat) → Bytes
  | 0, n => [UInt8.ofNat (n + mark)]
  | more + 1, n => markedDigits mark more (n / 64) ++ [UInt8.ofNat (n % 64 + 128)]

theorem toNat_ofNat_of_lt {n : Nat} (h : n < 256) : (UInt8.ofNat n).toNat = n := by
  rw [UInt8.toNat_ofNat', Nat.mod_eq_of_lt h]

/-- The first digit takes all that the others do not hold. -/
theorem markedDigits_eq_cons (mark more n : Nat) :
    ∃ tail, markedDigits mark more n = UInt8.ofNat (n / 64 ^ more + mark) :: tail := by
  induction more generalizing n with
  | zero => exact ⟨[], by simp [markedDigits]⟩
  | succ more ih =>
    obtain ⟨tail, htail⟩ := ih (n / 64)
    rw [Nat.div_div_eq_div_mul, ← Nat.pow_succ'] at htail
    exact ⟨tail ++ _, by rw [markedDigits, htail, List.cons_append]⟩

/-- Of two numbers with as many digits the smaller one has the smaller digit at the first place
where they differ. -/
theorem markedDigits_append_lt {mark more n m : Nat} (hlt : n < m) (hm : m / 64 ^ more + mark < 256)
    (rest rest' : Bytes) :
    markedDigits mark more n ++ rest < markedDigits mark more m ++ rest' := by
  induction more generalizing n m rest rest' with
  | zero =>
    rw [Nat.pow_zero, Nat.div_one] at hm
    refine List.cons_lt_cons_iff.2 (.inl ?_)
    rw [UInt8.lt_iff_toNat_lt, toNat_ofNat_of_lt hm, toNat_ofNat_of_lt (by omega)]
    omega
  | succ more ih =>
    rw [markedDigits, markedDigits, List.append_assoc, List.append_assoc]
    by_cases hfront : n / 64 = m / 64
    · rw [hfront]
      refine List.append_left_lt (List.cons_lt_cons_iff.2 (.inl ?_))
      rw [UInt8.lt_iff_toNat_lt, toNat_ofNat_of_lt (by omega), toNat_ofNat_of_lt (by omega)]
      omega
    · refine ih (by omega) ?_ _ _
      rwa [Nat.div_div_eq_div_mul, ← Nat.pow_succ']

/-! ## Characters -/

/-- The number of bytes behind the first one of a character. -/
def following (n : Nat) : Nat :=
  if n ≤ 0x7F then 0 else if n ≤ 0x7FF then 1 else if n ≤ 0xFFFF then 2 else 3

/-- The mark of the first byte of a character. -/
def mark (n : Nat) : Nat :=
  if n ≤ 0x7F then 0 else if n ≤ 0x7FF then 0xC0 else if n ≤ 0xFFFF then 0xE0 else 0xF0

theorem val_toNat_lt (c : Char) : c.val.toNat < 0x110000 := by
  have hvalid := c.valid
  simp only [UInt32.isValidChar, Nat.isValidChar] at hvalid
  omega

/-- The bytes of a character are the digits of its code point. -/
theorem utf8EncodeChar_eq (c : Char) :
    String.utf8EncodeChar c = markedDigits (mark c.val.toNat)
    (following c.val.toNat) c.val.toNat := by
  have hc := val_toNat_lt c
  unfold String.utf8EncodeChar mark following
  generalize c.val.toNat = n at hc
  simp only
  -- the first byte has room for all of the first digit, so masking it takes nothing away
  split_ifs with _ _ hthree
  · rfl
  · have hfirst : n / 64 % 32 = n / 64 := Nat.mod_eq_of_lt (by omega)
    rw [hfirst]
    rfl
  · have hfirst : n / 4096 % 16 = n / 64 / 64 := by omega
    rw [hfirst]
    rfl
  · have hfirst : n / 262144 % 8 = n / 64 / 64 / 64 := by omega
    have hsecond : n / 4096 % 64 = n / 64 / 64 % 64 := by omega
    rw [hfirst, hsecond]
    rfl

theorem first_lt {n : Nat} (h : n < 0x110000) : n / 64 ^ following n + mark n < 256 := by
  unfold following mark
  split_ifs <;> omega

/-- A character with more bytes begins with a greater one. -/
theorem first_lt_first {n m : Nat} (hlt : n < m) (hm : m < 0x110000)
    (hne : following n ≠ following m) :
    n / 64 ^ following n + mark n < m / 64 ^ following m + mark m := by
  unfold following mark at *
  split_ifs at * <;> omega

/-- The bytes of a smaller character are smaller, whatever follows either. -/
theorem utf8EncodeChar_append_lt {c d : Char} (h : c < d) (rest rest' : Bytes) :
    String.utf8EncodeChar c ++ rest < String.utf8EncodeChar d ++ rest' := by
  have hlt : c.val.toNat < d.val.toNat := h
  have hd := val_toNat_lt d
  rw [utf8EncodeChar_eq, utf8EncodeChar_eq]
  by_cases hsame : following c.val.toNat = following d.val.toNat
  · have hmark : mark c.val.toNat = mark d.val.toNat := by
      unfold following at hsame
      unfold mark
      split_ifs at * <;> omega
    rw [hsame, hmark]
    exact markedDigits_append_lt hlt (first_lt hd) rest rest'
  · obtain ⟨tail, htail⟩ :=
      markedDigits_eq_cons (mark c.val.toNat) (following c.val.toNat) c.val.toNat
    obtain ⟨tail', htail'⟩ :=
      markedDigits_eq_cons (mark d.val.toNat) (following d.val.toNat) d.val.toNat
    rw [htail, htail']
    refine List.cons_lt_cons_iff.2 (.inl ?_)
    rw [UInt8.lt_iff_toNat_lt, toNat_ofNat_of_lt (first_lt (val_toNat_lt c)),
      toNat_ofNat_of_lt (first_lt hd)]
    exact first_lt_first hlt hd hsame

/-! ## Texts -/

theorem utf8_ofList (cs : List Char) :
    utf8 (String.ofList cs) = cs.flatMap String.utf8EncodeChar := by
  simp [utf8, List.utf8Encode]

theorem flatMap_utf8EncodeChar_lt {cs ds : List Char} (h : cs < ds) :
    cs.flatMap String.utf8EncodeChar < ds.flatMap String.utf8EncodeChar := by
  induction cs generalizing ds with
  | nil =>
    cases ds with
    | nil => contradiction
    | cons d ds =>
      obtain ⟨tail, htail⟩ :=
        markedDigits_eq_cons (mark d.val.toNat) (following d.val.toNat) d.val.toNat
      rw [List.flatMap_cons, utf8EncodeChar_eq, htail]
      exact List.nil_lt_cons _ _
  | cons c cs ih =>
    cases ds with
    | nil => contradiction
    | cons d ds =>
      rw [List.flatMap_cons, List.flatMap_cons]
      obtain hcd | ⟨rfl, hrest⟩ := List.cons_lt_cons_iff.1 h
      · exact utf8EncodeChar_append_lt hcd _ _
      · exact List.append_left_lt (ih hrest)

/-- A text comes before another one just if its bytes do. -/
theorem utf8_lt_iff {s t : String} : utf8 s < utf8 t ↔ s < t := by
  have hmono : ∀ {s t : String}, s < t → utf8 s < utf8 t := fun {s t} h => by
    have hlt := flatMap_utf8EncodeChar_lt (String.lt_iff.1 h)
    rwa [← utf8_ofList, ← utf8_ofList, String.ofList_toList, String.ofList_toList] at hlt
  refine ⟨fun h => ?_, hmono⟩
  obtain hst | rfl | hts := Std.lt_trichotomy s t
  · exact hst
  · exact absurd h (List.lt_irrefl _)
  · exact absurd h (List.lt_asymm (hmono hts))

end ClusterMap.Text
