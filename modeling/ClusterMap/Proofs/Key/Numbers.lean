import ClusterMap.Key.Codec
import ClusterMap.Proofs.Number.Shortest
import Mathlib.Algebra.Order.Field.Rat
import Mathlib.Data.Int.CharZero

/-!
# Keys of numbers

The key of a number is the text of the decimal that is written for it: for an integer the integer
itself, for a double the shortest decimal that reads back as it. A decimal is told by its text, so
keys are equal just if the decimals are. That is the same as comparing the numbers, unless an
integer is compared with a double beyond `2 ^ 53` of which the shortest decimal is another integer
than the double. Main statements: `canonicalize_of_number`, `shown_injective`,
`canonicalize_eq_iff`.
-/

namespace ClusterMap

open Number

variable {κ : Type}

/-! ## Numbers -/

namespace Number.Binary64

/-- A number with the sign of a double. -/
def signedAs (x : Binary64) (n : Nat) : Int := if x.negative then -(n : Int) else n

theorem signedAs_zero (x : Binary64) : x.signedAs 0 = 0 := by
  unfold signedAs
  split <;> rfl

/-- The sign of a double changes no magnitude. -/
theorem natAbs_signedAs (x : Binary64) (n : Nat) : (x.signedAs n).natAbs = n := by
  unfold signedAs
  split <;> omega

/-- A magnitude is below zero with the sign of a negative double. -/
theorem signedAs_lt_zero_iff {x : Binary64} {n : Nat} (h : 0 < n) :
    x.signedAs n < 0 ↔ x.negative = true := by
  unfold signedAs
  split
  · next hnegative => exact ⟨fun _ => hnegative, fun _ => by omega⟩
  · next hnegative => exact ⟨fun hn => by omega, fun hn => absurd hn hnegative⟩

/-- A number has the sign of a double if its absolute value with this sign is the number. -/
theorem signedAs_eq_iff {x : Binary64} {m : Nat} {n : Int} :
    x.signedAs m = n ↔ m = n.natAbs ∧ x.signedAs n.natAbs = n := by
  refine ⟨fun h => ?_, fun h => h.1 ▸ h.2⟩
  rw [← h, natAbs_signedAs]
  exact ⟨rfl, rfl⟩

/-- Two magnitudes with signs are equal if magnitudes and signs are, but for the sign of zero. -/
theorem signedAs_eq_signedAs_iff {x y : Binary64} {m n : Nat} :
    x.signedAs m = y.signedAs n ↔ m = n ∧ (x.negative = y.negative ∨ n = 0) := by
  unfold signedAs
  cases x.negative <;> cases y.negative <;> simp <;> omega

/-- The sign may be given before or after a factor. -/
theorem signedAs_mul (x : Binary64) (m n : Nat) : x.signedAs (m * n) = x.signedAs m * n := by
  unfold signedAs
  split
  · rw [Int.neg_mul, Int.natCast_mul]
  · exact Int.natCast_mul m n

/-- The number that a finite double stands for. -/
def value (x : Binary64) : ℚ := x.scaled / 2 ^ (1074 : Nat)

/-- The last bit of a double below `2 ^ 53` is worth one at most. -/
theorem unit_le_of_magnitude_lt {x : Binary64} (h : x.magnitude < 2 ^ 53 * 2 ^ (1074 : Nat)) :
    x.unit ≤ 1074 := by
  have hpow : ∀ k, k < x.unit → 2 ^ 53 * 2 ^ k ≤ x.magnitude := by
    intro k hk
    have hstep : 2 * 2 ^ k ≤ 2 ^ x.unit := two_mul_two_pow_le hk
    have hleast : 2 ^ 52 * 2 ^ x.unit ≤ x.magnitude :=
      Nat.mul_le_mul_right _ (le_significand (by omega))
    omega
  exact Nat.le_of_not_lt fun hlt => Nat.not_lt.2 (hpow 1074 hlt) h

/-- A double in decimal units. -/
theorem value_eq (x : Binary64) : x.value = x.signedAs x.decimal / decimalOne := by
  have hscale : ∀ (s : Int) (k u : Nat), 0 < u →
      (s : ℚ) / 2 ^ k = (s * u : Int) / (2 ^ k * u : Nat) := by
    intro s k u hu
    have hne : (u : ℚ) ≠ 0 := Nat.cast_ne_zero.2 (Nat.ne_of_gt hu)
    rw [Int.cast_mul, Int.cast_natCast, Nat.cast_mul, Nat.cast_pow, Nat.cast_ofNat,
      mul_div_mul_right _ _ hne]
  rw [decimalOne_eq_mul, decimal_eq_mul, signedAs_mul]
  exact hscale x.scaled 1074 binaryUnit binaryUnit_pos

/-- A double that is a whole number in its units has it as its value. -/
theorem value_of_scaled {x : Binary64} {n : Int} (h : x.scaled = n * 2 ^ (1074 : Nat)) :
    x.value = n := by
  have hcancel : ∀ k, ((n * 2 ^ k : Int) : ℚ) / 2 ^ k = n := fun k => by
    rw [Int.cast_mul, Int.cast_pow, Int.cast_ofNat,
      mul_div_cancel_right₀ _ (pow_ne_zero k two_ne_zero)]
  rw [value, h]
  exact hcancel 1074

/-- Whether the decimal that is written for a double is an integer only if the double is this
integer: the double is below `2 ^ 53`, or it is written as it is. -/
def Faithful (x : Binary64) : Prop :=
  x.magnitude < 2 ^ 53 * 2 ^ (1074 : Nat) ∨ x.shortest = x.decimal

/-- The shortest decimal of the double `2 ^ 63` is another integer. -/
theorem shortest_two_pow_63 {x : Binary64} (hsignificand : x.significand = 2 ^ 52)
    (hunit : x.unit = 1074 + 11) :
    x.shortest = 9223372036854776000 * decimalOne := by
  have hcontains : ∀ n, x.roundingInterval.contains (n * decimalOne) = true ↔
      2 ^ 63 - 512 ≤ n ∧ n ≤ 2 ^ 63 + 1024 := by
    intro n
    rw [contains_whole_iff hunit, hsignificand, if_pos rfl]
    omega
  have hdecimal : x.decimal = 2 ^ 63 * decimalOne := by
    have hpow : ∀ j : Nat, 2 ^ 52 * 2 ^ (j + 11) * binaryUnit = 2 ^ 63 * (2 ^ j * binaryUnit) :=
      fun j => by
      have hscale : 2 ^ 52 * 2 ^ (j + 11) = 2 ^ 63 * 2 ^ j := by
        rw [Nat.pow_add]
        omega
      rw [hscale, Nat.mul_assoc]
    rw [decimal_eq_mul, decimalOne_eq_mul, magnitude, hsignificand, hunit]
    exact hpow 1074
  obtain ⟨k, hone⟩ : ∃ k, decimalOne = 10 ^ k := ⟨1076, decimalOne_eq_ten_pow⟩
  have hthousand : 10 ^ (k + 2 + 1) = 1000 * decimalOne := by
    rw [hone]
    exact (Nat.pow_add 10 k 3).trans (Nat.mul_comm _ _)
  have hmyriad : 10 ^ (k + 3 + 1) = 10000 * decimalOne := by
    rw [hone]
    exact (Nat.pow_add 10 k 4).trans (Nat.mul_comm _ _)
  have hpos := decimalOne_pos
  have hplaces : k + 3 ≤ (Nat.repr x.decimal).length - 1 := by
    have hlength : ¬(Nat.repr x.decimal).length ≤ k + 2 + 1 := by
      rw [Nat.length_repr_le_iff (by omega), hdecimal, hthousand]
      omega
    omega
  have hnone : ∀ n, x.roundingInterval.contains (n * 10 ^ (k + 3 + 1)) = false := by
    intro n
    rw [hmyriad, ← Nat.mul_assoc, Bool.eq_false_iff, ne_eq, hcontains]
    omega
  rw [shortest]
  refine Interval.coarsest_eq_of_only hplaces hnone ?_ fun n hn => ?_
  · rw [hthousand, hdecimal, Nat.mul_div_mul_right _ _ hpos, ← Nat.mul_assoc, hcontains]
    decide
  · rw [hthousand, ← Nat.mul_assoc] at hn ⊢
    have hwhole : n * 1000 = 9223372036854776000 := by
      have hbounds := (hcontains _).1 hn
      omega
    rw [hwhole]

end Number.Binary64

namespace KeyInput

/-- The number that an input denotes, if it denotes one. -/
def number? : KeyInput κ → Option ℚ
  | .int n => some n.toInt
  | .uint n => some n.toNat
  | .float x => if x.isFinite then some x.value else none
  | _ => none

/-- The number that an input denotes, in units of `10 ^ -1076`. -/
def exact : KeyInput κ → Int
  | .int n => n.toInt * Binary64.decimalOne
  | .uint n => n.toNat * Binary64.decimalOne
  | .float x => x.signedAs x.decimal
  | _ => 0

/-- The number that is written for an input, in units of `10 ^ -1076`. -/
def written : KeyInput κ → Int
  | .float x => x.signedAs x.shortest
  | a => a.exact

/-- Whether the keys of two inputs are sure to compare like their numbers. -/
def Comparable : KeyInput κ → KeyInput κ → Prop
  | .float _, .float _ => True
  | .float x, _ => x.Faithful
  | _, .float x => x.Faithful
  | _, _ => True

/-- Two doubles are written alike just if they are equal. -/
theorem written_float_eq_iff (x y : Binary64) :
    (float x : KeyInput κ).written = (float y : KeyInput κ).written ↔
      (float x : KeyInput κ).exact = (float y : KeyInput κ).exact := by
  have hzero : y.shortest = 0 ↔ y.decimal = 0 := by
    refine ⟨fun h => ?_, fun h => ?_⟩
    · have hmagnitude : y.magnitude = 0 := Nat.eq_zero_of_not_pos fun hpos =>
        Nat.ne_of_gt (Binary64.shortest_pos hpos) h
      rw [Binary64.decimal_eq_mul, hmagnitude, Nat.zero_mul]
    · rw [Binary64.decimal_eq_mul, Nat.mul_eq_zero] at h
      exact Binary64.shortest_of_magnitude_eq_zero
        (h.resolve_right (Nat.ne_of_gt Binary64.binaryUnit_pos))
  show x.signedAs x.shortest = y.signedAs y.shortest ↔ x.signedAs x.decimal = y.signedAs y.decimal
  rw [Binary64.signedAs_eq_signedAs_iff, Binary64.signedAs_eq_signedAs_iff,
    Binary64.shortest_eq_iff, Binary64.decimal_eq_iff, hzero]

/-- A double that is written as an integer only if it is this integer. -/
theorem written_float_eq_whole_iff {x : Binary64} (h : x.Faithful) (n : Int) :
    (float x : KeyInput κ).written = n * Binary64.decimalOne ↔
      (float x : KeyInput κ).exact = n * Binary64.decimalOne := by
  show x.signedAs x.shortest = n * Binary64.decimalOne ↔
      x.signedAs x.decimal = n * Binary64.decimalOne
  obtain hsmall | hsame := h
  · have habs : (n * Binary64.decimalOne).natAbs = n.natAbs * Binary64.decimalOne := by
      rw [Int.natAbs_mul, Int.natAbs_natCast]
    rw [Binary64.signedAs_eq_iff, Binary64.signedAs_eq_iff (m := x.decimal), habs,
      Binary64.shortest_eq_iff_of_unit_le (Binary64.unit_le_of_magnitude_lt hsmall)]
  · rw [hsame]

/-- A double that is written as another number than it is. -/
theorem written_float_ne {x : Binary64} (h : ¬x.Faithful) {n : Int} :
    ¬((float x : KeyInput κ).written = n ∧ (float x : KeyInput κ).exact = n) := by
  rintro ⟨hwritten, hexact⟩
  have hsame : x.signedAs x.shortest = x.signedAs x.decimal := hwritten.trans hexact.symm
  have habs := congrArg Int.natAbs hsame
  rw [Binary64.natAbs_signedAs, Binary64.natAbs_signedAs] at habs
  exact h (.inr habs)

/-- A finite double is its value. -/
theorem number?_float {x : Binary64} (h : x.isFinite = true) :
    (float x : KeyInput κ).number? = some x.value := if_pos h

/-- A number is its decimal units over those of one. -/
theorem number?_eq {a : KeyInput κ} {p : ℚ} (h : a.number? = some p) :
    p = a.exact / Binary64.decimalOne := by
  have hpos : (Binary64.decimalOne : ℚ) ≠ 0 :=
    Nat.cast_ne_zero.2 (Nat.ne_of_gt Binary64.decimalOne_pos)
  cases a with
  | int n =>
    rw [number?, Option.some.injEq] at h
    rw [← h, exact, Int.cast_mul, Int.cast_natCast, mul_div_cancel_right₀ _ hpos]
  | uint n =>
    rw [number?, Option.some.injEq] at h
    rw [← h, exact, Int.cast_mul, Int.cast_natCast, Int.cast_natCast, mul_div_cancel_right₀ _ hpos]
  | float x =>
    simp only [number?] at h
    split at h
    · rw [Option.some.injEq] at h
      rw [← h, exact, Binary64.value_eq]
    · exact absurd h (Option.some_ne_none p).symm
  | _ => exact absurd h (Option.some_ne_none p).symm

/-- Inputs denote the same number just if they do so in units of `10 ^ -1076`. -/
theorem exact_eq_iff {a b : KeyInput κ} {p q : ℚ} (ha : a.number? = some p)
    (hb : b.number? = some q) :
    a.exact = b.exact ↔ p = q := by
  have hpos : (Binary64.decimalOne : ℚ) ≠ 0 :=
    Nat.cast_ne_zero.2 (Nat.ne_of_gt Binary64.decimalOne_pos)
  rw [number?_eq ha, number?_eq hb, div_left_inj' hpos, Int.cast_inj]

/-- What is written for two numbers is equal just if the numbers are, unless an integer meets a
double that is written as another number than it is. -/
theorem written_eq_iff {a b : KeyInput κ} {p q : ℚ} (ha : a.number? = some p)
    (hb : b.number? = some q) :
    (a.Comparable b → (a.written = b.written ↔ a.exact = b.exact)) ∧
      (¬a.Comparable b → ¬(a.written = b.written ∧ a.exact = b.exact)) := by
  cases a with
  | float x =>
    cases b with
    | float y => exact ⟨fun _ => written_float_eq_iff x y, fun h => absurd trivial h⟩
    | int n => exact ⟨fun h => written_float_eq_whole_iff h n.toInt, fun h => written_float_ne h⟩
    | uint n => exact ⟨fun h => written_float_eq_whole_iff h n.toNat, fun h => written_float_ne h⟩
    | _ => exact absurd hb (Option.some_ne_none q).symm
  | int n =>
    cases b with
    | float y =>
      refine ⟨fun h => ?_, fun h hboth => written_float_ne (x := y) h ⟨hboth.1.symm, hboth.2.symm⟩⟩
      exact eq_comm.trans ((written_float_eq_whole_iff h n.toInt).trans eq_comm)
    | int n => exact ⟨fun _ => Iff.rfl, fun h => absurd trivial h⟩
    | uint n => exact ⟨fun _ => Iff.rfl, fun h => absurd trivial h⟩
    | _ => exact absurd hb (Option.some_ne_none q).symm
  | uint n =>
    cases b with
    | float y =>
      refine ⟨fun h => ?_, fun h hboth => written_float_ne (x := y) h ⟨hboth.1.symm, hboth.2.symm⟩⟩
      exact eq_comm.trans ((written_float_eq_whole_iff h n.toNat).trans eq_comm)
    | int n => exact ⟨fun _ => Iff.rfl, fun h => absurd trivial h⟩
    | uint n => exact ⟨fun _ => Iff.rfl, fun h => absurd trivial h⟩
    | _ => exact absurd hb (Option.some_ne_none q).symm
  | _ => exact absurd ha (Option.some_ne_none p).symm

end KeyInput

/-! ## Text -/

/-- The text of a number of units of `10 ^ -1076`. -/
def shown (n : Int) : String := (if n < 0 then "-" else "") ++ Binary64.positional n.natAbs

/-- The characters of a number: the sign and the positional digits. -/
theorem toList_shown (n : Int) :
    (shown n).toList = (if n < 0 then ['-'] else []) ++ (Binary64.positional n.natAbs).toList := by
  unfold shown
  rw [String.toList_append]
  split <;> rfl

/-- No sign stands among positional digits. -/
theorem minus_not_mem_positional (n : Nat) : '-' ∉ (Binary64.positional n).toList := fun h => by
  obtain hdigit | hpoint := isDigit_or_eq_of_mem_positional h
  · exact absurd hdigit (by decide)
  · exact absurd hpoint (by decide)

/-- A text that begins with a minus is that of no other number. -/
theorem head?_positional_ne (n : Nat) : (Binary64.positional n).toList.head? ≠ some '-' := fun h =>
  minus_not_mem_positional n (List.mem_of_mem_head? h)

/-- Numbers are told apart by their texts. -/
theorem shown_injective {m n : Int} (h : shown m = shown n) : m = n := by
  have hlist : (shown m).toList = (shown n).toList := congrArg String.toList h
  clear h
  rw [toList_shown, toList_shown] at hlist
  by_cases hm : m < 0 <;> by_cases hn : n < 0
  · rw [if_pos hm, if_pos hn] at hlist
    have habs := positional_injective (String.toList_injective (List.append_cancel_left hlist))
    omega
  · rw [if_pos hm, if_neg hn, List.nil_append] at hlist
    have hhead : (Binary64.positional n.natAbs).toList.head? = some '-' := by
      rw [← hlist, List.cons_append, List.head?_cons]
    exact absurd hhead (head?_positional_ne n.natAbs)
  · rw [if_neg hm, if_pos hn, List.nil_append] at hlist
    have hhead : (Binary64.positional m.natAbs).toList.head? = some '-' := by
      rw [hlist, List.cons_append, List.head?_cons]
    exact absurd hhead (head?_positional_ne m.natAbs)
  · rw [if_neg hm, if_neg hn] at hlist
    have habs := positional_injective (String.toList_injective (List.append_cancel_left hlist))
    omega

/-- The text of an integer. -/
theorem shown_whole (n : Int) : shown (n * Binary64.decimalOne) = toString n := by
  have hsign : n * Binary64.decimalOne < 0 ↔ n < 0 := by
    have hpos : (0 : Int) < Binary64.decimalOne := Int.natCast_pos.2 Binary64.decimalOne_pos
    refine ⟨fun h => Int.lt_of_not_ge fun hn => ?_, fun h => Int.mul_neg_of_neg_of_pos h hpos⟩
    exact Int.not_lt.2 (Int.mul_nonneg hn (Int.le_of_lt hpos)) h
  have habs : (n * Binary64.decimalOne).natAbs = n.natAbs * Binary64.decimalOne := by
    rw [Int.natAbs_mul, Int.natAbs_natCast]
  unfold shown
  rw [habs, positional_whole]
  simp only [hsign]
  cases n with
  | ofNat m => exact String.empty_append
  | negSucc m =>
    rw [if_pos (Int.negSucc_lt_zero m)]
    rfl

namespace KeyCodec

/-- The key of a finite double shows its shortest decimal. -/
theorem canonicalize_float_of_isFinite [CustomKey κ] (codec : KeyCodec κ) {x : Binary64}
    (h : x.isFinite = true) :
    codec.canonicalize (.float x) = .ok ⟨shown (x.signedAs x.shortest)⟩ := by
  have htext : floatText x = .ok (shown (x.signedAs x.shortest)) := by
    rw [floatText, if_pos h]
    split
    · next hzero =>
      have hshown := shown_whole 0
      rw [Int.zero_mul] at hshown
      rw [Binary64.shortest_of_magnitude_eq_zero hzero, Binary64.signedAs_zero, hshown]
      rfl
    · next hzero =>
      have hpos : 0 < x.shortest := Binary64.shortest_pos (Nat.pos_of_ne_zero hzero)
      rw [Binary64.text_of_isFinite h hzero, shown, Binary64.natAbs_signedAs]
      simp only [Binary64.signedAs_lt_zero_iff hpos]
  rw [canonicalize, htext]
  rfl

/-- The key of a number is the text of what is written for it. -/
theorem canonicalize_of_number [CustomKey κ] (codec : KeyCodec κ) {a : KeyInput κ} {p : ℚ}
    (h : a.number? = some p) :
    codec.canonicalize a = .ok ⟨shown a.written⟩ := by
  cases a with
  | int n =>
    have hwritten : (KeyInput.int n : KeyInput κ).written = n.toInt * Binary64.decimalOne := rfl
    rw [canonicalize, hwritten, shown_whole]
  | uint n =>
    have hwritten : (KeyInput.uint n : KeyInput κ).written = n.toNat * Binary64.decimalOne := rfl
    rw [canonicalize, hwritten, shown_whole]
    rfl
  | float x =>
    have hfinite : x.isFinite = true := by
      by_contra hnot
      simp only [KeyInput.number?, if_neg hnot] at h
      exact absurd h (Option.some_ne_none p).symm
    exact canonicalize_float_of_isFinite codec hfinite
  | _ => exact absurd h (Option.some_ne_none p).symm

/-- Keys of numbers compare like the numbers, unless an integer is compared with a double beyond
`2 ^ 53` that is written as another integer than it is. The key of such a double is that of the
integer that is written, so it is not the key of the integer that it is. -/
theorem canonicalize_eq_iff [CustomKey κ] (codec : KeyCodec κ) {a b : KeyInput κ} {p q : ℚ}
    (ha : a.number? = some p) (hb : b.number? = some q) :
    ∃ k l, codec.canonicalize a = .ok k ∧ codec.canonicalize b = .ok l ∧
      (a.Comparable b → (k = l ↔ p = q)) ∧ (¬a.Comparable b → ¬(k = l ∧ p = q)) := by
  have hkeys : (⟨shown a.written⟩ : Key) = ⟨shown b.written⟩ ↔ a.written = b.written :=
    ⟨fun h => shown_injective (congrArg Key.text h), fun h =>
      congrArg (fun n => Key.mk (shown n)) h⟩
  refine ⟨_, _, codec.canonicalize_of_number ha, codec.canonicalize_of_number hb, ?_⟩
  rw [hkeys, ← KeyInput.exact_eq_iff ha hb]
  exact KeyInput.written_eq_iff ha hb

/-- The double `4.0` has the key of the integer. -/
theorem canonicalize_eq_iff_of_four :
    let _ : CustomKey Empty := ⟨Empty.elim⟩
    let codec : KeyCodec Empty := .empty
    let x : Binary64 := ⟨0x4010000000000000⟩
    ∃ k, codec.canonicalize (.float x) = .ok k ∧ codec.canonicalize (.int 4) = .ok k := by
  intro _ codec x
  have hscaled : x.scaled = 4 * 2 ^ (1074 : Nat) := by decide +kernel
  have hsmall : x.magnitude < 2 ^ 53 * 2 ^ (1074 : Nat) := by decide +kernel
  have hx : (KeyInput.float x : KeyInput Empty).number? = some 4 := by
    rw [KeyInput.number?_float (by decide), Binary64.value_of_scaled hscaled]
    rfl
  obtain ⟨k, l, hk, hl, heq, -⟩ := codec.canonicalize_eq_iff hx (b := .int 4) (q := 4) rfl
  have hkeys : k = l := (heq (.inl hsmall)).2 rfl
  exact ⟨k, hk, hkeys ▸ hl⟩

/-- The double `2 ^ 63` is written as another integer, so its key is not the one of `2 ^ 63` as an
integer but the one of the integer that is written. -/
theorem whole_float_key_ne :
    let _ : CustomKey Empty := ⟨Empty.elim⟩
    let codec : KeyCodec Empty := .empty
    let x : Binary64 := ⟨0x43e0000000000000⟩
    let n : KeyInput Empty := .uint 9223372036854775808
    (KeyInput.float x : KeyInput Empty).number? = n.number? ∧
      codec.canonicalize (.float x) = .ok ⟨"9223372036854776000"⟩ ∧
      codec.canonicalize n = .ok ⟨"9223372036854775808"⟩ ∧
      codec.canonicalize (.uint 9223372036854776000) = .ok ⟨"9223372036854776000"⟩ := by
  intro _ codec x n
  have hfinite : x.isFinite = true := by decide
  have hscaled : x.scaled = 9223372036854775808 * 2 ^ (1074 : Nat) := by decide +kernel
  refine ⟨?_, ?_, rfl, rfl⟩
  · rw [KeyInput.number?_float hfinite, Binary64.value_of_scaled hscaled]
    rfl
  · have hwritten : x.signedAs x.shortest = 9223372036854776000 * Binary64.decimalOne := by
      rw [Binary64.shortest_two_pow_63 (by decide) (by decide)]
      exact Int.natCast_mul 9223372036854776000 Binary64.decimalOne
    rw [codec.canonicalize_float_of_isFinite hfinite, hwritten, shown_whole]
    rfl

end KeyCodec

end ClusterMap
