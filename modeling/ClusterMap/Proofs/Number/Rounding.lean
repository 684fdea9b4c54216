import ClusterMap.Proofs.Number.Shortest

/-!
# Rounding to doubles

A double is its sign and the word behind it (`payload`), and that word is the significand with the
unit before it. So what lies between the ends of the numbers that round to a double is rounded to
it, rounding keeps the order of numbers, and a number that is a double is rounded to itself. Main
statements: `nearestWord_of_between`; `nearestWord_mono`; `ofInt_equals`, an integer that is a
double; `scaled_ofInt`, integers up to `2 ^ 53` are doubles; `ofInt_equals_ofInt_iff`, which
integers of 64 bits are rounded as one beyond 64 bits is.
-/

namespace ClusterMap.Number.Binary64

variable {x y : Binary64}

/-! ## Words without a sign -/

/-- The word behind the sign bit. -/
def payload (x : Binary64) : Nat := x.word % 2 ^ 63

/-- The word of a double has 64 bits. -/
theorem word_lt (x : Binary64) : x.word < 2 ^ 64 := x.bits.toNat_lt

/-- The word without its sign is exponent and fraction. -/
theorem payload_eq (x : Binary64) : x.payload = x.exponent * 2 ^ 52 + x.fraction := by
  have hword := x.word_lt
  unfold payload exponent fraction
  omega

/-- The exponent has eleven bits. -/
theorem exponent_lt (x : Binary64) : x.exponent < 2048 := Nat.mod_lt _ (by decide)

/-- The fraction has fifty-two bits. -/
theorem fraction_lt (x : Binary64) : x.fraction < 2 ^ 52 := Nat.mod_lt _ (by decide)

/-- Doubles with one unit have words that follow each other. -/
theorem payload_eq_unit_add (x : Binary64) : x.payload = x.unit * 2 ^ 52 + x.significand := by
  rw [payload_eq, unit, significand]
  split <;> omega

/-- What is behind infinity is no number. -/
theorem isNaN_iff : x.isNaN = true ↔ infinityWord < x.payload := by
  have hexponent := x.exponent_lt
  have hfraction := x.fraction_lt
  rw [payload_eq, isNaN, infinityWord, Bool.and_eq_true, decide_eq_true_eq, decide_eq_true_eq]
  omega

/-- What is before infinity is finite. -/
theorem isFinite_iff : x.isFinite = true ↔ x.payload < infinityWord := by
  have hexponent := x.exponent_lt
  have hfraction := x.fraction_lt
  rw [payload_eq, isFinite, infinityWord, decide_eq_true_eq]
  omega

/-- The word behind the sign tells the absolute value. -/
theorem magnitude_eq_iff : x.magnitude = y.magnitude ↔ x.payload = y.payload := by
  constructor
  · intro h
    have hunit : x.unit = y.unit :=
      Nat.le_antisymm (unit_le_of_magnitude_le (Nat.le_of_eq h))
        (unit_le_of_magnitude_le (Nat.le_of_eq h.symm))
    unfold magnitude at h
    rw [hunit] at h
    rw [payload_eq_unit_add, payload_eq_unit_add, hunit,
      Nat.eq_of_mul_eq_mul_right (Nat.two_pow_pos _) h]
  · intro h
    have hx := x.fraction_lt
    have hy := y.fraction_lt
    rw [payload_eq, payload_eq] at h
    have hexponent : x.exponent = y.exponent := by omega
    have hfraction : x.fraction = y.fraction := by omega
    simp only [magnitude, significand, unit, hexponent, hfraction]

/-- A word is read with the unit that it begins with. -/
theorem magnitude_of_payload {shift n : Nat} (h : x.payload = shift * 2 ^ 52 + n) (hn : n ≤ 2 ^ 53)
    (hleast : shift = 0 ∨ 2 ^ 52 ≤ n) : x.magnitude = n * 2 ^ shift := by
  have hfraction := x.fraction_lt
  rw [payload_eq] at h
  obtain hsmall | hlarge := Nat.lt_or_ge n (2 ^ 52)
  · have hzero : shift = 0 := by omega
    have hexponent : x.exponent = 0 := by omega
    have hsignificand : x.significand = n := by
      rw [significand, if_pos hexponent]
      omega
    rw [magnitude, hsignificand, unit, hexponent, hzero]
  · obtain hmiddle | hmost := Nat.lt_or_ge n (2 ^ 53)
    · have hexponent : x.exponent = shift + 1 := by omega
      have hsignificand : x.significand = n := by
        rw [significand, if_neg (by omega)]
        omega
      rw [magnitude, hsignificand, unit, hexponent, Nat.add_sub_cancel]
    · have hexponent : x.exponent = shift + 2 := by omega
      have hsignificand : x.significand = 2 ^ 52 := by
        rw [significand, if_neg (by omega)]
        omega
      have hunit : x.unit = shift + 1 := by
        rw [unit, hexponent]
        omega
      have hn' : n = 2 ^ 52 * 2 := by omega
      rw [magnitude, hsignificand, hunit, hn', Nat.pow_succ 2 shift, Nat.mul_comm (2 ^ shift) 2,
        Nat.mul_assoc]

/-! ## Signs -/

section Signed

variable {m n : Nat} {s t : Bool}

/-- The sign is the first bit of the word. -/
theorem word_signed (h : n < 2 ^ 63) : (signed s n).word = if s then 2 ^ 63 + n else n := by
  refine word_ofWord ?_
  split <;> omega

/-- The sign does not change the rest of the word. -/
theorem payload_signed (h : n < 2 ^ 63) : (signed s n).payload = n := by
  rw [payload, word_signed h]
  split <;> omega

/-- A double with a sign has it. -/
theorem negative_signed (h : n < 2 ^ 63) : (signed s n).negative = s := by
  rw [negative, word_signed h]
  cases s
  · exact decide_eq_false (by simpa using h)
  · exact decide_eq_true (Nat.le_add_right _ _)

/-- A double is its sign and the word behind it. -/
theorem signed_payload (x : Binary64) : signed x.negative x.payload = x := by
  have hword := x.word_lt
  have hsplit : (if x.negative then 2 ^ 63 + x.payload else x.payload) = x.word := by
    unfold negative payload
    split
    · next h =>
      rw [decide_eq_true_eq] at h
      omega
    · next h =>
      rw [decide_eq_true_eq] at h
      omega
  rw [signed, hsplit, ofWord_word]

/-- Two doubles have the same value if magnitude and sign agree, or both are zero. -/
theorem scaled_eq_iff :
    x.scaled = y.scaled ↔ x.magnitude = y.magnitude ∧
    (x.negative = y.negative ∨ y.magnitude = 0) := by
  unfold scaled
  cases x.negative <;> cases y.negative <;> simp <;> omega

/-- Only the word zero, with either sign, stands for zero. -/
theorem magnitude_eq_zero_iff : x.magnitude = 0 ↔ x.payload = 0 := by
  have hzero : (signed false 0).magnitude = 0 := by decide
  have hiff := magnitude_eq_iff (x := x) (y := signed false 0)
  rwa [hzero, payload_signed (by decide)] at hiff

/-- Two numbers are equal if their words are, but for the sign of zero. -/
theorem equals_iff (hx : x.isNaN = false) (hy : y.isNaN = false) :
    x.equals y = true ↔ x.payload = y.payload ∧ (x.negative = y.negative ∨ y.payload = 0) := by
  rw [equals, hx, hy, Bool.not_false, Bool.true_and, Bool.true_and, beq_iff_eq, scaled_eq_iff,
    magnitude_eq_iff, magnitude_eq_zero_iff]

/-- A word up to infinity stands for a number, with either sign. -/
theorem isNaN_signed (h : n ≤ infinityWord) : (signed s n).isNaN = false := by
  have hlt : n < 2 ^ 63 := Nat.lt_of_le_of_lt h (by decide)
  rw [Bool.eq_false_iff, ne_eq, isNaN_iff, payload_signed hlt]
  exact Nat.not_lt.2 h

/-- Two words up to infinity with their signs are equal numbers if they agree, or both are zero. -/
theorem signed_equals_signed_iff (hm : m ≤ infinityWord) (hn : n ≤ infinityWord) :
    (signed s m).equals (signed t n) = true ↔ m = n ∧ (s = t ∨ n = 0) := by
  have hlt : ∀ {k}, k ≤ infinityWord → k < 2 ^ 63 := fun h => Nat.lt_of_le_of_lt h (by decide)
  rw [equals_iff (isNaN_signed hm) (isNaN_signed hn), payload_signed (hlt hm),
    payload_signed (hlt hn), negative_signed (hlt hm), negative_signed (hlt hn)]

end Signed

/-- Doubles that are equal as numbers are equal to the same doubles. -/
theorem equals_congr (h : x.equals y = true) (z : Binary64) : z.equals x = z.equals y := by
  simp only [equals, Bool.and_eq_true, beq_iff_eq] at h
  simp only [equals, h.1.1, h.1.2, h.2]

/-! ## Rounding -/

section Rounding

variable {a b d n shift : Nat}

/-- What the whole number nearest to a quotient is. -/
theorem roundEven_eq (hd : 0 < d) (hlow : 2 * (n * d) ≤ 2 * a + d) (hhigh : 2 * a ≤ 2 * (n * d) + d)
    (hodd : n % 2 = 1 → 2 * (n * d) < 2 * a + d ∧ 2 * a < 2 * (n * d) + d) : roundEven a d = n := by
  have hsplit : a / d * d + a % d = a := by rw [Nat.mul_comm]; exact Nat.div_add_mod a d
  have hmod := Nat.mod_lt a hd
  have hup : ∀ k, n + k ≤ a / d → n * d + k * d ≤ a / d * d := fun k hk => by
    rw [← Nat.add_mul]
    exact Nat.mul_le_mul_right d hk
  have hdown : ∀ k, a / d + k ≤ n → a / d * d + k * d ≤ n * d := fun k hk => by
    rw [← Nat.add_mul]
    exact Nat.mul_le_mul_right d hk
  -- The quotient without its remainder is the number or the one before it.
  obtain hlt | heq | hgt := Nat.lt_trichotomy (a / d) n
  · have hone := hdown 1 hlt
    have hnext : n = a / d + 1 := by
      refine Nat.le_antisymm (Nat.le_of_not_lt fun h => ?_) hlt
      have htwo := hdown 2 h
      omega
    unfold roundEven
    split
    · omega
    · split
      · exact hnext.symm
      · omega
  · unfold roundEven
    rw [← heq] at hlow hhigh hodd ⊢
    split
    · rfl
    · split
      · omega
      · omega
  · have hone := hup 1 hgt
    omega

/-- Rounding to a word scales the quotient to a significand of fifty-three bits. -/
theorem nearestWord_eq (a d : Nat) :
    nearestWord a d =
      min ((Nat.log2 (a / d) - 52) * 2 ^ 52 + roundEven a (d * 2 ^ (Nat.log2 (a / d) - 52)))
        infinityWord := rfl

/-- Which unit a quotient is rounded to. -/
theorem log2_sub_eq {q : Nat} (hlt : q < 2 ^ (shift + 53))
    (hleast : shift = 0 ∨ 2 ^ (shift + 52) ≤ q) :
    Nat.log2 q - 52 = shift := by
  obtain rfl | hq := Nat.eq_zero_or_pos q
  · obtain rfl | hle := hleast
    · rfl
    · exact absurd hle (Nat.not_le.2 (Nat.two_pow_pos _))
  · have hupper := (Nat.log2_lt (Nat.ne_of_gt hq)).2 hlt
    obtain rfl | hle := hleast
    · omega
    · have hlower := (Nat.le_log2 (Nat.ne_of_gt hq)).2 hle
      omega

/-- Powers of two are collected. -/
theorem two_pow_mul_unit (k d shift : Nat) : 2 ^ k * (d * 2 ^ shift) = 2 ^ (shift + k) * d := by
  rw [Nat.pow_add, Nat.mul_comm d, ← Nat.mul_assoc, Nat.mul_comm (2 ^ k)]

/-- A quotient is rounded to a whole number of units, whichever unit it is that the quotient has
enough of. -/
theorem nearestWord_of_shift (hd : 0 < d) (hlt : a < 2 ^ 53 * (d * 2 ^ shift))
    (hleast : shift = 0 ∨ 2 ^ 52 * (d * 2 ^ shift) ≤ a) :
    nearestWord a d = min (shift * 2 ^ 52 + roundEven a (d * 2 ^ shift)) infinityWord := by
  have hshift : Nat.log2 (a / d) - 52 = shift := by
    rw [two_pow_mul_unit] at hlt hleast
    exact log2_sub_eq ((Nat.div_lt_iff_lt_mul hd).2 hlt)
      (hleast.imp_right (Nat.le_div_iff_mul_le hd).2)
  rw [nearestWord_eq, hshift]

/-- What is less than half a unit is rounded to zero. -/
theorem nearestWord_of_two_mul_lt (h : 2 * a < d) : nearestWord a d = 0 := by
  have hround : roundEven a (d * 2 ^ 0) = 0 :=
    roundEven_eq (by omega) (by omega) (by omega) fun hodd => by contradiction
  rw [nearestWord_of_shift (by omega) (by omega) (.inl rfl), hround]
  exact Nat.zero_min _

/-- A quotient is rounded to a finite double if the units are as many as the word says. -/
theorem nearestWord_eq_payload (hfinite : x.isFinite = true) (hd : 0 < d)
    (hlt : a < 2 ^ 53 * (d * 2 ^ shift)) (hleast : shift = 0 ∨ 2 ^ 52 * (d * 2 ^ shift) ≤ a)
    (hround : roundEven a (d * 2 ^ shift) = n) (hpayload : x.payload = shift * 2 ^ 52 + n) :
    nearestWord a d = x.payload := by
  rw [nearestWord_of_shift hd hlt hleast, hround, ← hpayload]
  exact Nat.min_eq_left (Nat.le_of_lt (isFinite_iff.1 hfinite))

/-- What lies between the ends of the numbers that round to a finite double is rounded to it. -/
theorem nearestWord_of_between (hfinite : x.isFinite = true) (hd : 0 < d)
    (hlow : x.lower * d ≤ 4 * a) (hhigh : 4 * a ≤ x.upper * d)
    (hodd : x.significand % 2 = 1 → x.lower * d < 4 * a ∧ 4 * a < x.upper * d) :
    nearestWord a d = x.payload := by
  have hmost : x.significand * (d * 2 ^ x.unit) ≤ (2 ^ 53 - 1) * (d * 2 ^ x.unit) :=
    Nat.mul_le_mul_right _ (Nat.le_sub_one_of_lt x.significand_lt)
  have hpos : 0 < d * 2 ^ x.unit := Nat.mul_pos hd (Nat.two_pow_pos _)
  have hmagnitude : x.magnitude * d = x.significand * (d * 2 ^ x.unit) := by
    rw [magnitude, Nat.mul_assoc, Nat.mul_comm d]
  have hunits : 2 ^ x.unit * d = d * 2 ^ x.unit := Nat.mul_comm _ _
  have hupper : x.upper * d = 4 * (x.significand * (d * 2 ^ x.unit)) + 2 * (d * 2 ^ x.unit) := by
    rw [upper, Nat.add_mul, Nat.mul_assoc, Nat.mul_assoc, hmagnitude, hunits]
  have hlt : a < 2 ^ 53 * (d * 2 ^ x.unit) := by omega
  by_cases hpower : x.significand = 2 ^ 52 ∧ 0 < x.unit
  · obtain ⟨hsignificand, hunit⟩ := hpower
    have hlower : x.lower * d = 4 * (x.significand * (d * 2 ^ x.unit)) - d * 2 ^ x.unit := by
      rw [lower, if_pos ⟨hsignificand, hunit⟩, Nat.sub_mul, Nat.mul_assoc, hmagnitude, hunits]
    rw [hsignificand] at hlower hupper
    obtain hgt | hle := Nat.lt_or_ge a (2 ^ 52 * (d * 2 ^ x.unit))
    · -- Below a power of two the unit is the half, and twice as many of it make the power.
      obtain ⟨k, hk⟩ : ∃ k, x.unit = k + 1 := ⟨x.unit - 1, by omega⟩
      have hhalf : d * 2 ^ x.unit = 2 * (d * 2 ^ k) := by rw [hk, Nat.pow_succ', Nat.mul_left_comm]
      have hround : roundEven a (d * 2 ^ k) = 2 ^ 53 :=
        roundEven_eq (by omega) (by omega) (by omega) (by omega)
      have hpayload : x.payload = k * 2 ^ 52 + 2 ^ 53 := by
        rw [payload_eq_unit_add, hsignificand, hk]
        omega
      exact nearestWord_eq_payload hfinite hd (by omega) (by omega) hround hpayload
    · have hround : roundEven a (d * 2 ^ x.unit) = 2 ^ 52 :=
        roundEven_eq hpos (by omega) (by omega) (by omega)
      exact nearestWord_eq_payload hfinite hd hlt (.inr hle) (hsignificand ▸ hround)
        x.payload_eq_unit_add
  · have hlower : x.lower * d = 4 * (x.significand * (d * 2 ^ x.unit)) - 2 * (d * 2 ^ x.unit) := by
      rw [lower, if_neg hpower, Nat.sub_mul, Nat.mul_assoc, Nat.mul_assoc, hmagnitude, hunits]
    have hleast : x.unit = 0 ∨ 2 ^ 52 * (d * 2 ^ x.unit) ≤ a := by
      obtain hzero | hunit := Nat.eq_zero_or_pos x.unit
      · exact .inl hzero
      · have hsignificand : 2 ^ 52 + 1 ≤ x.significand := by
          have := le_significand hunit
          omega
        have hleast := Nat.mul_le_mul_right (d * 2 ^ x.unit) hsignificand
        exact .inr (by omega)
    have hround : roundEven a (d * 2 ^ x.unit) = x.significand :=
      roundEven_eq hpos (by omega) (by omega) (by omega)
    exact nearestWord_eq_payload hfinite hd hlt hleast hround x.payload_eq_unit_add

/-- Ratios compare alike at both scales. -/
theorem le_iff_of_scale {f : Nat} (hd : 0 < d) (hf : 0 < f) (h : a * f = n * d) (k : Nat) :
    (k * f ≤ n ↔ k * d ≤ a) ∧ (n ≤ k * f ↔ a ≤ k * d) := by
  constructor
  · rw [← Nat.mul_le_mul_right_iff hd, ← h, Nat.mul_right_comm, Nat.mul_le_mul_right_iff hf]
  · rw [← Nat.mul_le_mul_right_iff hd, ← h, Nat.mul_right_comm, Nat.mul_le_mul_right_iff hf]

/-- A quotient that is in the interval of a finite double, in units of `10 ^ -1076`, is rounded to
it. -/
theorem nearestWord_of_contains (hfinite : x.isFinite = true) (hd : 0 < d)
    (hscale : 4 * a * 5 ^ (1076 : Nat) = n * d) (h : x.roundingInterval.contains n = true) :
    nearestWord a d = x.payload := by
  have hiff := le_iff_of_scale hd (five_pow_pos 1076) hscale
  obtain ⟨hlow, hhigh, hodd⟩ := contains_iff.1 h
  have hlower : x.lower * d ≤ 4 * a := (hiff _).1.1 hlow
  have hupper : 4 * a ≤ x.upper * d := (hiff _).2.1 hhigh
  refine nearestWord_of_between hfinite hd hlower hupper fun hsignificand => ?_
  obtain ⟨hlow', hhigh'⟩ := hodd hsignificand
  constructor
  · exact Nat.lt_of_not_le fun hnot => Nat.not_le.2 hlow' ((hiff _).2.2 hnot)
  · exact Nat.lt_of_not_le fun hnot => Nat.not_le.2 hhigh' ((hiff _).1.2 hnot)

/-- Rounding keeps the order of whole numbers, -/
theorem roundEven_mono (hd : 0 < d) (h : a ≤ b) : roundEven a d ≤ roundEven b d := by
  refine Nat.le_of_not_lt fun hlt => ?_
  have ha := (roundEven_close (a := a) hd).2.1
  have hb := (roundEven_close (a := b) hd).1
  have hmul : (roundEven b d + 1) * d ≤ roundEven a d * d := Nat.mul_le_mul_right d hlt
  rw [Nat.add_mul] at hmul
  have hab : a = b := by omega
  rw [hab] at hlt
  exact absurd hlt (Nat.lt_irrefl _)

/-- A quotient below `2 ^ 53` is rounded to that at most. -/
theorem roundEven_le (hlt : a < 2 ^ 53 * d) : roundEven a d ≤ 2 ^ 53 := by
  have hdiv : a / d < 2 ^ 53 :=
    (Nat.div_lt_iff_lt_mul (Nat.pos_of_mul_pos_left (Nat.lt_of_le_of_lt (Nat.zero_le a) hlt))).2 hlt
  unfold roundEven
  split
  · omega
  · split <;> omega

/-- A quotient of at least `2 ^ 52` is rounded to that at least. -/
theorem le_roundEven (hd : 0 < d) (hle : 2 ^ 52 * d ≤ a) : 2 ^ 52 ≤ roundEven a d := by
  have hdiv : 2 ^ 52 ≤ a / d := (Nat.le_div_iff_mul_le hd).2 hle
  unfold roundEven
  split
  · exact hdiv
  · split <;> omega

/-- Every quotient has a unit to which it is rounded. -/
theorem exists_shift (hd : 0 < d) (a : Nat) :
    ∃ shift, a < 2 ^ 53 * (d * 2 ^ shift) ∧ (shift = 0 ∨ 2 ^ 52 * (d * 2 ^ shift) ≤ a) := by
  refine ⟨Nat.log2 (a / d) - 52, ?_, ?_⟩
  · rw [two_pow_mul_unit, ← Nat.div_lt_iff_lt_mul hd]
    refine Nat.lt_of_lt_of_le Nat.lt_log2_self (Nat.pow_le_pow_right (by decide) ?_)
    omega
  · obtain hsmall | hlarge := Nat.lt_or_ge (Nat.log2 (a / d)) 52
    · exact .inl (by omega)
    · have hne : a / d ≠ 0 := fun hzero => by
        rw [hzero] at hlarge
        exact absurd hlarge (by decide)
      rw [two_pow_mul_unit, ← Nat.le_div_iff_mul_le hd, Nat.sub_add_cancel hlarge]
      exact .inr (Nat.log2_self_le hne)

/-- Rounding keeps the order of numbers. -/
theorem nearestWord_mono (hd : 0 < d) (h : a ≤ b) : nearestWord a d ≤ nearestWord b d := by
  obtain ⟨s, ha, hsa⟩ := exists_shift hd a
  obtain ⟨t, hb, htb⟩ := exists_shift hd b
  have hpos : ∀ k, 0 < d * 2 ^ k := fun k => Nat.mul_pos hd (Nat.two_pow_pos k)
  have hdouble : ∀ {j k}, j < k → 2 * (d * 2 ^ j) ≤ d * 2 ^ k := fun {j k} hjk => by
    rw [Nat.mul_left_comm]
    exact Nat.mul_le_mul_left d (two_mul_two_pow_le hjk)
  have hst : s ≤ t := Nat.le_of_not_lt fun hlt => by
    have hdouble := hdouble hlt
    omega
  rw [nearestWord_of_shift hd ha hsa, nearestWord_of_shift hd hb htb]
  refine Nat.le_min.2 ⟨Nat.le_trans (Nat.min_le_left _ _) ?_, Nat.min_le_right _ _⟩
  obtain rfl | hlt := Nat.eq_or_lt_of_le hst
  · exact Nat.add_le_add_left (roundEven_mono (hpos s) h) _
  · have hmost := roundEven_le ha
    have hleast := le_roundEven (hpos t) (htb.resolve_left (by omega))
    omega

/-- A double is rounded to itself. -/
theorem nearestWord_magnitude (hfinite : x.isFinite = true) (hd : 0 < d) :
    nearestWord (x.magnitude * d) d = x.payload := by
  have hstep : 0 < 2 ^ x.unit := Nat.two_pow_pos _
  have hlower : x.lower ≤ 4 * x.magnitude := Nat.sub_le _ _
  have hupper : 4 * x.magnitude < x.upper := by
    unfold upper
    omega
  have hsplit : 4 * (x.magnitude * d) = 4 * x.magnitude * d := (Nat.mul_assoc _ _ _).symm
  refine nearestWord_of_between hfinite hd ?_ ?_ fun hodd => ⟨?_, ?_⟩
  · rw [hsplit]
    exact Nat.mul_le_mul_right d hlower
  · rw [hsplit]
    exact Nat.mul_le_mul_right d (Nat.le_of_lt hupper)
  · have hmagnitude : 0 < x.magnitude := Nat.mul_pos (by omega) hstep
    have hlower' : x.lower < 4 * x.magnitude := by
      unfold lower
      split <;> omega
    rw [hsplit]
    exact Nat.mul_lt_mul_of_pos_right hlower' hd
  · rw [hsplit]
    exact Nat.mul_lt_mul_of_pos_right hupper hd

/-- A number of at most 53 bits, moved to the left, is a double, -/
theorem magnitude_nearest_of_lt {m k : Nat} (hm : m < 2 ^ 53) (hk : k ≤ 1900) (s : Bool) :
    (nearest s (m * 2 ^ k) 1).magnitude = m * 2 ^ k := by
  obtain ⟨shift, hlt, hleast⟩ := exists_shift Nat.one_pos (m * 2 ^ k)
  have hshift : shift ≤ k := Nat.le_of_not_lt fun hlarge => by
    have hbelow : m * 2 ^ k < 2 ^ 53 * 2 ^ k := Nat.mul_lt_mul_of_pos_right hm (Nat.two_pow_pos k)
    have hdouble : 2 * 2 ^ k ≤ 2 ^ shift := two_mul_two_pow_le hlarge
    omega
  obtain ⟨n, hn⟩ : ∃ n, m * 2 ^ k = n * 2 ^ shift :=
    ⟨m * 2 ^ (k - shift), by rw [Nat.mul_assoc, ← Nat.pow_add, Nat.sub_add_cancel hshift]⟩
  have hpos : 0 < 2 ^ shift := Nat.two_pow_pos shift
  have hnearest := nearestWord_of_shift Nat.one_pos hlt hleast
  rw [Nat.one_mul] at hlt hleast hnearest
  have hround : roundEven (m * 2 ^ k) (2 ^ shift) = n :=
    roundEven_eq hpos (by omega) (by omega) (by omega)
  have hmost : n < 2 ^ 53 := Nat.lt_of_mul_lt_mul_right (hn ▸ hlt)
  have hleast' : shift = 0 ∨ 2 ^ 52 ≤ n :=
    hleast.imp_right fun h => Nat.le_of_mul_le_mul_right (hn ▸ h) hpos
  have hword : nearestWord (m * 2 ^ k) 1 = shift * 2 ^ 52 + n := by
    rw [hnearest, hround]
    refine Nat.min_eq_left ?_
    unfold infinityWord
    omega
  rw [nearest, hword, hn]
  exact magnitude_of_payload (payload_signed (by omega)) (Nat.le_of_lt hmost) hleast'

/-- and so is the least number of one bit more. -/
theorem magnitude_nearest {m k : Nat} (hm : m ≤ 2 ^ 53) (hk : k < 1900) (s : Bool) :
    (nearest s (m * 2 ^ k) 1).magnitude = m * 2 ^ k := by
  obtain hlt | rfl := Nat.lt_or_eq_of_le hm
  · exact magnitude_nearest_of_lt hlt (Nat.le_of_lt hk) s
  · have hmove : 2 ^ 53 * 2 ^ k = 2 ^ 52 * 2 ^ (k + 1) := by
      rw [Nat.pow_succ']
      omega
    rw [hmove]
    exact magnitude_nearest_of_lt (by decide) hk s

end Rounding

/-! ## Integers -/

section Integers

variable {n b : Int}

/-- The sign of a double does not change its magnitude. -/
theorem natAbs_scaled (x : Binary64) : x.scaled.natAbs = x.magnitude := by
  unfold scaled
  split <;> omega

/-- A whole double has the magnitude of its number. -/
theorem natAbs_of_scaled (h : x.scaled = n * 2 ^ (1074 : Nat)) :
    n.natAbs * 2 ^ (1074 : Nat) = x.magnitude := by
  have habs : ∀ k : Nat, (n * 2 ^ k).natAbs = n.natAbs * 2 ^ k := fun k => by
    rw [Int.natAbs_mul, Int.natAbs_pow]
    rfl
  rw [← natAbs_scaled, h, habs]

/-- Rounding leaves room for the sign. -/
theorem nearestWord_lt (a d : Nat) : nearestWord a d < 2 ^ 63 :=
  Nat.lt_of_le_of_lt (nearestWord_le a d) (by decide)

/-- Whether a double is an integer. -/
def IsInteger (x : Binary64) (n : Int) : Prop := x.isFinite = true ∧ x.scaled = n * 2 ^ (1074 : Nat)

/-- An integer that is a double is widened to that double, up to the sign of a zero. -/
theorem ofInt_equals (hx : x.IsInteger n) : (ofInt n).equals x = true := by
  obtain ⟨hfinite, h⟩ := hx
  have hpayload : x.payload ≤ infinityWord := Nat.le_of_lt (isFinite_iff.1 hfinite)
  have hword : nearestWord (n.natAbs * 2 ^ (1074 : Nat)) 1 = x.payload := by
    rw [natAbs_of_scaled h, ← Nat.mul_one x.magnitude, nearestWord_magnitude hfinite Nat.one_pos]
  have hneg : x.scaled < 0 ↔ n < 0 := by
    have hpos : ∀ k : Nat, (0 : Int) < 2 ^ k := fun k => Int.pow_pos (by decide)
    have hiff := Int.mul_lt_mul_right (b := n) (c := 0) (hpos 1074)
    rwa [Int.zero_mul, ← h] at hiff
  have hsign : decide (n < 0) = x.negative ∨ x.payload = 0 := by
    have hscaled : x.scaled = if x.negative then -(x.magnitude : Int) else x.magnitude := rfl
    rw [← magnitude_eq_zero_iff]
    cases hnegative : x.negative with
    | true =>
      rw [hnegative, if_pos rfl] at hscaled
      rw [decide_eq_true_eq]
      omega
    | false =>
      rw [hnegative, if_neg Bool.false_ne_true] at hscaled
      rw [decide_eq_false_iff_not]
      omega
  have hequals : (signed (decide (n < 0)) x.payload).equals (signed x.negative x.payload) = true :=
    (signed_equals_signed_iff hpayload hpayload).2 ⟨rfl, hsign⟩
  rwa [x.signed_payload, ← hword] at hequals

/-- Integers up to `2 ^ 53` are doubles. -/
theorem scaled_ofInt (h : n.natAbs ≤ 2 ^ 53) : (ofInt n).scaled = n * 2 ^ (1074 : Nat) := by
  have hmagnitude : (ofInt n).magnitude = n.natAbs * 2 ^ (1074 : Nat) :=
    magnitude_nearest (k := 1074) h (by omega) (decide (n < 0))
  have hnegative : (ofInt n).negative = decide (n < 0) := negative_signed (nearestWord_lt _ _)
  have hsign : ∀ k : Nat, (if n < 0 then -((n.natAbs * 2 ^ k : Nat) : Int)
      else (n.natAbs * 2 ^ k : Nat)) = n * 2 ^ k :=
    fun k => by
      rw [Int.natCast_mul, ← Int.neg_mul, Int.natCast_pow]
      split
      · next hneg => rw [Int.ofNat_natAbs_of_nonpos (Int.le_of_lt hneg), Int.neg_neg]; rfl
      · next hneg => rw [Int.natAbs_of_nonneg (Int.not_lt.1 hneg)]; rfl
  rw [scaled, hmagnitude, hnegative, ← hsign]
  simp only [decide_eq_true_eq]

/-- Integers up to `2 ^ 53` are widened to different doubles. -/
theorem eq_of_ofInt_equals (hn : n.natAbs ≤ 2 ^ 53) (hx : x.IsInteger b)
    (h : (ofInt n).equals x = true) :
    n = b := by
  have hpos : ∀ k : Nat, (2 ^ k : Int) ≠ 0 := fun k => Int.ne_of_gt (Int.pow_pos (by decide))
  simp only [equals, Bool.and_eq_true, beq_iff_eq] at h
  rw [scaled_ofInt hn, hx.2] at h
  exact Int.eq_of_mul_eq_mul_right (hpos 1074) h.2

/-- A greater whole number is rounded to a word that is not less. -/
theorem nearestWord_whole_mono {i j : Nat} (h : i ≤ j) :
    nearestWord (i * 2 ^ (1074 : Nat)) 1 ≤ nearestWord (j * 2 ^ (1074 : Nat)) 1 :=
  nearestWord_mono Nat.one_pos (Nat.mul_le_mul_right _ h)

/-- A number beyond the words of 64 bits and one within them round to one double just at their
common end. -/
theorem nearestWord_whole_eq_iff {m k : Nat} (hm : 2 ^ 63 ≤ m) (hk : k ≤ 2 ^ 63) :
    nearestWord (m * 2 ^ (1074 : Nat)) 1 = nearestWord (k * 2 ^ (1074 : Nat)) 1 ↔
    m ≤ 2 ^ 63 + 1024 ∧ 2 ^ 63 - 512 ≤ k := by
  have hbelow : nearestWord ((2 ^ 63 - 513) * 2 ^ (1074 : Nat)) 1 <
      nearestWord (2 ^ 63 * 2 ^ (1074 : Nat)) 1 := by
    decide +kernel
  have hleast : nearestWord ((2 ^ 63 - 512) * 2 ^ (1074 : Nat)) 1 =
      nearestWord (2 ^ 63 * 2 ^ (1074 : Nat)) 1 := by
    decide +kernel
  have hmost : nearestWord ((2 ^ 63 + 1024) * 2 ^ (1074 : Nat)) 1 =
      nearestWord (2 ^ 63 * 2 ^ (1074 : Nat)) 1 := by
    decide +kernel
  have habove : nearestWord (2 ^ 63 * 2 ^ (1074 : Nat)) 1 <
      nearestWord ((2 ^ 63 + 1025) * 2 ^ (1074 : Nat)) 1 := by
    decide +kernel
  have hm' := nearestWord_whole_mono hm
  have hk' := nearestWord_whole_mono hk
  constructor
  · intro h
    refine ⟨Nat.le_of_not_lt fun hlarge => ?_, Nat.le_of_not_lt fun hsmall => ?_⟩
    · have hlarge' := nearestWord_whole_mono (i := 2 ^ 63 + 1025) hlarge
      omega
    · have hsmall' := nearestWord_whole_mono (j := 2 ^ 63 - 513) (Nat.le_sub_one_of_lt hsmall)
      omega
  · rintro ⟨hlarge, hsmall⟩
    have hlarge' := nearestWord_whole_mono hlarge
    have hsmall' := nearestWord_whole_mono hsmall
    omega

/-- Whether an integer beyond the words of 64 bits and one within them lie at the same end of these
words, so near to it that both round to the double there. -/
def MeetAtEnd (n b : Int) : Prop :=
  (2 ^ 63 ≤ n ∧ n ≤ 2 ^ 63 + 1024 ∧ 2 ^ 63 - 512 ≤ b) ∨
    (-2 ^ 63 - 1024 ≤ n ∧ n < -2 ^ 63 ∧ b ≤ -2 ^ 63 + 512)

/-- Which integers of 64 bits are widened to the double that an integer beyond 64 bits is rounded
to. -/
theorem ofInt_equals_ofInt_iff (hn : n < -2 ^ 63 ∨ 2 ^ 63 ≤ n) (hb : -2 ^ 63 ≤ b ∧ b < 2 ^ 63) :
    (ofInt n).equals (ofInt b) = true ↔ MeetAtEnd n b := by
  unfold MeetAtEnd
  have hwords := nearestWord_whole_eq_iff (m := n.natAbs) (k := b.natAbs) (by omega) (by omega)
  have hpos : nearestWord (n.natAbs * 2 ^ (1074 : Nat)) 1 ≠ 0 := by
    have hleast : 0 < nearestWord (2 ^ 63 * 2 ^ (1074 : Nat)) 1 := by decide +kernel
    have hmono := nearestWord_whole_mono (i := 2 ^ 63) (j := n.natAbs) (by omega)
    omega
  rw [ofInt, ofInt, nearest, nearest, signed_equals_signed_iff (nearestWord_le _ _)
    (nearestWord_le _ _), decide_eq_decide]
  constructor
  · rintro ⟨heq, hsign⟩
    obtain ⟨hmost, hleast⟩ := hwords.1 heq
    rw [← heq, or_iff_left hpos] at hsign
    omega
  · intro hends
    exact ⟨hwords.2 (by omega), .inl (by omega)⟩

end Integers

end ClusterMap.Number.Binary64
