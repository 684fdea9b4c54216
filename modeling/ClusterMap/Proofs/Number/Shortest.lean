import ClusterMap.Number.Shortest
import ClusterMap.Proofs.Query.Numbers
import Mathlib.Algebra.Ring.Int.Defs
import Mathlib.Algebra.Ring.Nat

/-!
# What the text of a double tells

The numbers that round to one double are apart from those that round to another one, and the
shortest decimal is one of them; so it tells the absolute value. Where the step of a double is at
most one, no whole number but itself rounds to it, and it is written as it is if it is whole. Main
statements: `magnitude_eq_of_contains`, no number rounds to two doubles; `shortest_eq_iff`, the
decimal tells the absolute value; `shortest_eq_iff_of_unit_le`, the whole numbers among small
doubles; `positional_injective`, a text without an exponent tells its number.
-/

namespace ClusterMap.Number

namespace Interval

variable {i : Interval} {value : Nat}

/-! ## Decimal grids -/

/-- The search ends in the interval if it begins there. -/
theorem contains_coarsest (h : i.contains value = true) (places : Nat) :
    i.contains (i.coarsest value places) = true := by
  induction places with
  | zero => exact h
  | succ places ih =>
    simp only [coarsest]
    split
    · next hbelow =>
      rw [Bool.and_eq_true] at hbelow
      exact hbelow.1
    · split
      · assumption
      · exact ih

/-- A step of the search tries the two neighbours of the value on one grid. -/
theorem coarsest_succ_cases (i : Interval) (value places : Nat) :
    (∃ n, i.contains (n * 10 ^ (places + 1)) = true ∧
      i.coarsest value (places + 1) = n * 10 ^ (places + 1)) ∨
      i.coarsest value (places + 1) = i.coarsest value places ∧
        i.contains (value / 10 ^ (places + 1) * 10 ^ (places + 1)) = false ∧
          i.contains ((value / 10 ^ (places + 1) + 1) * 10 ^ (places + 1)) = false := by
  rw [Nat.succ_mul]
  simp only [coarsest]
  split
  · next hbelow =>
    rw [Bool.and_eq_true] at hbelow
    exact .inl ⟨_, hbelow.1, rfl⟩
  · next hbelow =>
    split
    · next habove =>
      rw [← Nat.succ_mul] at habove ⊢
      exact .inl ⟨_, habove, rfl⟩
    · next habove =>
      have habove' := Bool.eq_false_iff.2 habove
      refine .inr ⟨rfl, Bool.eq_false_iff.2 fun h => hbelow ?_, habove'⟩
      rw [h, habove']
      rfl

/-- A grid without a point in the interval has no coarser one that has one. -/
theorem coarsest_of_none {m places : Nat} (hm : m ≤ places)
    (hnone : ∀ n, i.contains (n * 10 ^ (m + 1)) = false) :
    i.coarsest value places = i.coarsest value m := by
  induction places with
  | zero => rw [Nat.le_zero.1 hm]
  | succ places ih =>
    obtain rfl | hlt := Nat.eq_or_lt_of_le hm
    · rfl
    · obtain ⟨n, hcontains, -⟩ | ⟨hstep, -⟩ := i.coarsest_succ_cases value places
      · have hsplit : n * 10 ^ (places + 1) = n * 10 ^ (places - m) * 10 ^ (m + 1) := by
          rw [Nat.mul_assoc, ← Nat.pow_add]
          congr 2
          omega
        rw [hsplit, hnone] at hcontains
        contradiction
      · rw [hstep, ih (Nat.le_of_lt_succ hlt)]

/-- The only point of a grid in the interval is found if it is next above the value and no coarser
grid has one. -/
theorem coarsest_eq_of_only {m places found : Nat} (hm : m + 1 ≤ places)
    (hnone : ∀ n, i.contains (n * 10 ^ (m + 1 + 1)) = false)
    (habove : i.contains ((value / 10 ^ (m + 1) + 1) * 10 ^ (m + 1)) = true)
    (honly : ∀ n, i.contains (n * 10 ^ (m + 1)) = true → n * 10 ^ (m + 1) = found) :
    i.coarsest value places = found := by
  rw [coarsest_of_none hm hnone]
  obtain ⟨n, hn, hfound⟩ | ⟨-, -, hout⟩ := i.coarsest_succ_cases value m
  · rw [hfound, honly n hn]
  · rw [habove] at hout
    contradiction

/-- A value on a grid of which no other point lies in the interval is found. -/
theorem coarsest_eq_self {m places : Nat} (hm : m ≤ places) (hpos : 0 < m) (hvalue : 10 ^ m ∣ value)
    (hcontains : i.contains value = true)
    (honly : ∀ n, i.contains (n * 10 ^ m) = true → n * 10 ^ m = value) :
    i.coarsest value places = value := by
  induction places with
  | zero => omega
  | succ places ih =>
    obtain ⟨n, hn, hfound⟩ | ⟨hstep, hbelow, -⟩ := i.coarsest_succ_cases value places
    · have hsplit : n * 10 ^ (places + 1) = n * 10 ^ (places + 1 - m) * 10 ^ m := by
        rw [Nat.mul_assoc, ← Nat.pow_add]
        congr 2
        omega
      rw [hfound, hsplit]
      exact honly _ (hsplit ▸ hn)
    · obtain rfl | hlt := Nat.eq_or_lt_of_le hm
      · rw [Nat.div_mul_cancel hvalue, hcontains] at hbelow
        contradiction
      · rw [hstep, ih (Nat.le_of_lt_succ hlt)]

end Interval

namespace Binary64

variable {x y : Binary64}

/-! ## Rounding intervals -/

/-- A significand has fifty-three bits. -/
theorem significand_lt (x : Binary64) : x.significand < 2 ^ 53 := by
  have hfraction : x.fraction < 2 ^ 52 := Nat.mod_lt _ (Nat.two_pow_pos 52)
  unfold significand
  split <;> omega

/-- Beyond the first unit a significand has all of its bits. -/
theorem le_significand (h : 0 < x.unit) : 2 ^ 52 ≤ x.significand := by
  have hexponent : x.exponent ≠ 0 := by
    unfold unit at h
    omega
  rw [significand, if_neg hexponent]
  exact Nat.le_add_right _ _

/-- The lower end of what rounds to a double, in quarters of `2 ^ -1074`. -/
def lower (x : Binary64) : Nat :=
  4 * x.magnitude - if x.significand = 2 ^ 52 ∧ 0 < x.unit then 2 ^ x.unit else 2 * 2 ^ x.unit

/-- The upper end of what rounds to a double, in quarters of `2 ^ -1074`. -/
def upper (x : Binary64) : Nat := 4 * x.magnitude + 2 * 2 ^ x.unit

theorem five_pow_pos (k : Nat) : 0 < 5 ^ k := Nat.pow_pos (by decide)

/-- What the rounding interval of a double contains: its borders belong to it if the significand
is even. -/
theorem contains_iff {n : Nat} :
    x.roundingInterval.contains n = true ↔
      x.lower * 5 ^ (1076 : Nat) ≤ n ∧ n ≤ x.upper * 5 ^ (1076 : Nat) ∧
        (x.significand % 2 = 1 → x.lower * 5 ^ (1076 : Nat) < n ∧
          n < x.upper * 5 ^ (1076 : Nat)) := by
  have hlow : x.roundingInterval.low = x.lower * 5 ^ (1076 : Nat) := by
    simp only [roundingInterval, lower, decimal, Nat.sub_mul]
    split <;> rfl
  have hhigh : x.roundingInterval.high = x.upper * 5 ^ (1076 : Nat) := by
    simp only [roundingInterval, upper, decimal, Nat.add_mul]
  have hclosed : x.roundingInterval.closed = decide (x.significand % 2 = 0) := rfl
  rw [Interval.contains, hlow, hhigh, hclosed]
  generalize x.lower * 5 ^ (1076 : Nat) = low
  generalize x.upper * 5 ^ (1076 : Nat) = high
  obtain heven | hodd := Nat.mod_two_eq_zero_or_one x.significand
  · simp [heven]
  · simp only [hodd, Nat.one_ne_zero, decide_false, Bool.false_eq_true, if_false, Bool.and_eq_true,
      decide_eq_true_eq, forall_const]
    omega

/-- The next unit is twice as wide. -/
theorem two_mul_two_pow_le {j k : Nat} (h : j < k) : 2 * 2 ^ j ≤ 2 ^ k := by
  rw [← Nat.pow_succ']
  exact Nat.pow_le_pow_right (by decide) h

/-- A greater double has a unit that is not less. -/
theorem unit_le_of_magnitude_le (h : x.magnitude ≤ y.magnitude) : x.unit ≤ y.unit := by
  refine Nat.le_of_not_lt fun hlt => ?_
  have hx : 2 ^ 52 * 2 ^ x.unit ≤ x.magnitude := Nat.mul_le_mul_right _ (le_significand (by omega))
  have hy : y.magnitude ≤ (2 ^ 53 - 1) * 2 ^ y.unit :=
    Nat.mul_le_mul_right _ (Nat.le_sub_one_of_lt y.significand_lt)
  have hsteps : 2 * 2 ^ y.unit ≤ 2 ^ x.unit := two_mul_two_pow_le hlt
  have hpos : 0 < 2 ^ y.unit := Nat.two_pow_pos _
  omega

/-- What rounds to a double ends where what rounds to a greater one begins, or before; and of two
ends that meet, one is left out. -/
theorem upper_le_lower (h : x.magnitude < y.magnitude) :
    x.upper ≤ y.lower ∧ (x.significand % 2 = 0 → y.significand % 2 = 0 → x.upper < y.lower) := by
  have hx := x.significand_lt
  have hpos : 0 < 2 ^ x.unit := Nat.two_pow_pos _
  obtain heq | hlt := Nat.eq_or_lt_of_le (unit_le_of_magnitude_le (Nat.le_of_lt h))
  · have hsignificand : x.significand < y.significand := by
      unfold magnitude at h
      rw [← heq] at h
      exact Nat.lt_of_mul_lt_mul_right h
    have hmin : ¬(y.significand = 2 ^ 52 ∧ 0 < y.unit) := fun hy => by
      have hxmin := le_significand (x := x) (by omega)
      omega
    have hgap : ∀ d, x.significand + d ≤ y.significand →
        x.magnitude + d * 2 ^ x.unit ≤ y.magnitude := by
      intro d hd
      have hmul := Nat.mul_le_mul_right (2 ^ x.unit) hd
      rw [Nat.add_mul] at hmul
      rwa [magnitude, magnitude, ← heq]
    have hone := hgap 1 hsignificand
    rw [upper, lower, if_neg hmin, ← heq]
    refine ⟨by omega, fun hxeven hyeven => ?_⟩
    have htwo := hgap 2 (by omega)
    omega
  · have hy : 2 ^ 52 ≤ y.significand := le_significand (by omega)
    have hsteps : 2 * 2 ^ x.unit ≤ 2 ^ y.unit := two_mul_two_pow_le hlt
    have hxmag : ∀ m, x.significand ≤ m → x.magnitude ≤ m * 2 ^ x.unit :=
      fun m hm => Nat.mul_le_mul_right _ hm
    have hymag : ∀ m, m ≤ y.significand → m * 2 ^ y.unit ≤ y.magnitude :=
      fun m hm => Nat.mul_le_mul_right _ hm
    have hmost := hxmag (2 ^ 53 - 1) (by omega)
    have hleast := hymag (2 ^ 52) hy
    rw [upper, lower]
    split
    · -- The step below a power of two is the half of the step above it.
      refine ⟨by omega, fun hxeven _ => ?_⟩
      have hmost' := hxmag (2 ^ 53 - 2) (by omega)
      omega
    · next hmin =>
      have hleast' := hymag (2 ^ 52 + 1) (by omega)
      exact ⟨by omega, fun _ _ => by omega⟩

/-- No number rounds to two doubles. -/
theorem magnitude_le_of_contains {n : Nat} (hx : x.roundingInterval.contains n = true)
    (hy : y.roundingInterval.contains n = true) : y.magnitude ≤ x.magnitude := by
  refine Nat.le_of_not_lt fun hlt => ?_
  obtain ⟨hends, hmeet⟩ := upper_le_lower hlt
  obtain ⟨-, hupper, hxodd⟩ := contains_iff.1 hx
  obtain ⟨hlower, -, hyodd⟩ := contains_iff.1 hy
  have hscaled : x.upper * 5 ^ (1076 : Nat) ≤ y.lower * 5 ^ (1076 : Nat) :=
    Nat.mul_le_mul_right _ hends
  have hpos := five_pow_pos 1076
  have hstrict : x.significand % 2 = 0 → y.significand % 2 = 0 →
      x.upper * 5 ^ (1076 : Nat) < y.lower * 5 ^ (1076 : Nat) :=
    fun hxeven hyeven => Nat.mul_lt_mul_of_pos_right (hmeet hxeven hyeven) hpos
  generalize x.upper * 5 ^ (1076 : Nat) = upper at *
  generalize y.lower * 5 ^ (1076 : Nat) = lower at *
  obtain hxeven | hxodd' := Nat.mod_two_eq_zero_or_one x.significand
  · obtain hyeven | hyodd' := Nat.mod_two_eq_zero_or_one y.significand
    · have := hstrict hxeven hyeven
      omega
    · have := (hyodd hyodd').1
      omega
  · have := (hxodd hxodd').2
    omega

/-- Rounding intervals of different magnitudes have nothing in common. -/
theorem magnitude_eq_of_contains {n : Nat} (hx : x.roundingInterval.contains n = true)
    (hy : y.roundingInterval.contains n = true) : x.magnitude = y.magnitude :=
  Nat.le_antisymm (magnitude_le_of_contains hy hx) (magnitude_le_of_contains hx hy)

/-! ## The shortest decimal -/

theorem decimal_eq (x : Binary64) : x.decimal = 4 * x.magnitude * 5 ^ (1076 : Nat) := rfl

/-- A double is within its rounding interval. -/
theorem contains_decimal (x : Binary64) : x.roundingInterval.contains x.decimal = true := by
  have hpos := five_pow_pos 1076
  have hstep : 0 < 2 ^ x.unit := Nat.two_pow_pos _
  have hlower : x.lower ≤ 4 * x.magnitude := Nat.sub_le _ _
  have hupper : 4 * x.magnitude < x.upper := by
    unfold upper
    omega
  rw [contains_iff, decimal_eq]
  refine ⟨Nat.mul_le_mul_right _ hlower, Nat.mul_le_mul_right _ (Nat.le_of_lt hupper),
    fun hodd => ⟨?_, ?_⟩⟩
  · refine Nat.mul_lt_mul_of_pos_right ?_ hpos
    have hmagnitude : 0 < x.magnitude := Nat.mul_pos (by omega) hstep
    unfold lower
    split <;> omega
  · exact Nat.mul_lt_mul_of_pos_right hupper hpos

/-- The shortest decimal rounds to the double. -/
theorem contains_shortest (x : Binary64) : x.roundingInterval.contains x.shortest = true :=
  Interval.contains_coarsest x.contains_decimal _

/-- The rounding interval of a double but zero is above zero. -/
theorem lower_pos (h : 0 < x.magnitude) : 0 < x.lower := by
  have hsignificand : 0 < x.significand := Nat.pos_of_mul_pos_right h
  have hmagnitude : 1 * 2 ^ x.unit ≤ x.magnitude := Nat.mul_le_mul_right _ hsignificand
  have hstep : 0 < 2 ^ x.unit := Nat.two_pow_pos _
  unfold lower
  split <;> omega

/-- The shortest decimal of a double that is no zero is beyond the lower end of what rounds to the
smallest double. -/
theorem five_pow_le_shortest (h : 0 < x.magnitude) : 5 ^ (1076 : Nat) ≤ x.shortest := by
  obtain ⟨hlower, -, -⟩ := contains_iff.1 x.contains_shortest
  exact Nat.le_trans (Nat.le_mul_of_pos_left _ (lower_pos h)) hlower

/-- The shortest decimal of a double but zero is not zero. -/
theorem shortest_pos (h : 0 < x.magnitude) : 0 < x.shortest :=
  Nat.lt_of_lt_of_le (five_pow_pos 1076) (five_pow_le_shortest h)

/-- The shortest decimal of zero is zero. -/
theorem shortest_of_magnitude_eq_zero (h : x.magnitude = 0) : x.shortest = 0 := by
  have hdecimal : x.decimal = 0 := by simp only [decimal_eq, h, Nat.mul_zero, Nat.zero_mul]
  rw [shortest, hdecimal]
  rfl

/-- The absolute value alone decides on the shortest decimal. -/
theorem shortest_congr (h : x.magnitude = y.magnitude) : x.shortest = y.shortest := by
  have hunit : x.unit = y.unit :=
    Nat.le_antisymm (unit_le_of_magnitude_le (Nat.le_of_eq h))
      (unit_le_of_magnitude_le (Nat.le_of_eq h.symm))
  have hsignificand : x.significand = y.significand := by
    unfold magnitude at h
    rw [hunit] at h
    exact Nat.eq_of_mul_eq_mul_right (Nat.two_pow_pos _) h
  simp only [shortest, roundingInterval, decimal, hunit, hsignificand, h]

/-- The shortest decimal tells the absolute value. -/
theorem shortest_eq_iff : x.shortest = y.shortest ↔ x.magnitude = y.magnitude :=
  ⟨fun h => magnitude_eq_of_contains (h ▸ x.contains_shortest) y.contains_shortest, shortest_congr⟩

/-- Decimal units tell magnitudes apart. -/
theorem decimal_eq_iff : x.decimal = y.decimal ↔ x.magnitude = y.magnitude := by
  rw [decimal_eq, decimal_eq, Nat.mul_left_inj (Nat.ne_of_gt (five_pow_pos 1076)),
    Nat.mul_right_inj (by decide)]

/-! ## Whole numbers -/

/-- A power of ten in binary and decimal parts. -/
theorem ten_pow_add_two (k : Nat) : 10 ^ (k + 2) = 4 * 2 ^ k * 5 ^ (k + 2) := by
  have hten : 10 ^ (k + 2) = 2 ^ (k + 2) * 5 ^ (k + 2) := Nat.mul_pow 2 5 (k + 2)
  rw [hten, Nat.pow_add 2 k 2, Nat.mul_comm (2 ^ k)]

theorem ten_pow_pos (k : Nat) : 0 < 10 ^ k := Nat.pow_pos (by decide)

theorem decimalOne_eq_ten_pow : decimalOne = 10 ^ (1076 : Nat) := by rw [decimalOne]

theorem decimalOne_pos : 0 < decimalOne := by
  unfold decimalOne
  exact ten_pow_pos 1076

/-- One in decimal units, in powers of two and five. -/
theorem decimalOne_eq : decimalOne = 4 * 2 ^ (1074 : Nat) * 5 ^ (1076 : Nat) := by
  have hten := ten_pow_add_two 1074
  simpa only [decimalOne, Nat.reduceAdd] using hten

/-- A unit of `2 ^ -1074` in units of `10 ^ -1076`. -/
def binaryUnit : Nat := 4 * 5 ^ (1076 : Nat)

theorem binaryUnit_pos : 0 < binaryUnit := by
  have hpos : ∀ k : Nat, 0 < 4 * 5 ^ k := fun k => Nat.mul_pos (by decide) (five_pow_pos k)
  unfold binaryUnit
  exact hpos 1076

/-- A double in decimal units is its magnitude times the binary unit. -/
theorem decimal_eq_mul (x : Binary64) : x.decimal = x.magnitude * binaryUnit := by
  rw [decimal_eq, binaryUnit, Nat.mul_comm 4, Nat.mul_assoc]

/-- One in decimal units is its magnitude times the binary unit. -/
theorem decimalOne_eq_mul : decimalOne = 2 ^ (1074 : Nat) * binaryUnit := by
  have hcomm : ∀ k l : Nat, 4 * 2 ^ k * 5 ^ l = 2 ^ k * (4 * 5 ^ l) :=
    fun k l => by rw [Nat.mul_comm 4, Nat.mul_assoc]
  rw [decimalOne_eq, binaryUnit]
  exact hcomm 1074 1076

/-- Where steps are at most one, no whole number but itself rounds to a double. -/
theorem eq_of_contains_of_unit_le (hunit : x.unit ≤ 1074) {m : Nat}
    (h : x.roundingInterval.contains (m * decimalOne) = true) : m * decimalOne = x.decimal := by
  obtain ⟨t, ht⟩ : ∃ t, t = m * 2 ^ (1074 - x.unit) := ⟨_, rfl⟩
  have hwhole : m * decimalOne = 4 * (t * 2 ^ x.unit) * 5 ^ (1076 : Nat) := by
    rw [ht, Nat.mul_assoc m, ← Nat.pow_add, Nat.sub_add_cancel hunit, decimalOne_eq]
    simp only [Nat.mul_left_comm, Nat.mul_assoc]
  rw [hwhole] at h ⊢
  obtain ⟨hlower, hupper, -⟩ := contains_iff.1 h
  have hlower' := Nat.le_of_mul_le_mul_right hlower (five_pow_pos 1076)
  have hupper' := Nat.le_of_mul_le_mul_right hupper (five_pow_pos 1076)
  have hpos : 0 < 2 ^ x.unit := Nat.two_pow_pos _
  have hends : 4 * x.magnitude ≤ x.lower + 2 * 2 ^ x.unit := by
    unfold lower
    split <;> omega
  have hsame : t = x.significand := by
    obtain hlt | heq | hgt := Nat.lt_trichotomy t x.significand
    · have hmul : (t + 1) * 2 ^ x.unit ≤ x.magnitude := Nat.mul_le_mul_right _ hlt
      rw [Nat.add_mul] at hmul
      omega
    · exact heq
    · have hmul : (x.significand + 1) * 2 ^ x.unit ≤ t * 2 ^ x.unit := Nat.mul_le_mul_right _ hgt
      rw [Nat.add_mul] at hmul
      have hmagnitude : x.significand * 2 ^ x.unit = x.magnitude := rfl
      unfold upper at hupper'
      omega
  rw [hsame]
  rfl

/-- Where steps are at most one, a double is written as a whole number just if it is that number. -/
theorem shortest_eq_iff_of_unit_le (hunit : x.unit ≤ 1074) {m : Nat} :
    x.shortest = m * decimalOne ↔ x.decimal = m * decimalOne := by
  refine ⟨fun h => ?_, fun h => ?_⟩
  · exact (eq_of_contains_of_unit_le hunit (h ▸ x.contains_shortest)).symm
  · obtain rfl | hm := Nat.eq_zero_or_pos m
    · rw [Nat.zero_mul] at h ⊢
      have hmagnitude : x.magnitude = 0 := by
        rw [decimal_eq] at h
        have hpos := five_pow_pos 1076
        obtain hzero | hzero := Nat.mul_eq_zero.1 h <;> omega
      exact shortest_of_magnitude_eq_zero hmagnitude
    · have hplaces : 1076 ≤ (Nat.repr x.decimal).length - 1 := by
        have hlength : ¬(Nat.repr x.decimal).length ≤ 1076 := by
          have hle : decimalOne ≤ m * decimalOne := Nat.le_mul_of_pos_left _ hm
          rw [Nat.length_repr_le_iff (by decide), h, ← decimalOne]
          exact Nat.not_lt.2 hle
        omega
      have hdvd : decimalOne ∣ x.decimal := h ▸ Nat.dvd_mul_left decimalOne m
      have honly : ∀ n, x.roundingInterval.contains (n * decimalOne) = true →
          n * decimalOne = x.decimal := fun n =>
        eq_of_contains_of_unit_le hunit
      unfold decimalOne at hdvd honly
      have hfound : x.shortest = x.decimal :=
        Interval.coarsest_eq_self hplaces (by decide) hdvd x.contains_decimal honly
      rw [hfound, h]

/-- Where steps are whole numbers, a whole number rounds to a double if it is at most half a step
away. -/
theorem contains_whole_iff {k : Nat} (hunit : x.unit = 1074 + k) {n : Nat} :
    x.roundingInterval.contains (n * decimalOne) = true ↔
      4 * (x.significand * 2 ^ k) ≤ 4 * n + (if x.significand = 2 ^ 52 then 2 ^ k else 2 * 2 ^ k) ∧
        4 * n ≤ 4 * (x.significand * 2 ^ k) + 2 * 2 ^ k ∧
          (x.significand % 2 = 1 →
            4 * (x.significand * 2 ^ k) < 4 * n +
              (if x.significand = 2 ^ 52 then 2 ^ k else 2 * 2 ^ k) ∧
              4 * n < 4 * (x.significand * 2 ^ k) + 2 * 2 ^ k) := by
  have hpos : 0 < x.unit := by omega
  have hsplit : ∀ j, 2 ^ (j + k) = 2 ^ k * 2 ^ j := fun j => by rw [Nat.pow_add, Nat.mul_comm]
  have hpow : 2 ^ x.unit = 2 ^ k * 2 ^ (1074 : Nat) := hunit ▸ hsplit 1074
  have hmagnitude : x.magnitude = x.significand * 2 ^ k * 2 ^ (1074 : Nat) := by
    rw [magnitude, hpow, Nat.mul_assoc]
  have hn : n * decimalOne = 4 * n * 2 ^ (1074 : Nat) * 5 ^ (1076 : Nat) := by
    rw [decimalOne_eq]
    simp only [Nat.mul_assoc, Nat.mul_left_comm]
  have hupper : x.upper = (4 * (x.significand * 2 ^ k) + 2 * 2 ^ k) * 2 ^ (1074 : Nat) := by
    rw [upper, hmagnitude, hpow]
    simp only [Nat.add_mul, Nat.mul_assoc]
  have hlower : x.lower =
      (4 * (x.significand * 2 ^ k) - if x.significand = 2 ^ 52 then 2 ^ k else 2 * 2 ^ k) *
        2 ^ (1074 : Nat) := by
    rw [lower, hmagnitude, hpow]
    split
    · next h => simp only [if_pos h.1, Nat.sub_mul, Nat.mul_assoc]
    · next h => simp only [if_neg fun hmin => h ⟨hmin, hpos⟩, Nat.sub_mul, Nat.mul_assoc]
  have hbelow : (if x.significand = 2 ^ 52 then 2 ^ k else 2 * 2 ^ k) ≤
      4 * (x.significand * 2 ^ k) := by
    have hleast : 1 * 2 ^ k ≤ x.significand * 2 ^ k :=
      Nat.mul_le_mul_right _ (by have := le_significand hpos; omega)
    split <;> omega
  rw [contains_iff, hn, hupper, hlower]
  simp only [Nat.mul_le_mul_right_iff (five_pow_pos 1076), Nat.mul_lt_mul_right (five_pow_pos 1076),
    Nat.mul_le_mul_right_iff (Nat.two_pow_pos 1074), Nat.mul_lt_mul_right (Nat.two_pow_pos 1074)]
  generalize (if x.significand = 2 ^ 52 then 2 ^ k else 2 * 2 ^ k) = below at *
  omega

end Binary64

/-! ## Text -/

/-- Digits are worth less than a one with as many zeros. -/
theorem ofDigitChars_lt {cs : List Char} (h : cs.all Char.isDigit = true) :
    Nat.ofDigitChars 10 cs 0 < 10 ^ cs.length := by
  suffices hinit : ∀ init, Nat.ofDigitChars 10 cs init < (init + 1) * 10 ^ cs.length by
    simpa using hinit 0
  induction cs with
  | nil => simp
  | cons c cs ih =>
    intro init
    rw [List.all_cons, Bool.and_eq_true] at h
    have hdigit : c.toNat - '0'.toNat ≤ 9 := digitValue_le h.1
    rw [Nat.ofDigitChars_cons, List.length_cons, Nat.pow_succ', ← Nat.mul_assoc]
    exact Nat.lt_of_lt_of_le (ih h.2 _) (Nat.mul_le_mul_right _ (by omega))

/-- Every number has a digit. -/
theorem repr_ne_nil (n : Nat) : (Nat.repr n).toList ≠ [] := by
  rw [Nat.repr_eq_ofList_toDigits, String.toList_ofList]
  exact Nat.toDigits_ne_nil

/-- A number is written with digits. -/
theorem all_isDigit_repr (n : Nat) : (Nat.repr n).toList.all Char.isDigit = true := by
  rw [Nat.repr_eq_ofList_toDigits, String.toList_ofList, List.all_eq_true]
  exact fun c hc => Nat.isDigit_of_mem_toDigits (by decide) (by decide) hc

/-- The digits of a number are read as the number. -/
theorem ofDigitChars_repr (n : Nat) : Nat.ofDigitChars 10 (Nat.repr n).toList 0 = n := by
  rw [Nat.repr_eq_ofList_toDigits, String.toList_ofList, Nat.ofDigitChars_ten_toDigits]

/-- Without its leading one, a numeral that begins with a one writes what is beyond the power of
ten. -/
theorem ofDigitChars_drop_one {r k : Nat} (hk : 0 < k) (hr : r < 10 ^ k) :
    ((Nat.repr (r + 10 ^ k)).toList.drop 1).length = k ∧
      Nat.ofDigitChars 10 ((Nat.repr (r + 10 ^ k)).toList.drop 1) 0 = r := by
  have hlength : (Nat.repr (r + 10 ^ k)).toList.length = k + 1 := by
    have hmost := (Nat.length_repr_le_iff (n := r + 10 ^ k) (k := k + 1) (by omega)).2 (by
      rw [Nat.pow_succ]
      omega)
    have hleast := mt (Nat.length_repr_le_iff (n := r + 10 ^ k) hk).1 (by omega)
    rw [String.length_toList]
    omega
  have hall := all_isDigit_repr (r + 10 ^ k)
  have hworth := ofDigitChars_repr (r + 10 ^ k)
  cases hcs : (Nat.repr (r + 10 ^ k)).toList with
  | nil => simp [hcs] at hlength
  | cons c cs =>
    rw [hcs] at hlength hall hworth
    rw [List.length_cons] at hlength
    have hcount : cs.length = k := by omega
    rw [List.all_cons, Bool.and_eq_true] at hall
    have hlt := ofDigitChars_lt hall.2
    rw [Nat.ofDigitChars_cons, Nat.ofDigitChars_eq_ofDigitChars_zero, hcount] at hworth
    rw [hcount] at hlt
    refine ⟨hcount, ?_⟩
    rw [List.drop_one, List.tail_cons]
    generalize 10 * 0 + (c.toNat - '0'.toNat) = digit at hworth
    generalize 10 ^ k = one at *
    match digit with
    | 0 => omega
    | 1 => omega
    | digit + 2 =>
      rw [Nat.mul_add] at hworth
      omega

/-- Adding one in front of a fraction and dropping it pads the fraction with zeros. -/
theorem ofDigitChars_drop_decimalOne {r : Nat} (hr : r < Binary64.decimalOne) :
    ((Nat.repr (r + Binary64.decimalOne)).toList.drop 1).length = 1076 ∧
      Nat.ofDigitChars 10 ((Nat.repr (r + Binary64.decimalOne)).toList.drop 1) 0 = r := by
  unfold Binary64.decimalOne at hr ⊢
  exact ofDigitChars_drop_one (r := r) (k := 1076) (by decide) hr

/-- The digits of a number of units of `10 ^ -1076` behind the point. -/
def fractionDigits (n : Nat) : List Char :=
  (((Nat.repr (n % Binary64.decimalOne + Binary64.decimalOne)).toList.drop 1).reverse.dropWhile
    (· == '0')).reverse

/-- The characters of a positional number: the whole part, and a point before the fraction if
there is one. -/
theorem toList_positional (n : Nat) :
    (Binary64.positional n).toList = (Nat.repr (n / Binary64.decimalOne)).toList ++
      if fractionDigits n = [] then [] else '.' :: fractionDigits n := by
  have hpositional : Binary64.positional n = if fractionDigits n =
      [] then Nat.repr (n / Binary64.decimalOne) else
      Nat.repr (n / Binary64.decimalOne) ++ "." ++ String.ofList (fractionDigits n) := rfl
  rw [hpositional]
  split
  · exact (List.append_nil _).symm
  · simp only [String.toList_append, String.toList_ofList, List.append_assoc]
    rfl

/-- Behind the point stand the digits of the fraction without the zeros at their end. -/
theorem fractionDigits_append (n : Nat) :
    ∃ zeros, (Nat.repr (n % Binary64.decimalOne + Binary64.decimalOne)).toList.drop 1 =
      fractionDigits n ++ List.replicate zeros '0' := by
  unfold fractionDigits
  generalize (Nat.repr (n % Binary64.decimalOne + Binary64.decimalOne)).toList.drop 1 = digits
  refine ⟨(digits.reverse.takeWhile (· == '0')).length, ?_⟩
  have hzeros : (digits.reverse.takeWhile (· == '0')).reverse =
      List.replicate (digits.reverse.takeWhile (· == '0')).length '0' := by
    refine List.eq_replicate_iff.2 ⟨List.length_reverse, fun c hc => ?_⟩
    simpa using List.mem_takeWhile_imp (List.mem_reverse.1 hc)
  rw [← hzeros, ← List.reverse_append, List.takeWhile_append_dropWhile, List.reverse_reverse]

/-- A fraction is written with digits. -/
theorem all_isDigit_fractionDigits (n : Nat) : (fractionDigits n).all Char.isDigit = true := by
  obtain ⟨zeros, hdigits⟩ := fractionDigits_append n
  have hall := all_isDigit_repr (n % Binary64.decimalOne + Binary64.decimalOne)
  have hdrop : (fractionDigits n ++ List.replicate zeros '0').all Char.isDigit = true := by
    rw [← hdigits, List.all_eq_true]
    exact fun c hc => List.all_eq_true.1 hall c (List.mem_of_mem_drop hc)
  rw [List.all_append, Bool.and_eq_true] at hdrop
  exact hdrop.1

/-- A text without an exponent holds digits and a point. -/
theorem isDigit_or_eq_of_mem_positional {n : Nat} {c : Char}
    (h : c ∈ (Binary64.positional n).toList) :
    c.isDigit = true ∨ c = '.' := by
  have hwhole := List.all_eq_true.1 (all_isDigit_repr (n / Binary64.decimalOne))
  have hfraction := List.all_eq_true.1 (all_isDigit_fractionDigits n)
  rw [toList_positional, List.mem_append] at h
  obtain h | h := h
  · exact .inl (hwhole c h)
  · split at h
    · contradiction
    · exact (List.mem_cons.1 h).symm.imp_left (hfraction c)

/-- The digits behind the point tell the fraction. -/
theorem mod_eq_of_fractionDigits (n : Nat) :
    n % Binary64.decimalOne =
      10 ^ (1076 - (fractionDigits n).length) * Nat.ofDigitChars 10 (fractionDigits n) 0 := by
  obtain ⟨zeros, hdigits⟩ := fractionDigits_append n
  obtain ⟨hlength, hworth⟩ := ofDigitChars_drop_decimalOne (Nat.mod_lt n Binary64.decimalOne_pos)
  rw [hdigits] at hlength hworth
  rw [List.length_append, List.length_replicate] at hlength
  rw [Nat.ofDigitChars_append, Nat.ofDigitChars_replicate_zero] at hworth
  rw [← hworth]
  congr 2
  omega

/-- A positional number is read as its whole part and its fraction, and nothing is left. -/
theorem splitPoint_positional (n : Nat) :
    splitPoint (Binary64.positional n).toList =
      ((Nat.repr (n / Binary64.decimalOne)).toList, fractionDigits n, []) := by
  rw [toList_positional]
  split
  · next hnone => rw [List.append_nil, splitPoint_digits (all_isDigit_repr _), hnone]
  · exact splitPoint_fraction (all_isDigit_repr _) (all_isDigit_fractionDigits n)

/-- Beyond zero a finite double is written as a sign and its shortest decimal. -/
theorem Binary64.text_of_isFinite {x : Binary64} (h : x.isFinite = true) (hzero : x.magnitude ≠ 0) :
    x.text = (if x.negative then "-" else "") ++ Binary64.positional x.shortest := by
  have hexponent : x.exponent ≠ 2047 := by simpa [Binary64.isFinite] using h
  have hnan : x.isNaN = false := by simp [Binary64.isNaN, hexponent]
  have hinfinite : x.isInfinite = false := by simp [Binary64.isInfinite, hexponent]
  simp only [Binary64.text, hnan, hinfinite, if_neg hzero, Bool.false_eq_true, if_false]

/-- A text without an exponent tells its number. -/
theorem positional_injective {m n : Nat} (h : Binary64.positional m = Binary64.positional n) :
    m = n := by
  have hsplit := congrArg (fun s => splitPoint s.toList) h
  simp only [splitPoint_positional, Prod.mk.injEq, and_true] at hsplit
  obtain ⟨hwhole, hfraction⟩ := hsplit
  have hdiv : m / Binary64.decimalOne = n / Binary64.decimalOne := by
    rw [← ofDigitChars_repr (m / _), hwhole, ofDigitChars_repr]
  have hmod : m % Binary64.decimalOne = n % Binary64.decimalOne := by
    rw [mod_eq_of_fractionDigits, mod_eq_of_fractionDigits, hfraction]
  rw [← Nat.div_add_mod m Binary64.decimalOne, hdiv, hmod, Nat.div_add_mod]

/-- Digits that are worth nothing are zeros. -/
theorem eq_zero_of_ofDigitChars_eq_zero {cs : List Char} (hall : cs.all Char.isDigit = true)
    (h : Nat.ofDigitChars 10 cs 0 = 0) : ∀ c ∈ cs, c = '0' := by
  induction cs with
  | nil => exact fun c hc => by contradiction
  | cons c cs ih =>
    rw [List.all_cons, Bool.and_eq_true] at hall
    rw [Nat.ofDigitChars_cons, Nat.ofDigitChars_eq_ofDigitChars_zero, Nat.add_eq_zero_iff] at h
    have hdigit : 10 * 0 + (c.toNat - '0'.toNat) = 0 :=
      (Nat.mul_eq_zero.1 h.1).resolve_left (Nat.ne_of_gt (Nat.pow_pos (by decide)))
    have hleast : '0'.toNat ≤ c.toNat := by
      have hc := hall.1
      simp only [Char.isDigit, Bool.and_eq_true, decide_eq_true_eq, ge_iff_le,
        UInt32.le_iff_toNat_le] at hc
      exact hc.1
    have hzero : c = '0' := Char.toNat_inj.1 (by omega)
    exact List.forall_mem_cons.2 ⟨hzero, ih hall.2 h.2⟩

/-- A whole number is written as such. -/
theorem positional_whole (m : Nat) :
    Binary64.positional (m * Binary64.decimalOne) = Nat.repr m := by
  have hmod : m * Binary64.decimalOne % Binary64.decimalOne = 0 := Nat.mul_mod_left _ _
  have hfraction : fractionDigits (m * Binary64.decimalOne) = [] := by
    obtain ⟨-, hworth⟩ := ofDigitChars_drop_decimalOne Binary64.decimalOne_pos
    have hall := all_isDigit_repr (0 + Binary64.decimalOne)
    have hzeros := eq_zero_of_ofDigitChars_eq_zero
      (List.all_eq_true.2 fun c hc => List.all_eq_true.1 hall c (List.mem_of_mem_drop hc)) hworth
    rw [fractionDigits, hmod, List.reverse_eq_nil_iff, List.dropWhile_eq_nil_iff]
    exact fun c hc => beq_iff_eq.2 (hzeros c (List.mem_reverse.1 hc))
  refine String.toList_injective ?_
  rw [toList_positional, if_pos hfraction, List.append_nil,
    Nat.mul_div_cancel m Binary64.decimalOne_pos]

end ClusterMap.Number
