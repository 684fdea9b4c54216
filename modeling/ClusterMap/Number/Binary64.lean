import ClusterMap.Number.Integer

/-!
# Binary floating-point numbers of 64 bits

A double is its word of 64 bits: a sign, eleven bits of exponent and fifty-two of fraction. A finite
double is a whole number of units of `2 ^ -1074`, so equality and rounding are exact arithmetic on
integers (`scaled`, `nearestWord`). Main statements: `word_ofWord`, `roundEven_close` (at most half
a step away, a tie to the even neighbour).
-/

namespace ClusterMap.Number

/-- A double, as its bits; two of them are the same value of this type only if they agree bit for
bit. -/
structure Binary64 where
  bits : UInt64
  deriving DecidableEq, Repr

namespace Binary64

/-! ## Fields -/

/-- The bits as a number. -/
def word (x : Binary64) : Nat := x.bits.toNat

/-- The double whose bits write a number below `2 ^ 64`. -/
def ofWord (n : Nat) : Binary64 := ⟨UInt64.ofNat n⟩

/-- The sign bit. -/
def negative (x : Binary64) : Bool := 2 ^ (63 : Nat) ≤ x.word

/-- The exponent field. -/
def exponent (x : Binary64) : Nat := x.word / 2 ^ (52 : Nat) % 2048

/-- The fraction field. -/
def fraction (x : Binary64) : Nat := x.word % 2 ^ (52 : Nat)

/-- Whether a double is not a number. -/
def isNaN (x : Binary64) : Bool := x.exponent = 2047 && x.fraction ≠ 0

/-- Whether a double is one of the two infinities. -/
def isInfinite (x : Binary64) : Bool := x.exponent = 2047 && x.fraction = 0

/-- Whether a double stands for a real number. -/
def isFinite (x : Binary64) : Bool := x.exponent ≠ 2047

/-- A number below `2 ^ 64` is the word of its double. -/
theorem word_ofWord {n : Nat} (h : n < 2 ^ (64 : Nat)) : (ofWord n).word = n := by
  simp only [ofWord, word, UInt64.toNat_ofNat']
  exact Nat.mod_eq_of_lt h

/-- A double is the one of its word. -/
theorem ofWord_word (x : Binary64) : ofWord x.word = x := by
  simp [ofWord, word]

/-! ## Value -/

/-- The whole number in front of the unit: the fraction, and the leading one that the smallest
exponent lacks. -/
def significand (x : Binary64) : Nat :=
  if x.exponent = 0 then x.fraction else 2 ^ (52 : Nat) + x.fraction

/-- The unit of the significand is `2 ^ unit` times `2 ^ -1074`. -/
def unit (x : Binary64) : Nat := x.exponent - 1

/-- The absolute value in units of `2 ^ -1074`; for an infinity, a number beyond that of every
finite double. -/
def magnitude (x : Binary64) : Nat := x.significand * 2 ^ x.unit

/-- The value in units of `2 ^ -1074`. -/
def scaled (x : Binary64) : Int := if x.negative then -(x.magnitude : Int) else x.magnitude

/-- Numerical equality: the two zeros are equal, and NaN equals nothing. -/
def equals (x y : Binary64) : Bool := !x.isNaN && !y.isNaN && x.scaled == y.scaled

/-- Equality of doubles does not depend on their order. -/
theorem equals_comm (x y : Binary64) : x.equals y = y.equals x := by
  simp only [equals, Bool.and_comm x.isNaN.not, BEq.comm (a := x.scaled)]

/-! ## Rounding -/

/-- The whole number nearest to `a / d`, the even one of two that are equally near. -/
def roundEven (a d : Nat) : Nat :=
  if 2 * (a % d) < d then a / d
  else if d < 2 * (a % d) then a / d + 1
  else a / d + a / d % 2

/-- The result lies at most half a step from the quotient, and where it lies exactly half a step
away it is even. -/
theorem roundEven_close {a d : Nat} (hd : 0 < d) :
    2 * (a - roundEven a d * d) ≤ d ∧ 2 * (roundEven a d * d - a) ≤ d ∧
      (2 * (a % d) = d → roundEven a d % 2 = 0) := by
  have hsplit : a / d * d + a % d = a := by rw [Nat.mul_comm]; exact Nat.div_add_mod a d
  have hlt := Nat.mod_lt a hd
  have hsucc : (a / d + 1) * d = a / d * d + d := Nat.succ_mul _ _
  unfold roundEven
  split
  · exact ⟨by omega, by omega, fun h => by omega⟩
  · split
    · rw [hsucc]; exact ⟨by omega, by omega, fun h => by omega⟩
    · rcases Nat.mod_two_eq_zero_or_one (a / d) with hpar | hpar <;> rw [hpar]
      · rw [Nat.add_zero]; exact ⟨by omega, by omega, fun _ => hpar⟩
      · rw [hsucc]; exact ⟨by omega, by omega, fun _ => by omega⟩

/-- The word of an infinity without a sign. -/
def infinityWord : Nat := 2047 * 2 ^ (52 : Nat)

/-- The word, without a sign, of the double nearest to `a / d` units of `2 ^ -1074`. Doubles with
one exponent lie `2 ^ shift` units apart and their words follow each other, so the word is the
rounded count of steps beyond the words of the smaller exponents; what rounds beyond the last finite
double is infinite. -/
def nearestWord (a d : Nat) : Nat :=
  let shift := Nat.log2 (a / d) - 52
  min (shift * 2 ^ (52 : Nat) + roundEven a (d * 2 ^ shift)) infinityWord

/-- No quotient is rounded beyond infinity. -/
theorem nearestWord_le (a d : Nat) : nearestWord a d ≤ infinityWord := Nat.min_le_right _ _

/-- A word with a sign bit in front. -/
def signed (negative : Bool) (n : Nat) : Binary64 :=
  ofWord (if negative then 2 ^ (63 : Nat) + n else n)

/-- The double nearest to `a / d` units of `2 ^ -1074`, negated on request. -/
def nearest (negative : Bool) (a d : Nat) : Binary64 := signed negative (nearestWord a d)

/-- The double nearest to an integer. -/
def ofInt (n : Int) : Binary64 := nearest (n < 0) (n.natAbs * 2 ^ (1074 : Nat)) 1

/-- An infinity. -/
def infinity (negative : Bool) : Binary64 := signed negative infinityWord

/-- A NaN, the quiet one without a payload. -/
def nan : Binary64 := ofWord (infinityWord + 2 ^ (51 : Nat))

/-! ## Widening -/

/-- The double of the same value as a float of 32 bits: its unit is `2 ^ -149`, and a NaN keeps its
payload and becomes quiet. -/
def ofBinary32 (bits : UInt32) : Binary64 :=
  let n := bits.toNat
  let negative : Bool := 2 ^ (31 : Nat) ≤ n
  let exponent := n / 2 ^ (23 : Nat) % 256
  let fraction := n % 2 ^ (23 : Nat)
  if exponent = 255 then
    if fraction = 0 then infinity negative
    else signed negative (infinityWord + (2 ^ (51 : Nat) ||| fraction * 2 ^ (29 : Nat)))
  else
    let significand := if exponent = 0 then fraction else 2 ^ (23 : Nat) + fraction
    nearest negative (significand * 2 ^ (exponent - 1) * 2 ^ (1074 - 149 : Nat)) 1

end Binary64

end ClusterMap.Number
