import ClusterMap.Number.Binary64
import ClusterMap.Number.Integer

/-!
# Reading decimal numerals as doubles

A numeral is a sign or none, digits with a point among, before or after them, and a power of ten
behind an `e` on request; the words `inf`, `infinity` and `nan` are read too, in any case. Its value
is rounded once to the nearest double. The exponent is bounded: digits that follow once it has
reached `exponentLimit` do not count. Main statements: `ofExponentDigits_lt`, the bound;
`ofExponentDigits_eq_ofDigits`, an exponent below the limit is the number that its digits write.
-/

namespace ClusterMap.Number

/-- The double nearest to `digits * 10 ^ scale`. A scale at which the result is zero or infinite
whatever the digits is not raised to the power. -/
def ofDecimal (negative : Bool) (digits : Nat) (scale : Int) : Binary64 :=
  if digits = 0 ∨ scale + Nat.log2 digits < -400 then .signed negative 0
  else if 400 < scale then .infinity negative
  else if 0 ≤ scale then .nearest negative (digits * 10 ^ scale.toNat * 2 ^ (1074 : Nat)) 1
  else .nearest negative (digits * 2 ^ (1074 : Nat)) (10 ^ (-scale).toNat)

/-- A run of digits with at most one point, and what follows: the digits before and after the
point. -/
def splitPoint (cs : List Char) : List Char × List Char × List Char :=
  let whole := cs.takeWhile Char.isDigit
  match cs.dropWhile Char.isDigit with
  | '.' :: rest => (whole, rest.takeWhile Char.isDigit, rest.dropWhile Char.isDigit)
  | rest => (whole, [], rest)

/-! ## Exponents -/

/-- An exponent that has reached this takes no further digit. -/
def exponentLimit : Nat := 65536

/-- One digit more of an exponent. -/
def extendExponent (n : Nat) (c : Char) : Nat :=
  if n < exponentLimit then 10 * n + digitValue c else n

/-- The exponent that a run of digits writes, the digits after the limit left out. -/
def ofExponentDigits (cs : List Char) : Nat := cs.foldl extendExponent 0

/-- The power of ten at the end of a numeral: none written is zero. -/
def readExponent? : List Char → Option Int
  | [] => some 0
  | c :: rest => if c = 'e' ∨ c = 'E' then readSigned? ofExponentDigits rest else none

/-- An exponent is less than ten times the limit. -/
theorem ofExponentDigits_lt {cs : List Char} (h : cs.all Char.isDigit = true) :
    ofExponentDigits cs < 10 * exponentLimit := by
  suffices H : ∀ n, n < 10 * exponentLimit → cs.foldl extendExponent n < 10 * exponentLimit from
    H 0 (by decide)
  induction cs with
  | nil => exact fun n hn => hn
  | cons c rest ih =>
    intro n hn
    simp only [List.all_cons, Bool.and_eq_true] at h
    refine ih h.2 _ ?_
    have hc : digitValue c ≤ 9 := digitValue_le h.1
    unfold extendExponent
    split <;> omega

/-- Below the limit an exponent is the number that its digits write. -/
theorem ofExponentDigits_eq_ofDigits {cs : List Char} (h : ofDigits cs < exponentLimit) :
    ofExponentDigits cs = ofDigits cs := by
  suffices H : ∀ rs : List Char, ofDigits rs.reverse < exponentLimit →
      ofExponentDigits rs.reverse = ofDigits rs.reverse by
    simpa using H cs.reverse (by simpa using h)
  intro rs
  induction rs with
  | nil => exact fun _ => rfl
  | cons c rs ih =>
    intro hlt
    rw [List.reverse_cons, ofDigits_append_singleton] at hlt ⊢
    have hrs := ih (by omega)
    simp only [ofExponentDigits, List.foldl_append, List.foldl_cons, List.foldl_nil] at hrs ⊢
    rw [hrs, extendExponent, if_pos (by omega)]

/-! ## Numerals -/

/-- The double that a text writes, with nothing before or after the numeral. -/
def readBinary64? (cs : List Char) : Option Binary64 :=
  let (negative, body) := splitSign cs
  let name := String.ofList (body.map Char.toLower)
  if name = "inf" ∨ name = "infinity" then some (.infinity negative)
  else if name = "nan" then some .nan
  else
    let (whole, fraction, rest) := splitPoint body
    if whole = [] ∧ fraction = [] then none
    else (readExponent? rest).map fun exponent =>
      ofDecimal negative (ofDigits (whole ++ fraction)) (exponent - fraction.length)

end ClusterMap.Number
