import ClusterMap.Number.Binary64

/-!
# The shortest decimal text of a double

A double is written with the fewest decimal digits that are still read back as that double, and of
those with the digits nearest to its value. The search runs over decimal grids from the coarsest to
the finest on whole numbers of `10 ^ -1076`, in which a double and the ends of the interval that
rounds to it are all whole (`2 ^ -1076 = 5 ^ 1076 * 10 ^ -1076`, and a quarter of the smallest
double is `2 ^ -1076`).
-/

namespace ClusterMap.Number

/-- The numbers between two ends, with or without the ends. -/
structure Interval where
  low : Nat
  high : Nat
  closed : Bool

/-- Whether a number lies in an interval. -/
def Interval.contains (i : Interval) (n : Nat) : Bool :=
  if i.closed then i.low ≤ n && n ≤ i.high else i.low < n && n < i.high

/-- The point nearest to `value` of the coarsest decimal grid, with steps of at most `10 ^ places`,
that has a neighbour of `value` in the interval; of two equally near points, the greater. -/
def Interval.coarsest (i : Interval) (value : Nat) : (places : Nat) → Nat
  | 0 => value
  | places + 1 =>
    let step := 10 ^ (places + 1)
    let below := value / step * step
    let above := below + step
    if i.contains below && (!i.contains above || 2 * (value - below) < step) then below
    else if i.contains above then above
    else i.coarsest value places

namespace Binary64

/-- One in units of `10 ^ -1076`. -/
def decimalOne : Nat := 10 ^ (1076 : Nat)

/-- The absolute value of a finite double in units of `10 ^ -1076`. -/
def decimal (x : Binary64) : Nat := 4 * x.magnitude * 5 ^ (1076 : Nat)

/-- The numbers that round to the absolute value of a finite double, in units of `10 ^ -1076`: up to
half a step on either side, but only a quarter below a power of two, where the steps become half as
wide; the ends belong to it where the significand is even. -/
def roundingInterval (x : Binary64) : Interval :=
  let half := 2 * 2 ^ x.unit * 5 ^ (1076 : Nat)
  let halfBelow :=
    if x.significand = 2 ^ (52 : Nat) ∧ 0 < x.unit then 2 ^ x.unit * 5 ^ (1076 : Nat) else half
  ⟨x.decimal - halfBelow, x.decimal + half, x.significand % 2 = 0⟩

/-- The shortest decimal that reads back as the absolute value, in units of `10 ^ -1076`. -/
def shortest (x : Binary64) : Nat :=
  x.roundingInterval.coarsest x.decimal ((Nat.repr x.decimal).length - 1)

/-- A number of units of `10 ^ -1076` with a point and without an exponent; a whole number has no
point. -/
def positional (n : Nat) : String :=
  let whole := Nat.repr (n / decimalOne)
  let digits := (Nat.repr (n % decimalOne + decimalOne)).toList.drop 1
  let fraction := (digits.reverse.dropWhile (· == '0')).reverse
  if fraction = [] then whole else whole ++ "." ++ String.ofList fraction

/-- The text of a double. -/
def text (x : Binary64) : String :=
  if x.isNaN then "NaN"
  else
    let sign := if x.negative then "-" else ""
    sign ++ if x.isInfinite then "inf" else if x.magnitude = 0 then "0" else positional x.shortest

end Binary64

end ClusterMap.Number
