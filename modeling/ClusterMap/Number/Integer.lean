/-!
# Integers as decimal text

Writing integers to base ten, with or without leading zeros, and reading them back with an optional
sign. Main statements: `ofDigits_append_singleton`, a further digit is worth ten times what stands
before it and itself; `readInteger?_digits`, a sign and digits are read as the number they write.
-/

namespace ClusterMap

/-! ## Powers

Powers of natural numbers, and the zero of their sums, are the ones of `Nat` in this namespace, also
where a module imports algebra that has its own. An exponent that is a numeral has its type written
where this matters, as in `2 ^ (1074 : Nat)`: that of a bare one is left to default instances, and
these are never scoped. -/

attribute [scoped instance (high)] instPowNat Zero.ofOfNat0

namespace Number

/-! ## Digits -/

/-- The value of one decimal digit. -/
def digitValue (c : Char) : Nat := c.toNat - '0'.toNat

/-- A digit is worth nine at most. -/
theorem digitValue_le {c : Char} (h : c.isDigit = true) : digitValue c ≤ 9 := by
  simp only [Char.isDigit, Bool.and_eq_true, decide_eq_true_eq, ge_iff_le,
    UInt32.le_iff_toNat_le] at h
  have : c.toNat ≤ 57 := h.2
  have : '0'.toNat = 48 := rfl
  unfold digitValue
  omega

/-- The digits read so far in two parts: those of the block in hand, and the number before them. A
digit is added to the block, so that a long run does not cost a long multiplication for each of its
digits. -/
structure Gathered where
  high : Nat
  low : Nat
  count : Nat

namespace Gathered

/-- A block is full with this many digits. -/
def blockLength : Nat := 500

/-- The number of all digits read so far. -/
def value (g : Gathered) : Nat := g.high * 10 ^ g.count + g.low

/-- One digit more; it starts a new block if the one in hand is full. -/
def add (g : Gathered) (digit : Nat) : Gathered :=
  if g.count < blockLength then ⟨g.high, 10 * g.low + digit, g.count + 1⟩ else ⟨g.value, digit, 1⟩

/-- The block in hand makes no difference to the number. -/
theorem value_add (g : Gathered) (digit : Nat) : (g.add digit).value = 10 * g.value + digit := by
  unfold add
  split
  · simp only [value, Nat.pow_succ, ← Nat.mul_assoc]
    omega
  · simp only [value]
    omega

end Gathered

/-- The number that a run of decimal digits writes. -/
def ofDigits (cs : List Char) : Nat :=
  (cs.foldl (fun g c => g.add (digitValue c)) (Gathered.mk 0 0 0)).value

/-- A further digit is worth ten times what stands before it and itself. -/
theorem ofDigits_append_singleton (cs : List Char) (c : Char) :
    ofDigits (cs ++ [c]) = 10 * ofDigits cs + digitValue c := by
  simp [ofDigits, Gathered.value_add]

/-- Digit by digit, whatever the blocks. -/
theorem ofDigits_eq_foldl (cs : List Char) :
    ofDigits cs = cs.foldl (fun n c => 10 * n + digitValue c) 0 := by
  suffices h : ∀ g : Gathered, (cs.foldl (fun g c => g.add (digitValue c)) g).value =
      cs.foldl (fun n c => 10 * n + digitValue c) g.value from h ⟨0, 0, 0⟩
  induction cs with
  | nil => intro g; rfl
  | cons c rest ih => intro g; simp only [List.foldl_cons, ih, Gathered.value_add]

/-- `n` to base ten with zeros in front up to `width` digits. -/
def padded (width n : Nat) : String :=
  let digits := Nat.repr n
  String.ofList (List.replicate (width - digits.length) '0') ++ digits

/-! ## Reading -/

/-- The sign in front of a numeral, true for a minus, and what follows it. -/
def splitSign : List Char → Bool × List Char
  | '-' :: rest => (true, rest)
  | '+' :: rest => (false, rest)
  | cs => (false, cs)

/-- A sign or none and at least one digit, with nothing before or after; `worth` is what digits are
worth. -/
def readSigned? (worth : List Char → Nat) (cs : List Char) : Option Int :=
  let (negative, digits) := splitSign cs
  if digits ≠ [] ∧ digits.all Char.isDigit then
    some (if negative then -(worth digits : Int) else worth digits)
  else none

/-- The integer that a sign or none and at least one digit write, with nothing before or after. -/
def readInteger? (cs : List Char) : Option Int := readSigned? ofDigits cs

/-- The least and the greatest integer of a signed word of 64 bits lie on either side. -/
def fitsInt64 (n : Int) : Bool := Int64.minValue.toInt ≤ n && n ≤ Int64.maxValue.toInt

/-- Like `readInteger?`, refusing what a signed word of 64 bits cannot hold. -/
def readInt64? (cs : List Char) : Option Int64 :=
  match readInteger? cs with
  | some n => if fitsInt64 n then some (Int64.ofInt n) else none
  | none => none

/-- A digit is no sign. -/
theorem splitSign_of_isDigit {c : Char} (hc : c.isDigit = true) (rest : List Char) :
    splitSign (c :: rest) = (false, c :: rest) := by
  unfold splitSign
  split
  · next h => simp only [List.cons.injEq] at h; obtain ⟨rfl, -⟩ := h; exact absurd hc (by decide)
  · next h => simp only [List.cons.injEq] at h; obtain ⟨rfl, -⟩ := h; exact absurd hc (by decide)
  · rfl

/-- Digits behind a minus or nothing are read with the worth of the digits, whatever it is. -/
theorem readSigned?_digits (worth : List Char → Nat) {digits : List Char} (hne : digits ≠ [])
    (hall : digits.all Char.isDigit = true) (negative : Bool) :
    readSigned? worth (if negative then '-' :: digits else digits) =
      some (if negative then -(worth digits : Int) else worth digits) := by
  cases negative with
  | true => simp [readSigned?, splitSign, hne, hall]
  | false =>
    cases digits with
    | nil => contradiction
    | cons c rest =>
      have hc : c.isDigit = true := by simp_all
      simp [readSigned?, splitSign_of_isDigit hc, hall]

/-- Digits behind a minus or nothing are read as the number they write. -/
theorem readInteger?_digits {digits : List Char} (hne : digits ≠ [])
    (hall : digits.all Char.isDigit = true) (negative : Bool) :
    readInteger? (if negative then '-' :: digits else digits) =
      some (if negative then -(ofDigits digits : Int) else ofDigits digits) :=
  readSigned?_digits ofDigits hne hall negative

end Number

end ClusterMap
