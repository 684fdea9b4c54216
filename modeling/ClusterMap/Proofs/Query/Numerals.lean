import ClusterMap.Proofs.Query.StoredNumbers
import ClusterMap.Query.Draft

/-!
# Numerals as literals

A number that a predicate text is cut into is one in every later stage: it is read as the double
nearest to what it writes (`readBinary64?_of_spells`), the reader takes it where a literal is due,
and the literal compares by it. Without a point it is read as a word of 64 bits just if the integer
that it writes is one (`isSome_readInt64?_iff`). Main statement: `number_usable`.
-/

namespace ClusterMap

open Number Text

/-! ## What a numeral writes -/

/-- The double nearest to what a numeral without an exponent writes: its digits to base ten, divided
by ten for each digit behind the point, negated behind a minus. -/
def numeralDouble (cs : List Char) : Binary64 :=
  .nearest (cs.head? == some '-')
    (Nat.ofDigitChars 10 (cs.filter Char.isDigit) 0 * 2 ^ (1074 : Nat))
    (10 ^ (cs.dropWhile (· ≠ '.')).tail.length)

theorem isNaN_numeralDouble (cs : List Char) : (numeralDouble cs).isNaN = false :=
  Binary64.isNaN_signed (Binary64.nearestWord_le _ _)

/-- A numeral is read as a double by what stands behind its sign. -/
theorem readBinary64?_of_tail {cs body : List Char} {negative : Bool}
    (hsign : splitSign cs = (negative, body)) (htail : NumberTail body) (hne : body ≠ []) :
    readBinary64? cs =
      some (.nearest negative (Nat.ofDigitChars 10 (body.filter Char.isDigit) 0 * 2 ^ (1074 : Nat))
        (10 ^ (body.dropWhile (· ≠ '.')).tail.length)) := by
  obtain ⟨whole, fraction, hsplit, hsome, hdigits, hplaces⟩ := exists_splitPoint_of_tail htail hne
  rw [readBinary64?_of_splitPoint hsign hsplit hsome, ofDigits_eq_ofDigitChars, hdigits, hplaces]

/-- What spells a number is read as the double nearest to what it writes. -/
theorem readBinary64?_of_spells {cs : List Char} {n : String} (h : Spells cs (.number n)) :
    readBinary64? n.toList = some (numeralDouble n.toList) := by
  obtain ⟨negative, body, hlist, hminus, hsign, htail, hne⟩ := exists_tail_of_spells h
  rw [readBinary64?_of_tail hsign htail hne, numeralDouble, hminus, hlist]
  -- The minus is no digit and stands before the point.
  cases negative <;> rfl

/-- An integer is read as a word of 64 bits if it is in their range. -/
theorem isSome_readInt64?_iff {cs : List Char} {n : Int} (h : readInteger? cs = some n) :
    (readInt64? cs).isSome = true ↔ -2 ^ 63 ≤ n ∧ n < 2 ^ 63 := by
  rw [← fitsInt64_iff, readInt64?, h]
  cases hfits : fitsInt64 n <;> simp [hfits]

/-! ## Numbers of a text -/

namespace Literal

/-- Every number of a text is a literal with a value. Where a literal is due the reader takes it; it
is read as the double nearest to what it writes, which is no NaN, and equals a stored double as this
double does, and so a stored integer if it is read as none itself. Without a point it is read as an
integer of 64 bits just if the integer that its digits write is in their range, and then as this
integer. -/
theorem number_usable {text : String} {ts : List Token} {written : String}
    (h : tokenize text = .ok ts) (hn : .number written ∈ ts.map Token.kind) :
    let x := numeralDouble written.toList
    (∀ (d : Draft) (field : String) (offset : Nat), d.due = .literal field →
      d.step ⟨.number written, offset⟩ = .ok (d.addOperand (.equal field (.number written)))) ∧
    (readBinary64? written.toList = some x ∧ x.isNaN = false ∧
      (∀ y, (number written).agrees (.float y) = x.equals y) ∧
      ∀ b, readInt64? written.toList = none →
        (number written).agrees (.int b) = x.equals (widened b)) ∧
    ('.' ∉ written.toList →
      ((readInt64? written.toList).isSome = true ↔
        -2 ^ 63 ≤ numeralValue written.toList ∧ numeralValue written.toList < 2 ^ 63) ∧
      ∀ a, readInt64? written.toList = some a → a.toInt = numeralValue written.toList) := by
  intro x
  obtain ⟨t, ht, hkind⟩ := List.mem_map.1 hn
  obtain ⟨source, hsource⟩ := exists_spells_of_tokenize h t ht
  rw [hkind] at hsource
  refine ⟨fun d field offset hdue => ?_, ?_, fun hpoint => ?_⟩
  · simp only [Draft.step, hdue, ofToken?_of_tokenize h hn]
  · have hread := readBinary64?_of_spells hsource
    have hwrites : ∀ y, writes written.toList y = x.equals y := fun y => by rw [writes, hread]
    refine ⟨hread, isNaN_numeralDouble _, hwrites, fun b hnone => ?_⟩
    rw [number_agrees_int, hnone]
    exact hwrites (widened b)
  · have hread := readInteger?_of_spells hsource hpoint
    refine ⟨isSome_readInt64?_iff hread, fun a ha => ?_⟩
    exact Option.some.inj ((readInt64?_eq_some_iff.1 ha).symm.trans hread)

/-- A numeral with no digit before its point, and one with zeros in front that is just below the
range. -/
theorem number_usable_of_two :
    let ts : List Token :=
      [⟨.word "a", 0⟩, ⟨.equals, 1⟩, ⟨.number "-.5", 2⟩, ⟨.number "-0009223372036854775809", 6⟩]
    tokenize "a=-.5 -0009223372036854775809" = .ok ts ∧
      (readBinary64? "-.5".toList = some (numeralDouble "-.5".toList) ∧
        numeralDouble "-.5".toList = ⟨0xbfe0000000000000⟩) ∧
      ((Draft.mk [] .empty (.literal "a")).step ⟨.number "-.5", 2⟩ =
        .ok ⟨[], ⟨[], [.equal "a" (.number "-.5")]⟩, .joiner⟩) ∧
      ((readInt64? "-0009223372036854775809".toList).isSome = true ↔
        (-2 ^ 63 : Int) ≤ -9223372036854775809 ∧ (-9223372036854775809 : Int) < 2 ^ 63) := by
  intro ts
  have htokens : tokenize "a=-.5 -0009223372036854775809" = .ok ts := by decide +kernel
  have hpoint : .number "-.5" ∈ ts.map Token.kind := by decide
  have hlong : .number "-0009223372036854775809" ∈ ts.map Token.kind := by decide
  have hhalf : numeralDouble "-.5".toList = ⟨0xbfe0000000000000⟩ := by decide +kernel
  obtain ⟨htaken, ⟨hread, -⟩, -⟩ := number_usable htokens hpoint
  have hvalue : numeralValue "-0009223372036854775809".toList = -9223372036854775809 := by decide
  have hrange := ((number_usable htokens hlong).2.2 (by decide)).1
  rw [hvalue] at hrange
  exact ⟨htokens, ⟨hread, hhalf⟩, htaken _ "a" 2 rfl, hrange⟩

end Literal

end ClusterMap
