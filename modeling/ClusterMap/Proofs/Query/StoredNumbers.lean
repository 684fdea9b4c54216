import ClusterMap.Proofs.Number.Reading
import ClusterMap.Proofs.Query.Numbers

/-!
# Literals and stored numbers

When a literal equals a number that is stored as an integer, and when one that is stored as a
double. A numeral without a point writes an integer and equals this integer; if it is beyond the
words of 64 bits it is compared as a double, and equals the integers that round to the double at the
end of these words with it (`agrees_int_iff_of_number`). A literal that equals an integer equals the
double that is that integer. It equals only the double if it is an integer beyond `2 ^ 53` that is
rounded to it, or a text that writes the double but no integer (`agrees_int_iff_agrees_float`).
-/

namespace ClusterMap

open Number Text

/-! ## Numerals without a point -/

/-- The integer that a numeral without a point writes: its digits to base ten, negated behind a
minus. -/
def numeralValue : List Char → Int
  | '-' :: digits => -(Nat.ofDigitChars 10 digits 0 : Int)
  | digits => Nat.ofDigitChars 10 digits 0

theorem NumberTail.all_isDigit {cs : List Char} (h : NumberTail cs) (hpoint : '.' ∉ cs) :
    cs.all Char.isDigit = true := by
  cases h with
  | whole h => exact h
  | fraction => simp at hpoint

theorem numeralValue_of_all_isDigit {digits : List Char} (h : digits.all Char.isDigit = true) :
    numeralValue digits = Nat.ofDigitChars 10 digits 0 := by
  unfold numeralValue
  split
  · exact absurd (List.all_eq_true.1 h '-' List.mem_cons_self) (by decide)
  · rfl

/-- What spells a number without a point is read as the integer that it writes. -/
theorem readInteger?_of_spells {cs : List Char} {n : String} (h : Spells cs (.number n))
    (hpoint : '.' ∉ n.toList) :
    readInteger? n.toList = some (numeralValue n.toList) := by
  obtain ⟨negative, body, hlist, -, -, htail, hne⟩ := exists_tail_of_spells h
  rw [hlist] at hpoint ⊢
  cases negative with
  | false =>
    have hdigits := htail.all_isDigit hpoint
    rw [if_neg Bool.false_ne_true, numeralValue_of_all_isDigit hdigits, ← ofDigits_eq_ofDigitChars]
    exact readInteger?_digits hne hdigits false
  | true =>
    have hdigits := htail.all_isDigit fun hmem => hpoint (List.mem_cons_of_mem '-' hmem)
    rw [if_pos rfl, numeralValue, ← ofDigits_eq_ofDigitChars]
    exact readInteger?_digits hne hdigits true

namespace Literal

theorem number_agrees_int (written : String) (b : Int64) :
    (number written).agrees (.int b) =
      match readInt64? written.toList with
      | some a => a == b
      | none => writes written.toList (widened b) := rfl

theorem text_agrees_int (s : String) (b : Int64) :
    (text s).agrees (.int b) = (readInt64? (trim s.toList) == some b) := rfl

theorem text_agrees_float (s : String) (x : Binary64) :
    (text s).agrees (.float x) = writes (trim s.toList) x := rfl

/-- What is read as an integer writes a double just if the double nearest to the integer equals
it. -/
theorem writes_of_readInteger? {cs : List Char} {n : Int} (h : readInteger? cs = some n)
    (x : Binary64) :
    writes cs x = (Binary64.ofInt n).equals x := by
  obtain ⟨y, hy, hequals⟩ := readBinary64?_of_readInteger? h
  have hwrites : writes cs x = y.equals x := by rw [writes, hy]
  rw [hwrites, Binary64.equals_comm, Binary64.equals_comm (.ofInt n)]
  exact Binary64.equals_congr hequals x

/-- A numeral that writes an integer equals the stored integer if it is the same, or if it is beyond
the words of 64 bits and both round to one double. -/
theorem agrees_int_iff_of_readInteger? {written : String} {n : Int}
    (h : readInteger? written.toList = some n) (b : Int64) :
    (number written).agrees (.int b) = true ↔ n = b.toInt ∨ Binary64.MeetAtEnd n b.toInt := by
  have hb : -2 ^ 63 ≤ b.toInt ∧ b.toInt < 2 ^ 63 := ⟨b.le_toInt, b.toInt_lt⟩
  rw [number_agrees_int]
  cases hread : readInt64? written.toList with
  | some a =>
    have ha := readInt64?_eq_some_iff.1 hread
    have hn : n = a.toInt := Option.some.inj (h.symm.trans ha)
    have ha' : -2 ^ 63 ≤ a.toInt ∧ a.toInt < 2 ^ 63 := ⟨a.le_toInt, a.toInt_lt⟩
    have hfar : ¬Binary64.MeetAtEnd n b.toInt := by
      unfold Binary64.MeetAtEnd
      omega
    rw [beq_iff_eq, or_iff_left hfar, hn, Int64.toInt_inj]
  | none =>
    have hne : n ≠ b.toInt := fun heq => by
      rw [heq, ← readInt64?_eq_some_iff, hread] at h
      contradiction
    have hbeyond : n < -2 ^ 63 ∨ 2 ^ 63 ≤ n := by
      by_contra hwithin
      have hfits : fitsInt64 n = true := fitsInt64_iff.2 (by omega)
      rw [readInt64?, h] at hread
      simp only [hfits, if_true] at hread
      contradiction
    rw [or_iff_right hne]
    show writes written.toList (.ofInt b.toInt) = true ↔ _
    rw [writes_of_readInteger? h, Binary64.ofInt_equals_ofInt_iff hbeyond hb]

/-- A numeral without a point, as a text is cut into, equals the stored integer that it writes. It
equals no other, except that near the ends of the words of 64 bits a numeral beyond them equals
integers within. -/
theorem agrees_int_iff_of_number {text : String} {ts : List Token} {written : String}
    (h : tokenize text = .ok ts) (hn : .number written ∈ ts.map Token.kind)
    (hpoint : '.' ∉ written.toList) (b : Int64) :
    (number written).agrees (.int b) = true ↔
      numeralValue written.toList = b.toInt ∨
      Binary64.MeetAtEnd (numeralValue written.toList) b.toInt := by
  obtain ⟨t, ht, hkind⟩ := List.mem_map.1 hn
  obtain ⟨source, hsource⟩ := exists_spells_of_tokenize h t ht
  rw [hkind] at hsource
  exact agrees_int_iff_of_readInteger? (readInteger?_of_spells hsource hpoint) b

/-- A minus and zeros in front. -/
theorem number_minus_seven_agrees :
    tokenize "a=-007" = .ok [⟨.word "a", 0⟩, ⟨.equals, 1⟩, ⟨.number "-007", 2⟩] ∧
      ((number "-007").agrees (.int (-7)) = true ↔ numeralValue "-007".toList = -7 ∨
        Binary64.MeetAtEnd (-7) (-7)) := by
  have htokens : tokenize "a=-007" = .ok [⟨.word "a", 0⟩, ⟨.equals, 1⟩, ⟨.number "-007", 2⟩] := by
    decide +kernel
  exact ⟨htokens, agrees_int_iff_of_number htokens (by decide) (by decide) (-7)⟩

/-- The numeral of `2 ^ 63` equals the greatest integer of 64 bits, which it does not write. -/
theorem number_two_pow_agrees_int :
    tokenize "9223372036854775808" = .ok [⟨.number "9223372036854775808", 0⟩] ∧
      (number "9223372036854775808").agrees (.int 9223372036854775807) = true ∧
      numeralValue "9223372036854775808".toList = 9223372036854775808 ∧
      (9223372036854775807 : Int64).toInt = 9223372036854775807 := by
  refine ⟨?_, ?_, ?_, ?_⟩ <;> decide +kernel

/-! ## Integers and doubles -/

/-- The integer of 64 bits that a literal writes. -/
def integer? : Literal → Option Int64
  | int a => some a
  | number written => readInt64? written.toList
  | text s => readInt64? (trim s.toList)
  | _ => none

/-- How a literal equals the double `x` and not the integer `n` that the double is. -/
inductive OnlyAsDouble : Literal → Int64 → Binary64 → Prop
  /-- It writes another integer, beyond those that are all doubles, and is rounded. -/
  | rounded {l : Literal} {n a : Int64} {x : Binary64} (hread : l.integer? = some a) (hne : a ≠ n)
      (hlarge : 2 ^ 53 < a.toInt.natAbs) (hequals : (widened a).equals x = true) :
      OnlyAsDouble l n x
  /-- It is a text that is read as a double and not as an integer. -/
  | unread {s : String} {n : Int64} {x : Binary64} (hread : readInt64? (trim s.toList) = none)
      (hwrites : writes (trim s.toList) x = true) : OnlyAsDouble (text s) n x

variable {n : Int64} {x : Binary64} {l : Literal}

/-- Equal doubles are equal to what a text writes alike. -/
theorem writes_congr {y : Binary64} (h : x.equals y = true) (cs : List Char) :
    writes cs x = writes cs y := by
  unfold writes
  cases readBinary64? cs with
  | none => rfl
  | some z => exact Binary64.equals_congr h z

/-- A literal that writes an integer of 64 bits equals a stored integer if it is the same, and a
stored double if the double nearest to it is. -/
theorem agrees_of_integer? {a : Int64} (h : l.integer? = some a) :
    l.agrees (.int n) = (a == n) ∧ l.agrees (.float x) = (widened a).equals x := by
  cases l with
  | bool b => contradiction
  | int b =>
    cases h
    exact ⟨rfl, rfl⟩
  | float y => contradiction
  | number written =>
    have hread : readInt64? written.toList = some a := h
    rw [number_agrees_int, hread]
    exact ⟨rfl, writes_of_readInteger? (readInt64?_eq_some_iff.1 hread) x⟩
  | text s =>
    have hread : readInt64? (trim s.toList) = some a := h
    rw [text_agrees_int, hread]
    exact ⟨rfl, writes_of_readInteger? (readInt64?_eq_some_iff.1 hread) x⟩

/-- Of the literals that write no integer of 64 bits, just the texts tell a stored integer from its
double. -/
theorem agrees_of_integer?_none (hx : x.IsInteger n.toInt) (h : l.integer? = none)
    (htext : ∀ s, l ≠ text s) :
    l.agrees (.int n) = l.agrees (.float x) := by
  have hequals : (widened n).equals x = true := Binary64.ofInt_equals hx
  cases l with
  | bool b => rfl
  | int b => contradiction
  | float y => exact Binary64.equals_congr hequals y
  | number written =>
    have hread : readInt64? written.toList = none := h
    rw [number_agrees_int, hread]
    exact writes_congr hequals written.toList
  | text s => exact absurd rfl (htext s)

theorem agrees_float_of_agrees_int (hx : x.IsInteger n.toInt) (h : l.agrees (.int n) = true) :
    l.agrees (.float x) = true := by
  cases hread : l.integer? with
  | some a =>
    obtain ⟨hint, hfloat⟩ := agrees_of_integer? (n := n) (x := x) hread
    rw [hint, beq_iff_eq] at h
    rw [hfloat, h]
    exact Binary64.ofInt_equals hx
  | none =>
    have htext : ∀ s, l ≠ text s := by
      rintro s rfl
      have hnone : readInt64? (trim s.toList) = none := hread
      rw [text_agrees_int, hnone] at h
      contradiction
    rw [← agrees_of_integer?_none hx hread htext, h]

theorem OnlyAsDouble.agrees (h : l.OnlyAsDouble n x) :
    l.agrees (.float x) = true ∧ l.agrees (.int n) = false := by
  cases h with
  | rounded hread hne _ hequals =>
    obtain ⟨hint, hfloat⟩ := agrees_of_integer? (n := n) (x := x) hread
    rw [hint, hfloat]
    exact ⟨hequals, beq_eq_false_iff_ne.2 hne⟩
  | unread hread hwrites =>
    rw [text_agrees_int, text_agrees_float, hread]
    exact ⟨hwrites, rfl⟩

theorem onlyAsDouble_of_agrees (hx : x.IsInteger n.toInt) (hfloat : l.agrees (.float x) = true)
    (hint : l.agrees (.int n) = false) : l.OnlyAsDouble n x := by
  cases hread : l.integer? with
  | some a =>
    obtain ⟨hint', hfloat'⟩ := agrees_of_integer? (n := n) (x := x) hread
    rw [hint', beq_eq_false_iff_ne] at hint
    rw [hfloat'] at hfloat
    refine .rounded hread hint (Nat.lt_of_not_le fun hsmall => hint ?_) hfloat
    exact Int64.toInt_inj.1 (Binary64.eq_of_ofInt_equals hsmall hx hfloat)
  | none =>
    by_cases htext : ∃ s, l = text s
    · obtain ⟨s, rfl⟩ := htext
      exact .unread hread hfloat
    · rw [agrees_of_integer?_none hx hread fun s hs => htext ⟨s, hs⟩, hfloat] at hint
      contradiction

/-- A literal equals an integer just if it equals the double that is this integer, unless it equals
only the double. -/
theorem agrees_int_iff_agrees_float (hx : x.IsInteger n.toInt) (l : Literal) :
    ((l.agrees (.int n) = true ↔ l.agrees (.float x) = true) ↔ ¬l.OnlyAsDouble n x) ∧
      (l.OnlyAsDouble n x → l.agrees (.float x) = true ∧ l.agrees (.int n) = false) := by
  refine ⟨⟨fun hiff honly => ?_, fun hnot => ?_⟩, OnlyAsDouble.agrees⟩
  · obtain ⟨hfloat, hint⟩ := honly.agrees
    rw [hiff.2 hfloat] at hint
    contradiction
  · refine ⟨agrees_float_of_agrees_int hx, fun hfloat => ?_⟩
    by_contra hint
    have honly : l.OnlyAsDouble n x := onlyAsDouble_of_agrees hx hfloat (Bool.eq_false_iff.2 hint)
    exact hnot honly

/-- The text of `2` among blanks, for two stored either way. -/
theorem text_two_agrees :
    (⟨0x4000000000000000⟩ : Binary64).IsInteger (2 : Int64).toInt ∧
      ¬(text " 2 ").OnlyAsDouble 2 ⟨0x4000000000000000⟩ ∧
      ((text " 2 ").agrees (.int 2) = true ↔
        (text " 2 ").agrees (.float ⟨0x4000000000000000⟩) = true) := by
  have htwo : (⟨0x4000000000000000⟩ : Binary64).IsInteger (2 : Int64).toInt :=
    ⟨by decide, by decide +kernel⟩
  have hint : (text " 2 ").agrees (.int 2) = true := by decide +kernel
  have hnot : ¬(text " 2 ").OnlyAsDouble 2 ⟨0x4000000000000000⟩ := fun h => by
    rw [h.agrees.2] at hint
    contradiction
  exact ⟨htwo, hnot, (agrees_int_iff_agrees_float htwo (text " 2 ")).1.2 hnot⟩

/-- The text `1.0` equals one only where one is stored as a double, and `2 ^ 53 + 1` equals `2 ^ 53`
only where that is stored as a double. -/
theorem agrees_as_double_only :
    ((⟨0x3ff0000000000000⟩ : Binary64).IsInteger (1 : Int64).toInt ∧
      (text "1.0").agrees (.float ⟨0x3ff0000000000000⟩) = true ∧
      (text "1.0").agrees (.int 1) = false) ∧
    ((⟨0x4340000000000000⟩ : Binary64).IsInteger (9007199254740992 : Int64).toInt ∧
      (int 9007199254740993).agrees (.float ⟨0x4340000000000000⟩) = true ∧
      (int 9007199254740993).agrees (.int 9007199254740992) = false) := by
  refine ⟨⟨⟨?_, ?_⟩, ?_, ?_⟩, ⟨?_, ?_⟩, ?_, ?_⟩ <;> decide +kernel

end Literal

end ClusterMap
