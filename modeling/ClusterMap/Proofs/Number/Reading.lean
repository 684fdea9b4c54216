import ClusterMap.Number.Numeral
import ClusterMap.Proofs.Number.Rounding

/-!
# Reading numbers back

The decimal digits of an integer, behind a sign or none, are read as that integer, and as the double
nearest to it; with a point they are read as the double nearest to what they write; the text of a
double is read as the double, bit for bit. Main statements: `readInt64?_toString`,
`readBinary64?_toString`, `readBinary64?_of_readInteger?`; `readBinary64?_of_splitPoint`;
`readBinary64?_text`.
-/

namespace ClusterMap.Number

/-! ## The text of an integer -/

/-- An integer is written as a minus or nothing and the digits of its absolute value. -/
theorem toList_toString (n : Int) :
    (toString n).toList =
      if decide (n < 0) then '-' :: (Nat.repr n.natAbs).toList else (Nat.repr n.natAbs).toList := by
  cases n with
  | ofNat m => rfl
  | negSucc m =>
    have hneg : decide (Int.negSucc m < 0) = true := decide_eq_true (Int.negSucc_lt_zero m)
    rw [hneg, if_pos rfl]
    exact String.toList_append

/-- Digits are worth the same read one by one and in blocks. -/
theorem ofDigits_eq_ofDigitChars (cs : List Char) : ofDigits cs = Nat.ofDigitChars 10 cs 0 := by
  rw [ofDigits_eq_foldl]
  rfl

/-- The digits of a number write it. -/
theorem ofDigits_repr (n : Nat) : ofDigits (Nat.repr n).toList = n := by
  rw [ofDigits_eq_ofDigitChars, ofDigitChars_repr]

/-! ## Reading an integer -/

/-- The text of an integer is read as the integer. -/
theorem readInteger?_toString (n : Int) : readInteger? (toString n).toList = some n := by
  rw [toList_toString, readInteger?_digits (repr_ne_nil _) (all_isDigit_repr _), ofDigits_repr]
  by_cases h : n < 0
  · have hneg : -(n.natAbs : Int) = n := by omega
    rw [if_pos (decide_eq_true h), hneg]
  · have hpos : (n.natAbs : Int) = n := by omega
    rw [if_neg (by simpa using h), hpos]

/-- An integer fits if it is within the bounds of 64 bits. -/
theorem fitsInt64_iff {n : Int} : fitsInt64 n = true ↔ -2 ^ 63 ≤ n ∧ n < 2 ^ 63 := by
  have hmin : Int64.minValue.toInt = -2 ^ 63 := by decide
  have hmax : Int64.maxValue.toInt = 2 ^ 63 - 1 := by decide
  rw [fitsInt64, Bool.and_eq_true, decide_eq_true_eq, decide_eq_true_eq, hmin, hmax]
  omega

/-- An integer is read as a word of 64 bits just if it is one. -/
theorem readInt64?_eq_some_iff {cs : List Char} {b : Int64} :
    readInt64? cs = some b ↔ readInteger? cs = some b.toInt := by
  have hb : -2 ^ 63 ≤ b.toInt ∧ b.toInt < 2 ^ 63 := ⟨b.le_toInt, b.toInt_lt⟩
  unfold readInt64?
  cases readInteger? cs with
  | none => simp
  | some n =>
    simp only [Option.some.injEq]
    split
    · next hfits =>
      have hn := fitsInt64_iff.1 hfits
      rw [Option.some.injEq]
      constructor
      · rintro rfl
        exact (Int64.toInt_ofInt_of_le hn.1 hn.2).symm
      · rintro rfl
        exact Int64.ofInt_toInt b
    · next hfits =>
      refine ⟨fun h => by contradiction, fun h => absurd (fitsInt64_iff.2 ?_) hfits⟩
      rw [h]
      exact hb

/-- The text of an integer of 64 bits is read as it. -/
theorem readInt64?_toString (n : Int64) : readInt64? (toString n.toInt).toList = some n :=
  readInt64?_eq_some_iff.2 (readInteger?_toString n.toInt)

/-! ## Reading an integer as a double -/

/-- A digit has no other case, so digits are no name. -/
theorem toLower_ne_of_isDigit {c d : Char} (h : c.isDigit = true) (hd : d.isDigit = false) :
    c.toLower ≠ d := by
  have hlower : c.toLower = c := dif_neg fun hupper => by
    simp only [Char.isDigit, Bool.and_eq_true, decide_eq_true_eq] at h
    exact absurd (UInt32.le_trans hupper.1 h.2) (by decide)
  grind

/-- A decimal with so many more places than digits is less than half a unit. -/
theorem two_mul_lt_ten_pow {digits places : Nat} (h : digits = 0 ∨ Nat.log2 digits + 400 < places) :
    2 * (digits * 2 ^ (1074 : Nat)) < 10 ^ places := by
  by_cases hzero : digits = 0
  · have hnone : ∀ one, 2 * (digits * one) = 0 := fun one => by rw [hzero, Nat.zero_mul]
    rw [hnone]
    exact Nat.pow_pos (by decide)
  · have hmore := h.resolve_left hzero
    have hdigits : digits < 2 ^ (places - 400) := (Nat.log2_lt hzero).1 (by omega)
    have hunit : ∀ k l : Nat, l = k + 2 → 2 * (digits * 2 ^ k) < 2 ^ (places - 401) * 2 ^ l :=
      fun k l hl => by
      have hexponent : places - 401 + l = places - 400 + k + 1 := by omega
      have hpow : 2 ^ (places - 401) * 2 ^ l = 2 * (2 ^ (places - 400) * 2 ^ k) := by
        rw [← Nat.pow_add, ← Nat.pow_add, hexponent, Nat.pow_add_one']
      rw [hpow]
      exact Nat.mul_lt_mul_of_pos_left (Nat.mul_lt_mul_of_pos_right hdigits (Nat.two_pow_pos k))
        (by decide)
    have hten : ∀ k, k ≤ places → 10 ^ (places - k) * 10 ^ k = 10 ^ places :=
      fun k => Nat.pow_sub_mul_pow 10
    have hsizes : 2 ^ (1076 : Nat) ≤ 10 ^ (401 : Nat) := by decide +kernel
    have hbases := Nat.pow_le_pow_left (show 2 ≤ 10 by decide) (places - 401)
    rw [← hten 401 (by omega)]
    exact Nat.lt_of_lt_of_le (hunit 1074 1076 rfl) (Nat.mul_le_mul hbases hsizes)

/-- A decimal without an exponent is rounded once, as the quotient that it is. -/
theorem ofDecimal_neg (negative : Bool) (digits places : Nat) :
    ofDecimal negative digits (-(places : Int)) = .nearest negative (digits * 2 ^ (1074 : Nat))
    (10 ^ places) := by
  unfold ofDecimal
  split
  · next hsmall =>
    have hzero :=
      two_mul_lt_ten_pow (hsmall.imp_right fun h => show Nat.log2 digits + 400 < places by omega)
    rw [Binary64.nearest, Binary64.nearestWord_of_two_mul_lt hzero]
  · rw [if_neg (by omega)]
    split
    · next hwhole =>
      obtain rfl : places = 0 := by omega
      have hnone : (-((0 : Nat) : Int)).toNat = 0 := rfl
      rw [hnone, Nat.pow_zero, Nat.mul_one]
    · rw [Int.neg_neg, Int.toNat_natCast]

/-- A text that has another head than a name is not this name in any case. -/
theorem ofList_toLower_ne {c d : Char} {cs : List Char} {name : String} (hc : c.toLower ≠ d)
    (hname : name.toList.head? = some d) : String.ofList ((c :: cs).map Char.toLower) ≠ name := by
  rintro rfl
  exact hc (by simpa using hname)

/-- What is a numeral up to its end begins with a digit or with the point. -/
theorem exists_cons_of_splitPoint {body whole fraction : List Char}
    (h : splitPoint body = (whole, fraction, [])) (hne : ¬(whole = [] ∧ fraction = [])) :
    ∃ c rest, body = c :: rest ∧ (c.isDigit = true ∨ c = '.') := by
  cases body with
  | nil =>
    have hnone : splitPoint [] = ([], [], []) := rfl
    simp only [hnone, Prod.mk.injEq] at h
    exact absurd ⟨h.1.symm, h.2.1.symm⟩ hne
  | cons c rest =>
    refine ⟨c, rest, rfl, ?_⟩
    by_cases hc : c.isDigit = true
    · exact .inl hc
    · unfold splitPoint at h
      rw [List.takeWhile_cons_of_neg hc, List.dropWhile_cons_of_neg hc] at h
      split at h
      · next hpoint => exact .inr (List.cons.inj hpoint).1
      · simp at h

/-- Digits with a point among, before or behind them, or without one, are read as a double as the
number they write, which is rounded once. -/
theorem readBinary64?_of_splitPoint {cs body whole fraction : List Char} {negative : Bool}
    (hsign : splitSign cs = (negative, body)) (hpoint : splitPoint body = (whole, fraction, []))
    (hne : ¬(whole = [] ∧ fraction = [])) :
    readBinary64? cs =
      some (.nearest negative (ofDigits (whole ++ fraction) * 2 ^ (1074 : Nat))
        (10 ^ fraction.length)) := by
  obtain ⟨c, rest, rfl, hc⟩ := exists_cons_of_splitPoint hpoint hne
  have hlower : ∀ d : Char, d.isDigit = false → d ≠ '.' → c.toLower ≠ d := fun d hd hdot => by
    obtain hc | rfl := hc
    · exact toLower_ne_of_isDigit hc hd
    · exact hdot.symm
  have hinfinite : ¬(String.ofList ((c :: rest).map Char.toLower) = "inf" ∨
      String.ofList ((c :: rest).map Char.toLower) = "infinity") :=
    not_or.2 ⟨ofList_toLower_ne (hlower 'i' rfl (by decide)) rfl,
      ofList_toLower_ne (hlower 'i' rfl (by decide)) rfl⟩
  have hnan : String.ofList ((c :: rest).map Char.toLower) ≠ "nan" :=
    ofList_toLower_ne (hlower 'n' rfl (by decide)) rfl
  simp only [readBinary64?, hsign, if_neg hinfinite, if_neg hnan, hpoint, if_neg hne]
  rw [readExponent?, Option.map_some, Int.zero_sub, ofDecimal_neg]

/-- Digits behind a sign or none are read as a double as the number they write. -/
theorem readBinary64?_digits {cs digits : List Char} {negative : Bool}
    (hsign : splitSign cs = (negative, digits)) (hne : digits ≠ [])
    (hall : digits.all Char.isDigit = true) :
    readBinary64? cs = some (.nearest negative (ofDigits digits * 2 ^ (1074 : Nat)) 1) := by
  rw [readBinary64?_of_splitPoint hsign (splitPoint_digits hall) fun h => hne h.1, List.append_nil,
    List.length_nil, Nat.pow_zero]

/-- A minus or nothing is the sign in front of what begins with a digit. -/
theorem splitSign_digits {digits : List Char} (hne : digits ≠ [])
    (hall : digits.all Char.isDigit = true) (negative : Bool) :
    splitSign (if negative then '-' :: digits else digits) = (negative, digits) := by
  obtain ⟨c, cs, rfl⟩ := List.exists_cons_of_ne_nil hne
  have hc : c.isDigit = true := by simp_all
  cases negative
  · exact splitSign_of_isDigit hc cs
  · rfl

/-- The text of an integer is read as the double nearest to it. -/
theorem readBinary64?_toString (n : Int) : readBinary64? (toString n).toList = some (.ofInt n) := by
  have hsign := splitSign_digits (repr_ne_nil n.natAbs) (all_isDigit_repr n.natAbs) (decide (n < 0))
  rw [toList_toString, readBinary64?_digits hsign (repr_ne_nil _) (all_isDigit_repr _),
    ofDigits_repr]
  rfl

/-- What is read as an integer is read as the double nearest to it, up to the sign of a zero. -/
theorem readBinary64?_of_readInteger? {cs : List Char} {n : Int} (h : readInteger? cs = some n) :
    ∃ y, readBinary64? cs = some y ∧ y.equals (.ofInt n) = true := by
  obtain ⟨negative, digits, hsign⟩ : ∃ negative digits, splitSign cs = (negative, digits) :=
    ⟨_, _, rfl⟩
  simp only [readInteger?, readSigned?, hsign] at h
  split at h
  · next hdigits =>
    have habs : ofDigits digits = n.natAbs := by
      obtain rfl := Option.some.inj h
      split <;> omega
    have hnegative : negative = decide (n < 0) ∨ n.natAbs = 0 := by
      obtain rfl := Option.some.inj h
      cases negative with
      | true =>
        rw [if_pos rfl, eq_comm, decide_eq_true_eq]
        omega
      | false =>
        rw [if_neg Bool.false_ne_true, eq_comm, decide_eq_false_iff_not]
        omega
    refine ⟨_, readBinary64?_digits hsign hdigits.1 hdigits.2, ?_⟩
    have hzero : n.natAbs = 0 → Binary64.nearestWord (n.natAbs * 2 ^ (1074 : Nat)) 1 = 0 :=
      fun hzero => by
      have hnearest : Binary64.nearestWord 0 1 = 0 := by decide
      rw [hzero]
      generalize 2 ^ (1074 : Nat) = one
      rw [Nat.zero_mul, hnearest]
    have hle := Binary64.nearestWord_le (n.natAbs * 2 ^ (1074 : Nat)) 1
    rw [habs]
    exact (Binary64.signed_equals_signed_iff hle hle).2 ⟨rfl, hnegative.imp_right hzero⟩
  · contradiction

/-! ## The text of a double -/

/-- The digits of a text without an exponent are worth its number, at the place of the last of
them. -/
theorem ofDigits_positional (n : Nat) :
    (fractionDigits n).length ≤ 1076 ∧
      ofDigits ((Nat.repr (n / Binary64.decimalOne)).toList ++ fractionDigits n) *
        10 ^ (1076 - (fractionDigits n).length) = n := by
  have hlength : (fractionDigits n).length ≤ 1076 := by
    obtain ⟨zeros, hdigits⟩ := fractionDigits_append n
    have htotal := (ofDigitChars_drop_decimalOne (Nat.mod_lt n Binary64.decimalOne_pos)).1
    rw [hdigits, List.length_append] at htotal
    omega
  refine ⟨hlength, ?_⟩
  have hone : 10 ^ (fractionDigits n).length * 10 ^ (1076 - (fractionDigits n).length) =
      Binary64.decimalOne := by
    have hpow : ∀ {k l : Nat}, l ≤ k → 10 ^ l * 10 ^ (k - l) = 10 ^ k := fun h => by
      rw [Nat.mul_comm, Nat.pow_sub_mul_pow 10 h]
    exact (hpow hlength).trans Binary64.decimalOne_eq_ten_pow.symm
  have hsplit := Nat.div_add_mod n Binary64.decimalOne
  rw [mod_eq_of_fractionDigits] at hsplit
  rw [ofDigits_eq_ofDigitChars, Nat.ofDigitChars_append, ofDigitChars_repr,
    Nat.ofDigitChars_eq_ofDigitChars_zero, Nat.add_mul, Nat.mul_right_comm, hone,
    Nat.mul_comm (Nat.ofDigitChars _ _ _)]
  exact hsplit

namespace Binary64

/-- The text of a double that is a number. -/
theorem text_of_not_isNaN {x : Binary64} (h : x.isNaN = false) :
    x.text = (if x.negative then "-" else "") ++
      if x.isInfinite then "inf" else if x.magnitude = 0 then "0" else positional x.shortest := by
  simp only [text, h, Bool.false_eq_true, if_false]

/-- Infinity has one word behind its sign. -/
theorem payload_of_isInfinite {x : Binary64} (h : x.isInfinite = true) :
    x.payload = infinityWord := by
  rw [isInfinite, Bool.and_eq_true, decide_eq_true_eq, decide_eq_true_eq] at h
  rw [payload_eq, h.1, h.2]
  rfl

/-- A number that is not infinite is finite. -/
theorem isFinite_of_not_isInfinite {x : Binary64} (hnan : x.isNaN = false)
    (h : ¬x.isInfinite = true) :
    x.isFinite = true := by
  simp only [isNaN, isInfinite, isFinite, Bool.and_eq_true, Bool.and_eq_false_iff,
    decide_eq_true_eq, decide_eq_false_iff_not] at hnan h ⊢
  omega

/-- A sign is cut from the digits of a positional text. -/
theorem splitSign_positional (negative : Bool) (n : Nat) :
    splitSign ((if negative then "-" else "") ++ positional n).toList =
      (negative, (positional n).toList) := by
  obtain ⟨c, cs, hcs⟩ := List.exists_cons_of_ne_nil (repr_ne_nil (n / decimalOne))
  have hc : c.isDigit = true :=
    List.all_eq_true.1 (all_isDigit_repr (n / decimalOne)) c (hcs ▸ List.mem_cons_self)
  have hdigit : ∃ tail, (positional n).toList = c :: tail :=
    ⟨_, by rw [toList_positional, hcs, List.cons_append]⟩
  obtain ⟨tail, htail⟩ := hdigit
  rw [String.toList_append, htail]
  cases negative
  · exact splitSign_of_isDigit hc tail
  · rfl

/-- A positional text is read as the double that the shortest decimal is written for. -/
theorem readBinary64?_positional {x : Binary64} (hfinite : x.isFinite = true) :
    readBinary64? ((if x.negative then "-" else "") ++ positional x.shortest).toList = some x := by
  obtain ⟨hplaces, hworth⟩ := ofDigits_positional x.shortest
  rw [readBinary64?_of_splitPoint (splitSign_positional _ _) (splitPoint_positional _) fun h =>
    repr_ne_nil _ h.1]
  generalize ofDigits ((Nat.repr (x.shortest / decimalOne)).toList ++ fractionDigits x.shortest) =
    digits at *
  generalize (fractionDigits x.shortest).length = places at *
  have hscale : 4 * (digits * 2 ^ (1074 : Nat)) * 5 ^ (1076 : Nat) = x.shortest * 10 ^ places := by
    have hmove : ∀ k l : Nat, 4 * (digits * 2 ^ k) * 5 ^ l = digits * (4 * 2 ^ k * 5 ^ l) :=
      fun k l => by
      rw [Nat.mul_left_comm, Nat.mul_assoc]
    have hpow : ∀ {k l : Nat}, l ≤ k → 10 ^ (k - l) * 10 ^ l = 10 ^ k := Nat.pow_sub_mul_pow 10
    rw [hmove 1074 1076, ← decimalOne_eq, decimalOne_eq_ten_pow, ← hpow hplaces,
      ← Nat.mul_assoc, hworth]
  have hword := nearestWord_of_contains hfinite (Nat.pow_pos (by decide)) hscale x.contains_shortest
  rw [nearest, hword, signed_payload]

/-- The text of a double that is a number is read as that double. -/
theorem readBinary64?_text {x : Binary64} (h : x.isNaN = false) :
    readBinary64? x.text.toList = some x := by
  rw [text_of_not_isNaN h]
  by_cases hinfinite : x.isInfinite = true
  · have hread : ∀ s : Bool, readBinary64? ((if s then "-" else "") ++ "inf").toList =
        some (.signed s infinityWord) := by
      decide
    rw [if_pos hinfinite, hread, ← payload_of_isInfinite hinfinite, signed_payload]
  · rw [if_neg hinfinite]
    by_cases hzero : x.magnitude = 0
    · have hread : ∀ s : Bool, readBinary64? ((if s then "-" else "") ++ "0").toList =
          some (.signed s 0) := by decide
      rw [if_pos hzero, hread, ← magnitude_eq_zero_iff.1 hzero, signed_payload]
    · rw [if_neg hzero, readBinary64?_positional (isFinite_of_not_isInfinite h hinfinite)]

end Binary64

end ClusterMap.Number
