import ClusterMap.Proofs.Query.Numbers

/-!
# Cutting a text into tokens

A token is as long as it can be, so where a spelling stands in a text it is cut off at its end if
what follows cannot go on with it (`TokenKind.endsAt`). White space goes on with no token, and
starts none. Main statements: `next_of_spells`, the lexeme at the front of a text is the spelling
that stands there; `tokensFrom_of_spells`, a spelling is read as its token;
`exists_tokenize_of_cut`, a text that is laid out so is cut into those tokens.
-/

namespace ClusterMap

/-! ## Classes of characters -/

namespace Text

/-- The code points that lie in some ranges. -/
def Ranges.points (rs : Ranges) : List Nat := rs.flatMap fun r => List.range' r.1 (r.2 + 1 - r.1)

/-- What ranges cover is among their points. -/
theorem Ranges.mem_points {rs : Ranges} {start n : Nat} (h : ascendingFrom start rs = true)
    (hn : covers rs n = true) : n ∈ rs.points := by
  obtain ⟨r, hr, hlow, hhigh⟩ := (covers_eq_true_iff h n).1 hn
  rw [points, List.mem_flatMap]
  refine ⟨r, hr, ?_⟩
  rw [List.mem_range'_1]
  omega

/-- White space is no letter. -/
theorem isLetter_of_isBlank {c : Char} (h : isBlank c = true) : isLetter c = false := by
  have hall : ∀ n ∈ blankRanges.points, letterRanges.covers n = false := by decide +kernel
  exact hall c.toNat (Ranges.mem_points blankRanges_ascending h)

/-- White space is no number. -/
theorem isNumeral_of_isBlank {c : Char} (h : isBlank c = true) : isNumeral c = false := by
  have hall : ∀ n ∈ blankRanges.points, numeralRanges.covers n = false := by decide +kernel
  exact hall c.toNat (Ranges.mem_points blankRanges_ascending h)

/-- White space is none of the characters that it does not contain. -/
theorem ne_of_isBlank {c d : Char} (h : isBlank c = true) (hd : isBlank d = false) : c ≠ d := by
  intro heq
  rw [heq, hd] at h
  contradiction

/-- No letter comes before the capital letters of ASCII. -/
theorem le_toNat_of_isLetter {c : Char} (h : isLetter c = true) : 0x41 ≤ c.toNat := by
  have hascending : letterRanges.ascendingFrom 0x41 = true := by decide +kernel
  obtain ⟨r, hr, hlow, -⟩ := (Ranges.covers_eq_true_iff hascending c.toNat).1 h
  have hstart := Ranges.start_le_of_mem hascending r hr
  omega

/-- Where the digits are. -/
theorem toNat_of_isDigit {c : Char} (h : c.isDigit = true) : 0x30 ≤ c.toNat ∧ c.toNat ≤ 0x39 := by
  rw [Char.isDigit, Bool.and_eq_true, decide_eq_true_eq, decide_eq_true_eq] at h
  exact h

end Text

open Text

/-- What begins a word stands behind the digits. -/
theorem le_toNat_of_isWordStart {c : Char} (h : isWordStart c = true) : 0x41 ≤ c.toNat := by
  rw [isWordStart, Bool.or_eq_true, decide_eq_true_eq] at h
  obtain h | rfl := h
  · exact le_toNat_of_isLetter h
  · decide

/-- What begins a numeral is a digit or a hyphen. -/
theorem toNat_of_isNumberStart {c : Char} (h : isNumberStart c = true) :
    (0x30 ≤ c.toNat ∧ c.toNat ≤ 0x39) ∨ c = '-' := by
  rw [isNumberStart, Bool.or_eq_true, decide_eq_true_eq] at h
  exact h.imp toNat_of_isDigit id

/-- White space is no part of a word. -/
theorem isWordPart_of_isBlank {c : Char} (h : isBlank c = true) : isWordPart c = false := by
  have hunderscore : c ≠ '_' := ne_of_isBlank h (by decide)
  have hpoint : c ≠ '.' := ne_of_isBlank h (by decide)
  have hdollar : c ≠ '$' := ne_of_isBlank h (by decide)
  simp [isWordPart, isLetter_of_isBlank h, isNumeral_of_isBlank h, hunderscore, hpoint, hdollar]

/-- What begins a word is no white space. -/
theorem isBlank_of_isWordStart {c : Char} (h : isWordStart c = true) : isBlank c = false := by
  rw [Bool.eq_false_iff]
  intro hblank
  have hunderscore : c ≠ '_' := ne_of_isBlank hblank (by decide)
  simp [isWordStart, isLetter_of_isBlank hblank, hunderscore] at h

/-- A digit is no white space. -/
theorem isBlank_of_isDigit {c : Char} (h : c.isDigit = true) : isBlank c = false := by
  rw [Bool.eq_false_iff]
  intro hblank
  have hpoint : c.toNat ∈ blankRanges.points := Ranges.mem_points blankRanges_ascending hblank
  have hall : ∀ n ∈ blankRanges.points, ¬(0x30 ≤ n ∧ n ≤ 0x39) := by decide +kernel
  exact hall c.toNat hpoint (toNat_of_isDigit h)

/-- What begins a numeral is no white space. -/
theorem isBlank_of_isNumberStart {c : Char} (h : isNumberStart c = true) : isBlank c = false := by
  rw [isNumberStart, Bool.or_eq_true, decide_eq_true_eq] at h
  obtain h | rfl := h
  · exact isBlank_of_isDigit h
  · decide

/-! ## Where tokens end -/

/-- Whether a token ends in front of a character, whatever its spelling. -/
def TokenKind.endsAt (kind : TokenKind) (c : Char) : Bool :=
  match kind with
  | word _ => !isWordPart c
  | quoted _ => c ≠ '\x27' && c ≠ '\x22'
  | number _ => !c.isDigit && c ≠ '.'
  | equals => c ≠ '='
  | unsupported _ => c ≠ '=' && c ≠ '>'
  | leftParen | rightParen => true

/-- White space goes on with no token. -/
theorem endsAt_of_isBlank {c : Char} (h : isBlank c = true) (kind : TokenKind) :
    kind.endsAt c = true := by
  cases kind with
  | word w => simp [TokenKind.endsAt, isWordPart_of_isBlank h]
  | quoted s =>
    simp [TokenKind.endsAt, ne_of_isBlank h (d := '\x27') (by decide),
      ne_of_isBlank h (d := '\x22') (by decide)]
  | number n =>
    have hdigit : c.isDigit = false := by
      rw [Bool.eq_false_iff]
      intro hdigit
      rw [isBlank_of_isDigit hdigit] at h
      contradiction
    simp [TokenKind.endsAt, hdigit, ne_of_isBlank h (d := '.') (by decide)]
  | equals => simp [TokenKind.endsAt, ne_of_isBlank h (d := '=') (by decide)]
  | unsupported operator =>
    simp [TokenKind.endsAt, ne_of_isBlank h (d := '=') (by decide),
      ne_of_isBlank h (d := '>') (by decide)]
  | leftParen => rfl
  | rightParen => rfl

namespace Lexeme

/-! ### Which sort of token starts -/

/-- What begins a word is read as one. -/
theorem next_of_isWordStart {c : Char} (h : isWordStart c = true) (cs : List Char) :
    next c cs = .ok (word c cs) := by
  have hle := le_toNat_of_isWordStart h
  have hne : ∀ d : Char, d.toNat < 0x41 → c ≠ d := fun d hd heq => by
    rw [heq] at hle
    omega
  have hnumber : isNumberStart c = false := by
    rw [Bool.eq_false_iff]
    intro hnumber
    obtain hdigit | rfl := toNat_of_isNumberStart hnumber
    · omega
    · contradiction
  simp [next, hnumber, h, hne '(' (by decide), hne ')' (by decide), hne ',' (by decide),
    hne '=' (by decide), hne '<' (by decide), hne '>' (by decide), hne '!' (by decide),
    hne '\x27' (by decide), hne '\x22' (by decide)]

/-- What begins a numeral is read as one. -/
theorem next_of_isNumberStart {c : Char} (h : isNumberStart c = true) (cs : List Char) :
    next c cs = numeral c cs := by
  have hrange := toNat_of_isNumberStart h
  have hne : ∀ d : Char, (d.toNat < 0x30 ∨ 0x39 < d.toNat) → d ≠ '-' → c ≠ d :=
    fun d hd hminus heq => by
    rw [heq] at hrange
    obtain hdigit | hrange := hrange
    · omega
    · exact hminus hrange
  simp [next, h, hne '(' (by decide) (by decide), hne ')' (by decide) (by decide),
    hne ',' (by decide) (by decide), hne '=' (by decide) (by decide),
    hne '<' (by decide) (by decide), hne '>' (by decide) (by decide),
    hne '!' (by decide) (by decide), hne '\x27' (by decide) (by decide),
    hne '\x22' (by decide) (by decide)]

/-- A quote begins a quotation. -/
theorem next_of_isQuote {c : Char} (h : c = '\x27' ∨ c = '\x22') (cs : List Char) :
    next c cs = quotation c cs := by
  obtain rfl | rfl := h <;> rfl

/-! ### Where it ends -/

/-- A word is read up to what is no part of it. -/
theorem word_append {c : Char} {cs rest : List Char} (h : cs.all isWordPart = true)
    (hrest : ∀ d ∈ rest.head?, isWordPart d = false) :
    word c (cs ++ rest) = ⟨.word (String.ofList (c :: cs)), c :: cs, rest⟩ := by
  rw [word, takeWhile_append_of_head h hrest, dropWhile_append_of_head h hrest]

/-- A numeral is read up to what is no part of it. -/
theorem numberTail_append_of_head {cs rest : List Char} (h : NumberTail cs)
    (hrest : ∀ d ∈ rest.head?, d.isDigit = false ∧ d ≠ '.') :
    numberTail (cs ++ rest) = (cs, rest) := by
  have hdigit : ∀ d ∈ rest.head?, d.isDigit = false := fun d hd => (hrest d hd).1
  cases h with
  | whole h =>
    unfold numberTail
    rw [takeWhile_append_of_head h hdigit, dropWhile_append_of_head h hdigit]
    cases rest with
    | nil => rfl
    | cons d rest =>
      have hpoint : d ≠ '.' := (hrest d rfl).2
      simp [hpoint]
  | @fraction digits places h h' hne =>
    have hpoint : ∀ d ∈ ('.' :: (places ++ rest)).head?, d.isDigit = false := fun d hd => by
      cases hd
      rfl
    unfold numberTail
    rw [List.append_assoc, List.cons_append, takeWhile_append_of_head h hpoint,
      dropWhile_append_of_head h hpoint]
    simp only [takeWhile_append_of_head h' hdigit, dropWhile_append_of_head h' hdigit]

/-- The last character of a number is no point. -/
theorem getLast?_ne_point {c : Char} {cs : List Char} (hc : isNumberStart c = true)
    (h : NumberTail cs) :
    (c :: cs).getLast? ≠ some '.' := by
  have hlast : ∀ digits : List Char, digits.all Char.isDigit = true →
      digits.getLast? ≠ some '.' := by
    intro digits h hp
    have hdigit := List.all_eq_true.1 h '.' (List.mem_of_getLast? hp)
    contradiction
  cases h with
  | whole h =>
    cases cs with
    | nil =>
      intro hp
      cases hp
      contradiction
    | cons d digits =>
      rw [List.getLast?_cons_cons]
      exact hlast _ h
  | @fraction digits places h h' hne =>
    obtain ⟨d, places, rfl⟩ := List.exists_cons_of_ne_nil hne
    rw [← List.cons_append, List.getLast?_append, List.getLast?_cons_cons]
    cases hp : (d :: places).getLast? with
    | none => simp at hp
    | some p =>
      intro heq
      cases heq
      exact hlast _ h' hp

/-- A numeral is cut off before what is no part of it. -/
theorem numeral_append {c : Char} {cs rest : List Char} (hc : isNumberStart c = true)
    (h : NumberTail cs) (hne : c :: cs ≠ ['-'])
    (hrest : ∀ d ∈ rest.head?, d.isDigit = false ∧ d ≠ '.') :
    numeral c (cs ++ rest) = .ok ⟨.number (String.ofList (c :: cs)), c :: cs, rest⟩ := by
  have hgood : ¬(c :: cs = ['-'] ∨ (c :: cs).getLast? = some '.') :=
    not_or.2 ⟨hne, getLast?_ne_point hc h⟩
  simp only [numeral, numberTail_append_of_head h hrest]
  rw [if_neg hgood]

/-- Doubled quotes are read as one, and the first single one ends the text. -/
theorem readQuoted_doubled {quote : Char} {rest : List Char} (hrest : ∀ d ∈ rest.head?, d ≠ quote)
    (s content : List Char) :
    readQuoted quote content (doubled quote s ++ quote :: rest) =
      some (content.reverse ++ s, rest) := by
  induction s generalizing content with
  | nil =>
    cases rest with
    | nil => simp [doubled, readQuoted]
    | cons d rest =>
      have hd : d ≠ quote := hrest d rfl
      simp [doubled, readQuoted, hd]
  | cons c s ih =>
    by_cases hc : c = quote
    · subst hc
      have hread := ih (c :: content)
      simp only [doubled, List.flatMap_cons, if_true, List.cons_append, List.nil_append,
        readQuoted] at hread ⊢
      rw [hread]
      simp
    · have hread := ih (c :: content)
      simp only [doubled, List.flatMap_cons, if_neg hc, List.cons_append,
        List.nil_append] at hread ⊢
      unfold readQuoted
      rw [if_neg hc, hread]
      simp

/-- A quotation is cut off behind its closing quote. -/
theorem quotation_append {quote : Char} {rest : List Char} (hrest : ∀ d ∈ rest.head?, d ≠ quote)
    (s : List Char) :
    quotation quote (doubled quote s ++ [quote] ++ rest) =
      .ok ⟨.quoted (String.ofList s), quote :: (doubled quote s ++ [quote]), rest⟩ := by
  rw [quotation, List.append_assoc, List.singleton_append, readQuoted_doubled hrest]
  rfl

/-- Two signs that belong together are one operator. -/
theorem operator_pair {c d : Char} (h : d = '=' ∨ (c = '<' ∧ d = '>')) (rest : List Char) :
    operator c (d :: rest) = ⟨.unsupported (String.ofList [c, d]), [c, d], rest⟩ := by
  rw [operator, if_pos h]

/-- A sign that nothing belongs to is an operator of its own. -/
theorem operator_single {c : Char} {rest : List Char}
    (hrest : ∀ d ∈ rest.head?, ¬(d = '=' ∨ (c = '<' ∧ d = '>'))) :
    operator c rest = ⟨operator.sign c, [c], rest⟩ := by
  cases rest with
  | nil => rfl
  | cons d rest => rw [operator, if_neg (hrest d rfl)]

/-- The lexeme at the front of a text is the spelling that stands there. -/
theorem next_of_spells {spelling rest : List Char} {kind : TokenKind} (h : Spells spelling kind)
    (hrest : ∀ d ∈ rest.head?, kind.endsAt d = true) :
    ∃ c cs, spelling = c :: cs ∧ isBlank c = false ∧
      next c (cs ++ rest) = .ok ⟨kind, spelling, rest⟩ := by
  cases h with
  | @word c cs hc hcs =>
    have hend : ∀ d ∈ rest.head?, isWordPart d = false := fun d hd => by
      simpa [TokenKind.endsAt] using hrest d hd
    refine ⟨c, cs, rfl, isBlank_of_isWordStart hc, ?_⟩
    rw [next_of_isWordStart hc, word_append hcs hend]
  | @quoted quote s hquote =>
    have hend : ∀ d ∈ rest.head?, d ≠ quote := fun d hd => by
      have hd := hrest d hd
      rw [TokenKind.endsAt, Bool.and_eq_true, decide_eq_true_eq, decide_eq_true_eq] at hd
      obtain rfl | rfl := hquote
      · exact hd.1
      · exact hd.2
    have hblank : isBlank quote = false := by obtain rfl | rfl := hquote <;> decide
    refine ⟨quote, _, rfl, hblank, ?_⟩
    rw [next_of_isQuote hquote, quotation_append hend]
  | @number c cs hc htail hne =>
    have hend : ∀ d ∈ rest.head?, d.isDigit = false ∧ d ≠ '.' := fun d hd => by
      simpa [TokenKind.endsAt] using hrest d hd
    refine ⟨c, cs, rfl, isBlank_of_isNumberStart hc, ?_⟩
    rw [next_of_isNumberStart hc, numeral_append hc htail hne hend]
  | equals =>
    have hend : ∀ d ∈ rest.head?, ¬(d = '=' ∨ ('=' = '<' ∧ d = '>')) := fun d hd => by
      simpa [TokenKind.endsAt] using hrest d hd
    exact ⟨'=', [], rfl, by decide, congrArg Except.ok (operator_single hend)⟩
  | leftParen => exact ⟨'(', [], rfl, by decide, rfl⟩
  | rightParen => exact ⟨')', [], rfl, by decide, rfl⟩
  | @unsupported operator hop =>
    have hend : ∀ c : Char, ∀ d ∈ rest.head?, ¬(d = '=' ∨ (c = '<' ∧ d = '>')) := fun c d hd => by
      have hd := hrest d hd
      rw [TokenKind.endsAt, Bool.and_eq_true, decide_eq_true_eq, decide_eq_true_eq] at hd
      exact not_or.2 ⟨hd.1, fun hboth => hd.2 hboth.2⟩
    simp only [unsupportedOperators, List.mem_cons, List.not_mem_nil, or_false] at hop
    obtain rfl | rfl | rfl | rfl | rfl | rfl | rfl | rfl | rfl := hop
    · exact ⟨'=', ['='], rfl, by decide, congrArg Except.ok (operator_pair (.inl rfl) rest)⟩
    · exact ⟨',', [], rfl, by decide, rfl⟩
    · exact ⟨'<', [], rfl, by decide, congrArg Except.ok (operator_single (hend '<'))⟩
    · exact ⟨'>', [], rfl, by decide, congrArg Except.ok (operator_single (hend '>'))⟩
    · exact ⟨'!', [], rfl, by decide, congrArg Except.ok (operator_single (hend '!'))⟩
    · exact ⟨'<', ['='], rfl, by decide, congrArg Except.ok (operator_pair (.inl rfl) rest)⟩
    · exact ⟨'>', ['='], rfl, by decide, congrArg Except.ok (operator_pair (.inl rfl) rest)⟩
    · exact ⟨'!', ['='], rfl, by decide, congrArg Except.ok (operator_pair (.inl rfl) rest)⟩
    · exact ⟨'<', ['>'], rfl, by decide, congrArg Except.ok (operator_pair (.inr ⟨rfl, rfl⟩) rest)⟩

end Lexeme

/-! ## Cutting -/

/-- White space is skipped. -/
theorem tokensFrom_of_isBlank {c : Char} (h : isBlank c = true) (before : List Token) (offset : Nat)
    (cs : List Char) :
    tokensFrom before offset (c :: cs) = tokensFrom before (offset + c.utf8Size) cs := by
  rw [tokensFrom, if_pos h]

/-- A spelling that ends where something else starts is read as its token. -/
theorem tokensFrom_of_spells {spelling rest : List Char} {kind : TokenKind}
    (h : Spells spelling kind) (hrest : ∀ d ∈ rest.head?, kind.endsAt d = true)
    (before : List Token) (offset : Nat) :
    tokensFrom before offset (spelling ++ rest) =
      tokensFrom (⟨kind, offset⟩ :: before) (offset + utf8Length spelling) rest := by
  obtain ⟨c, cs, rfl, hblank, hnext⟩ := Lexeme.next_of_spells h hrest
  have hfalse : ¬isBlank c = true := by
    rw [hblank]
    exact Bool.false_ne_true
  rw [List.cons_append, tokensFrom, if_neg hfalse]
  split
  · next l hl =>
    rw [hnext] at hl
    cases hl
    rfl
  · next source hsource =>
    rw [hnext] at hsource
    contradiction

/-- A text is laid out as tokens: each is spelled and ends where something else starts, with white
space before, between and behind them. -/
inductive Cut : List Char → List TokenKind → Prop where
  | nil : Cut [] []
  | blank {c : Char} {cs : List Char} {kinds : List TokenKind} : isBlank c = true → Cut cs kinds →
      Cut (c :: cs) kinds
  | token {spelling rest : List Char} {kind : TokenKind} {kinds : List TokenKind} :
      Spells spelling kind →
      (∀ d ∈ rest.head?, kind.endsAt d = true) → Cut rest kinds →
      Cut (spelling ++ rest) (kind :: kinds)

/-- White space is cut into nothing. -/
theorem cut_of_all_isBlank {cs : List Char} (h : cs.all isBlank = true) : Cut cs [] := by
  induction cs with
  | nil => exact .nil
  | cons c cs ih =>
    rw [List.all_cons, Bool.and_eq_true] at h
    exact .blank h.1 (ih h.2)

/-- A text that is cut into tokens is read as them. -/
theorem tokensFrom_of_cut {cs : List Char} {kinds : List TokenKind} (h : Cut cs kinds)
    (before : List Token) (offset : Nat) :
    ∃ ts, tokensFrom before offset cs = .ok (before.reverse ++ ts) ∧ ts.map Token.kind = kinds := by
  induction h generalizing before offset with
  | nil => exact ⟨[], by rw [tokensFrom, List.append_nil], rfl⟩
  | blank hblank _ ih =>
    obtain ⟨ts, hts, hkinds⟩ := ih before _
    exact ⟨ts, by rw [tokensFrom_of_isBlank hblank, hts], hkinds⟩
  | @token spelling rest kind kinds hspells hend _ ih =>
    obtain ⟨ts, hts, hkinds⟩ := ih (⟨kind, offset⟩ :: before) (offset + utf8Length spelling)
    refine ⟨⟨kind, offset⟩ :: ts, ?_, by rw [List.map_cons, hkinds]⟩
    rw [tokensFrom_of_spells hspells hend, hts, List.reverse_cons, List.append_assoc,
      List.singleton_append]

/-- A text that is laid out as tokens is cut into them. -/
theorem exists_tokenize_of_cut {text : String} {kinds : List TokenKind}
    (h : Cut text.toList kinds) :
    ∃ ts, tokenize text = .ok ts ∧ ts.map Token.kind = kinds :=
  tokensFrom_of_cut h [] 0

end ClusterMap
