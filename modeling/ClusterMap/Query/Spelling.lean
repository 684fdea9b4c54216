import ClusterMap.Query.Token

/-!
# The spelling of tokens

Which characters write a token, and how tokens lie in a text, without regard to how they are found.
Main statement: `spells_of_next`, a lexeme is a spelling of its kind.
-/

namespace ClusterMap

open Text

/-- The operators that are tokens only so that they can be reported. -/
def unsupportedOperators : List String := ["==", ",", "<", ">", "!", "<=", ">=", "!=", "<>"]

/-- What may follow the first character of a number: digits, and at most one point that digits
follow. -/
inductive NumberTail : List Char → Prop where
  | whole {digits : List Char} : digits.all Char.isDigit = true → NumberTail digits
  | fraction {digits places : List Char} : digits.all Char.isDigit = true →
      places.all Char.isDigit = true → places ≠ [] → NumberTail (digits ++ '.' :: places)

/-- The characters that write a token. -/
inductive Spells : List Char → TokenKind → Prop where
  | word {c : Char} {cs : List Char} : isWordStart c = true → cs.all isWordPart = true →
      Spells (c :: cs) (.word (String.ofList (c :: cs)))
  | quoted {quote : Char} (s : List Char) : quote = '\x27' ∨ quote = '\x22' →
      Spells (quote :: (Lexeme.doubled quote s ++ [quote])) (.quoted (String.ofList s))
  | number {c : Char} {cs : List Char} : isNumberStart c = true → NumberTail cs → c :: cs ≠ ['-'] →
      Spells (c :: cs) (.number (String.ofList (c :: cs)))
  | equals : Spells ['='] .equals
  | leftParen : Spells ['('] .leftParen
  | rightParen : Spells [')'] .rightParen
  | unsupported {operator : String} : operator ∈ unsupportedOperators →
      Spells operator.toList (.unsupported operator)

/-- A text of which the first character is the byte `offset` spells tokens in order, each at its
place, with white space before, between and behind them. -/
inductive Layout : (offset : Nat) → List Char → List Token → Prop where
  | blank {offset : Nat} {space : List Char} : space.all isBlank = true → Layout offset space []
  | token {offset : Nat} {space spelling rest : List Char} {kind : TokenKind} {ts : List Token} :
      space.all isBlank = true → Spells spelling kind → (∀ c ∈ rest.head?, isBlank c = true) →
      Layout (offset + utf8Length (space ++ spelling)) rest ts →
      Layout offset (space ++ spelling ++ rest) (⟨kind, offset + utf8Length space⟩ :: ts)

theorem Spells.ne_nil {cs : List Char} {kind : TokenKind} (h : Spells cs kind) : cs ≠ [] := by
  cases h with
  | unsupported hop =>
    simp only [unsupportedOperators, List.mem_cons, List.not_mem_nil, or_false] at hop
    rcases hop with rfl | rfl | rfl | rfl | rfl | rfl | rfl | rfl | rfl <;> decide
  | _ => exact List.cons_ne_nil _ _

namespace Lexeme

theorem spells_operator {c : Char} (hc : c = '=' ∨ c = '<' ∨ c = '>' ∨ c = '!') (cs : List Char) :
    Spells (operator c cs).source (operator c cs).kind := by
  have sign : Spells [c] (operator.sign c) := by
    rcases hc with rfl | rfl | rfl | rfl
    · exact .equals
    · exact @Spells.unsupported "<" (by decide)
    · exact @Spells.unsupported ">" (by decide)
    · exact @Spells.unsupported "!" (by decide)
  unfold operator
  split
  · exact sign
  · next d tail =>
    split
    · next hd =>
      have pair : String.ofList [c, d] ∈ unsupportedOperators := by
        rcases hd with rfl | ⟨rfl, rfl⟩
        · rcases hc with rfl | rfl | rfl | rfl <;> decide
        · decide
      simpa using Spells.unsupported pair
    · exact sign

theorem spells_quotation {quote : Char} {cs : List Char} {l : Lexeme}
    (hq : quote = '\x27' ∨ quote = '\x22') (h : quotation quote cs = .ok l) :
    Spells l.source l.kind := by
  unfold quotation at h
  split at h
  · cases h; exact .quoted _ hq
  · contradiction

/-- The characters of a number are digits and at most one point, and a point that is not the last of
them has digits behind it. -/
theorem numberTail_fst (cs : List Char) (h : (numberTail cs).1.getLast? ≠ some '.') :
    NumberTail (numberTail cs).1 := by
  unfold numberTail at h ⊢
  split
  · next rest hrest =>
    rw [hrest] at h
    refine .fraction List.all_takeWhile List.all_takeWhile fun hnil => ?_
    simp [hnil] at h
  · exact .whole List.all_takeWhile

theorem spells_numeral {c : Char} {cs : List Char} {l : Lexeme} (hc : isNumberStart c = true)
    (h : numeral c cs = .ok l) : Spells l.source l.kind := by
  simp only [numeral] at h
  split at h
  · contradiction
  · next hbad =>
    cases h
    rw [not_or] at hbad
    refine .number hc (numberTail_fst cs fun hlast => hbad.2 ?_) hbad.1
    cases ht : (numberTail cs).1 with
    | nil => simp [ht] at hlast
    | cons d tail => rw [ht] at hlast; simpa using hlast

theorem spells_word {c : Char} (hc : isWordStart c = true) (cs : List Char) :
    Spells (word c cs).source (word c cs).kind :=
  .word hc List.all_takeWhile

/-- A lexeme is a spelling of its kind. -/
theorem spells_of_next {c : Char} {cs : List Char} {l : Lexeme} (h : next c cs = .ok l) :
    Spells l.source l.kind := by
  unfold next at h
  split at h
  · next hc => cases h; subst hc; exact .leftParen
  split at h
  · next hc => cases h; subst hc; exact .rightParen
  split at h
  · next hc => cases h; subst hc; exact @Spells.unsupported "," (by decide)
  split at h
  · next hc => cases h; exact spells_operator hc cs
  split at h
  · next hc => exact spells_quotation hc h
  split at h
  · next hc => exact spells_numeral hc h
  split at h
  · next hc => cases h; exact spells_word hc cs
  · contradiction

end Lexeme

end ClusterMap
