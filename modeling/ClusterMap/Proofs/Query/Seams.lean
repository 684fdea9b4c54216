import ClusterMap.Proofs.Query.Cutting

/-!
# Texts put together

A text that is cut into tokens is cut into the same tokens in front of another one, if this begins
with a character that no token goes on with, such as a closing parenthesis. Within the first text
nothing changes, and at the seam the last token ends. Main statements: `Lexeme.next_append`, the
lexeme at the front of a text does not change if it ends inside the text or in front of the other
one; `isCut_append`.
-/

namespace ClusterMap

open Text

/-! ## Lexemes in front of more text -/

section Span

variable {α : Type} {p : α → Bool} {l rest : List α}

/-- What is taken from a text ends where it ended, if that is inside the text or the next one does
not fit. -/
theorem takeWhile_append_of_stop (h : l.dropWhile p = [] → ∀ a ∈ rest.head?, p a = false) :
    (l ++ rest).takeWhile p = l.takeWhile p := by
  induction l with
  | nil => cases rest with
    | nil => rfl
    | cons a rest => simp [h rfl a rfl]
  | cons a l ih => by_cases ha : p a <;> simp_all

theorem dropWhile_append_of_stop (h : l.dropWhile p = [] → ∀ a ∈ rest.head?, p a = false) :
    (l ++ rest).dropWhile p = l.dropWhile p ++ rest := by
  induction l with
  | nil => cases rest with
    | nil => rfl
    | cons a rest => simp [h rfl a rfl]
  | cons a l ih => by_cases ha : p a <;> simp_all

end Span

namespace Lexeme

variable {c : Char} {cs rest : List Char} {l : Lexeme}

/-- A lexeme in front of more text. -/
def before (l : Lexeme) (rest : List Char) : Lexeme := { l with rest := l.rest ++ rest }

theorem readQuoted_append_of_stop {quote : Char} {content s tail : List Char}
    (h : readQuoted quote content cs = some (s, tail))
    (hrest : tail = [] → ∀ d ∈ rest.head?, d ≠ quote) :
    readQuoted quote content (cs ++ rest) = some (s, tail ++ rest) := by
  fun_induction readQuoted quote content cs with
  | case1 => contradiction
  | case2 content =>
    cases h
    cases rest with
    | nil => simp [readQuoted]
    | cons d rest => simp [readQuoted, hrest rfl d rfl]
  | case3 content cs ih => simpa [readQuoted] using ih h
  | case4 content d cs hd =>
    cases h
    simp [readQuoted, hd]
  | case5 content c cs hc ih =>
    rw [List.cons_append, readQuoted.eq_def]
    simpa [hc] using ih h

theorem numberTail_append_of_stop
    (h : (numberTail cs).2 = [] → ∀ d ∈ rest.head?, d.isDigit = false ∧ d ≠ '.') :
    numberTail (cs ++ rest) = ((numberTail cs).1, (numberTail cs).2 ++ rest) := by
  unfold numberTail at h ⊢
  cases hdrop : cs.dropWhile Char.isDigit with
  | nil =>
    have hhead : ∀ d ∈ rest.head?, d.isDigit = false ∧ d ≠ '.' := h (by simp [hdrop])
    have hdigit : ∀ d ∈ rest.head?, d.isDigit = false := fun d hd => (hhead d hd).1
    rw [takeWhile_append_of_stop fun _ => hdigit, dropWhile_append_of_stop fun _ => hdigit, hdrop]
    cases rest with
    | nil => rfl
    | cons d rest => simp [(hhead d rfl).2]
  | cons d tail =>
    have hne : cs.dropWhile Char.isDigit = [] → ∀ d ∈ rest.head?, d.isDigit = false := by
      simp [hdrop]
    rw [takeWhile_append_of_stop hne, dropWhile_append_of_stop hne, hdrop]
    by_cases hpoint : d = '.'
    · subst hpoint
      have hdigit : tail.dropWhile Char.isDigit = [] → ∀ d ∈ rest.head?, d.isDigit = false :=
        fun hnil d hd =>
        (h (by simp [hdrop, hnil]) d hd).1
      simp [takeWhile_append_of_stop hdigit, dropWhile_append_of_stop hdigit]
    · simp [hpoint]

/-! ### Each sort of lexeme

A lexeme ends inside the text, or what follows the text does not go on with it. -/

section Before

variable (hrest : l.rest = [] → ∀ d ∈ rest.head?, l.kind.endsAt d = true)

include hrest

theorem operator_before (h : operator c cs = l) : operator c (cs ++ rest) = l.before rest := by
  subst h
  cases cs with
  | cons d tail =>
    simp only [List.cons_append, operator]
    split <;> rfl
  | nil =>
    refine operator_single fun d hd hd' => ?_
    have hend : (operator.sign c).endsAt d = true := hrest rfl d hd
    unfold operator.sign at hend
    split at hend <;> simp_all [TokenKind.endsAt]

theorem quotation_before (hc : c = '\x27' ∨ c = '\x22') (h : quotation c cs = .ok l) :
    quotation c (cs ++ rest) = .ok (l.before rest) := by
  unfold quotation at h
  split at h
  · next s tail hread =>
    cases h
    have hquote : tail = [] → ∀ d ∈ rest.head?, d ≠ c := fun hnil d hd => by
      have hend := hrest hnil d hd
      obtain rfl | rfl := hc <;> simp_all [TokenKind.endsAt]
    rw [quotation, readQuoted_append_of_stop hread hquote]
    rfl
  · contradiction

theorem numeral_before (h : numeral c cs = .ok l) :
    numeral c (cs ++ rest) = .ok (l.before rest) := by
  simp only [numeral] at h ⊢
  split at h
  · contradiction
  · next hgood =>
    cases h
    have htail : (numberTail cs).2 = [] → ∀ d ∈ rest.head?, d.isDigit = false ∧ d ≠ '.' := by
      simpa [TokenKind.endsAt] using hrest
    rw [numberTail_append_of_stop htail, if_neg hgood]
    rfl

theorem word_before (h : word c cs = l) : word c (cs ++ rest) = l.before rest := by
  subst h
  have hpart : cs.dropWhile isWordPart = [] → ∀ d ∈ rest.head?, isWordPart d = false := by
    simpa [TokenKind.endsAt, word] using hrest
  simp only [word, before, takeWhile_append_of_stop hpart, dropWhile_append_of_stop hpart]

/-- The lexeme at the front of a text is the one at the front of a longer text. -/
theorem next_append (h : next c cs = .ok l) : next c (cs ++ rest) = .ok (l.before rest) := by
  unfold next at h ⊢
  split_ifs at h ⊢ with _ _ _ _ hquote
  · cases h
    rfl
  · cases h
    rfl
  · cases h
    rfl
  · rw [operator_before hrest (Except.ok.inj h)]
  · exact quotation_before hrest hquote h
  · exact numeral_before hrest h
  · rw [word_before hrest (Except.ok.inj h)]

end Before

end Lexeme

/-! ## Tokens in front of more text -/

/-- Whether a text begins with a character that no token goes on with, or has none. -/
def Stops (rest : List Char) : Prop := ∀ d ∈ rest.head?, ∀ kind : TokenKind, kind.endsAt d = true

/-- Whether a text is cut into some tokens, wherever it begins. -/
def IsCut (cs : List Char) (kinds : List TokenKind) : Prop :=
  ∀ (before : List Token) (offset : Nat),
    ∃ ts, tokensFrom before offset cs = .ok (before.reverse ++ ts) ∧ ts.map Token.kind = kinds

section IsCut

variable {cs rest : List Char} {kinds others : List TokenKind}

theorem stops_rightParen : Stops (')' :: rest) := by
  intro d hd kind
  cases hd
  cases kind <;> rfl

theorem isCut_nil : IsCut [] [] := fun before offset => ⟨[], by simp [tokensFrom], rfl⟩

theorem isCut_blank {c : Char} (hc : isBlank c = true) (h : IsCut cs kinds) :
    IsCut (c :: cs) kinds := by
  intro before offset
  rw [tokensFrom_of_isBlank hc]
  exact h before _

/-- One token more in front. -/
theorem isCut_cons {before : List Token} {offset offset' : Nat} {kind : TokenKind}
    {text : List Char} (htext : tokensFrom before offset text =
      tokensFrom (⟨kind, offset⟩ :: before) offset' cs) (h : IsCut cs kinds) :
    ∃ ts, tokensFrom before offset text = .ok (before.reverse ++ ts) ∧
      ts.map Token.kind = kind :: kinds := by
  obtain ⟨ts, hts, hkinds⟩ := h (⟨kind, offset⟩ :: before) offset'
  exact ⟨⟨kind, offset⟩ :: ts, by simp [htext, hts], by simp [hkinds]⟩

theorem isCut_token {spelling : List Char} {kind : TokenKind} (hspells : Spells spelling kind)
    (hend : ∀ d ∈ rest.head?, kind.endsAt d = true) (h : IsCut rest others) :
    IsCut (spelling ++ rest) (kind :: others) :=
  fun before offset => isCut_cons (tokensFrom_of_spells hspells hend before offset) h

theorem tokensFrom_of_next {c : Char} {l : Lexeme} (hc : isBlank c = false)
    (h : Lexeme.next c cs = .ok l) (before : List Token) (offset : Nat) :
    tokensFrom before offset (c :: cs) =
      tokensFrom (⟨l.kind, offset⟩ :: before) (offset + utf8Length l.source) l.rest := by
  rw [tokensFrom, hc]
  simp only [Bool.false_eq_true, if_false]
  split
  · next l' hl => rw [h] at hl; cases hl; rfl
  · next source hsource => rw [h] at hsource; contradiction

/-- A text that is cut into tokens is cut into the same ones in front of what no token goes on
with. -/
theorem isCut_append_of_tokensFrom {before ts : List Token} {offset : Nat}
    (hcs : tokensFrom before offset cs = .ok ts) (hrest : Stops rest) (h : IsCut rest others) :
    ∃ us, ts = before.reverse ++ us ∧ IsCut (cs ++ rest) (us.map Token.kind ++ others) := by
  fun_induction tokensFrom before offset cs with
  | case1 before offset =>
    cases hcs
    exact ⟨[], by simp, h⟩
  | case2 before offset c cs hblank ih =>
    obtain ⟨us, hus, hcut⟩ := ih hcs
    exact ⟨us, hus, isCut_blank hblank hcut⟩
  | case3 before offset c cs hblank l hnext hlength ih =>
    obtain ⟨us, rfl, hcut⟩ := ih hcs
    refine ⟨⟨l.kind, offset⟩ :: us, by simp, fun before' offset' => ?_⟩
    have hfirst : Lexeme.next c (cs ++ rest) = .ok (l.before rest) :=
      Lexeme.next_append (fun _ d hd => hrest d hd l.kind) hnext
    exact isCut_cons (tokensFrom_of_next (Bool.eq_false_iff.2 hblank) hfirst before' offset') hcut
  | case4 => contradiction

/-- Only white space is cut into no tokens. -/
theorem all_isBlank_of_tokensFrom {before : List Token} {offset : Nat}
    (h : tokensFrom before offset cs = .ok before.reverse) : cs.all isBlank = true := by
  fun_induction tokensFrom before offset cs with
  | case1 => rfl
  | case2 before offset c cs hblank ih => simp [hblank, ih h]
  | case3 before offset c cs hblank l hnext hlength ih =>
    obtain ⟨us, hus, -⟩ := isCut_append_of_tokensFrom h (fun _ hd => by contradiction) isCut_nil
    have hcount := congrArg List.length hus
    simp at hcount
  | case4 => contradiction

theorem isCut_append {text : String} {ts : List Token} (htext : tokenize text = .ok ts)
    (hrest : Stops rest) (h : IsCut rest others) :
    IsCut (text.toList ++ rest) (ts.map Token.kind ++ others) := by
  obtain ⟨us, rfl, hcut⟩ := isCut_append_of_tokensFrom htext hrest h
  exact hcut

end IsCut

end ClusterMap
