import ClusterMap.Error
import ClusterMap.Text.Blank
import ClusterMap.Text.Letter
import ClusterMap.Text.Numeral
import ClusterMap.Text.Utf8

/-!
# Tokens of the predicate language

A predicate text as tokens, each with the byte where it starts: words, quoted texts, numbers,
parentheses, the equals sign, and the operators of larger languages, which are tokens only so that
they can be reported. A token is as long as it can be, and only white space stands between tokens.
Main statement: `Lexeme.isFront_next`, a lexeme is the front of the text.
-/

namespace ClusterMap

open Text

/-! ## Tokens -/

/-- What a token is. -/
inductive TokenKind where
  /-- A field name, a keyword or a literal without quotes. -/
  | word (w : String)
  /-- The text between quotes, every doubled quote inside it written once. -/
  | quoted (s : String)
  /-- A numeral as written. -/
  | number (n : String)
  | equals
  | leftParen
  | rightParen
  /-- An operator that no predicate contains. -/
  | unsupported (operator : String)
  deriving DecidableEq, Repr

/-- A token and the byte of the text where it starts. -/
structure Token where
  kind : TokenKind
  offset : Nat
  deriving DecidableEq, Repr

/-- A token as a message shows it. -/
def TokenKind.text : TokenKind → String
  | word w => w
  | quoted s => "'" ++ s ++ "'"
  | number n => n
  | equals => "="
  | leftParen => "("
  | rightParen => ")"
  | unsupported operator => operator

/-- The error that stops at a token. -/
def Token.unexpected (t : Token) : SyntaxError := ⟨t.kind.text, t.offset⟩

/-! ## Lexemes -/

/-- Whether a word may start with a character. -/
def isWordStart (c : Char) : Bool := isLetter c || c = '_'

/-- Whether a word may go on with a character. -/
def isWordPart (c : Char) : Bool := isLetter c || isNumeral c || c = '_' || c = '.' || c = '$'

/-- Whether a number may start with a character. -/
def isNumberStart (c : Char) : Bool := c.isDigit || c = '-'

/-- A token at the front of a text: its kind, its characters, and what follows them. -/
structure Lexeme where
  kind : TokenKind
  source : List Char
  rest : List Char

namespace Lexeme

/-- A text with every occurrence of a quote doubled. -/
def doubled (quote : Char) (s : List Char) : List Char :=
  s.flatMap fun c => if c = quote then [c, c] else [c]

/-- The text up to the first single occurrence of a quote, and what follows it; `content` is what
came before, last first. None if the quote is missing. -/
def readQuoted (quote : Char) (content : List Char) : List Char → Option (List Char × List Char)
  | [] => none
  | c :: rest =>
    if c = quote then
      match rest with
      | [] => some (content.reverse, [])
      | d :: rest =>
        if d = quote then readQuoted quote (quote :: content) rest
        else some (content.reverse, d :: rest)
    else readQuoted quote (c :: content) rest

/-- The characters of a number after its first: digits and at most one point. -/
def numberTail (cs : List Char) : List Char × List Char :=
  let whole := cs.takeWhile Char.isDigit
  match cs.dropWhile Char.isDigit with
  | '.' :: rest => (whole ++ '.' :: rest.takeWhile Char.isDigit, rest.dropWhile Char.isDigit)
  | rest => (whole, rest)

/-- An equals sign or a comparison operator, which a second sign may extend. -/
def operator (c : Char) (rest : List Char) : Lexeme :=
  match rest with
  | [] => ⟨sign c, [c], []⟩
  | d :: tail =>
    if d = '=' ∨ (c = '<' ∧ d = '>') then ⟨.unsupported (String.ofList [c, d]), [c, d], tail⟩
    else ⟨sign c, [c], d :: tail⟩
where
  /-- The kind of the sign alone. -/
  sign (c : Char) : TokenKind := if c = '=' then .equals else .unsupported (String.ofList [c])

/-- A text between quotes; without the closing quote, everything from the opening one on is at
fault. -/
def quotation (quote : Char) (rest : List Char) : Except (List Char) Lexeme :=
  match readQuoted quote [] rest with
  | some (content, rest) =>
    .ok ⟨.quoted (String.ofList content), quote :: (doubled quote content ++ [quote]), rest⟩
  | none => .error (quote :: rest)

/-- A number; a minus alone and a point at the end are at fault. -/
def numeral (c : Char) (rest : List Char) : Except (List Char) Lexeme :=
  let source := c :: (numberTail rest).1
  if source = ['-'] ∨ source.getLast? = some '.' then .error source
  else .ok ⟨.number (String.ofList source), source, (numberTail rest).2⟩

/-- A word. -/
def word (c : Char) (rest : List Char) : Lexeme :=
  let source := c :: rest.takeWhile isWordPart
  ⟨.word (String.ofList source), source, rest.dropWhile isWordPart⟩

/-- The token that starts with the character `c`, or the characters that start none. -/
def next (c : Char) (rest : List Char) : Except (List Char) Lexeme :=
  if c = '(' then .ok ⟨.leftParen, [c], rest⟩
  else if c = ')' then .ok ⟨.rightParen, [c], rest⟩
  else if c = ',' then .ok ⟨.unsupported ",", [c], rest⟩
  else if c = '=' ∨ c = '<' ∨ c = '>' ∨ c = '!' then .ok (operator c rest)
  else if c = '\x27' ∨ c = '\x22' then quotation c rest
  else if isNumberStart c then numeral c rest
  else if isWordStart c then .ok (word c rest)
  else .error [c]

/-! ### Lexemes and the text -/

/-- A lexeme is the front of the text, and the first character belongs to it. -/
structure IsFront (l : Lexeme) (c : Char) (cs : List Char) : Prop where
  append : c :: cs = l.source ++ l.rest
  head : l.source.head? = some c

theorem isFront_operator (c : Char) (cs : List Char) : (operator c cs).IsFront c cs := by
  unfold operator
  split
  · exact ⟨rfl, rfl⟩
  · split <;> exact ⟨rfl, rfl⟩

theorem readQuoted_append {quote : Char} {before cs content rest : List Char}
    (h : readQuoted quote before cs = some (content, rest)) :
    ∃ s, content = before.reverse ++ s ∧ cs = doubled quote s ++ quote :: rest := by
  fun_induction readQuoted quote before cs with
  | case1 => contradiction
  | case2 before =>
    cases h
    exact ⟨[], by simp, by simp [doubled]⟩
  | case3 before cs ih =>
    obtain ⟨s, hs, hcs⟩ := ih h
    exact ⟨quote :: s, by simp [hs], by simp [doubled, hcs]⟩
  | case4 before d cs hd =>
    cases h
    exact ⟨[], by simp, by simp [doubled]⟩
  | case5 before c cs hc ih =>
    obtain ⟨s, hs, hcs⟩ := ih h
    exact ⟨c :: s, by simp [hs], by simp [doubled, hcs, hc]⟩

theorem numberTail_append (cs : List Char) : (numberTail cs).1 ++ (numberTail cs).2 = cs := by
  have h := List.takeWhile_append_dropWhile (p := Char.isDigit) (l := cs)
  unfold numberTail
  split
  · next rest hrest =>
    rw [List.append_assoc, List.cons_append, List.takeWhile_append_dropWhile, ← hrest, h]
  · exact h

theorem isFront_quotation {quote : Char} {cs : List Char} {l : Lexeme}
    (h : quotation quote cs = .ok l) : l.IsFront quote cs := by
  unfold quotation at h
  split at h
  · next content rest hread =>
    cases h
    obtain ⟨s, hs, hcs⟩ := readQuoted_append hread
    simp only [List.reverse_nil, List.nil_append] at hs
    exact ⟨by simp [hcs, hs], rfl⟩
  · contradiction

theorem isFront_numeral {c : Char} {cs : List Char} {l : Lexeme} (h : numeral c cs = .ok l) :
    l.IsFront c cs := by
  simp only [numeral] at h
  split at h
  · contradiction
  · cases h
    exact ⟨by simp [numberTail_append], rfl⟩

theorem isFront_word (c : Char) (cs : List Char) : (word c cs).IsFront c cs :=
  ⟨by simp [word, List.takeWhile_append_dropWhile], rfl⟩

theorem isFront_next {c : Char} {cs : List Char} {l : Lexeme} (h : next c cs = .ok l) :
    l.IsFront c cs := by
  unfold next at h
  split at h
  · cases h; exact ⟨rfl, rfl⟩
  split at h
  · cases h; exact ⟨rfl, rfl⟩
  split at h
  · cases h; exact ⟨rfl, rfl⟩
  split at h
  · cases h; exact isFront_operator c cs
  split at h
  · exact isFront_quotation h
  split at h
  · exact isFront_numeral h
  split at h
  · cases h; exact isFront_word c cs
  · contradiction

theorem length_rest_le {c : Char} {cs : List Char} {l : Lexeme} (h : next c cs = .ok l) :
    l.rest.length ≤ cs.length := by
  have hfront := isFront_next h
  have hlength := congrArg List.length hfront.append
  have hpos : 0 < l.source.length := by
    cases hs : l.source with
    | nil => exact absurd hfront.head (by simp [hs])
    | cons d tail => simp
  simp only [List.length_cons, List.length_append] at hlength
  omega

end Lexeme

/-! ## Tokens of a text -/

/-- The tokens of a text whose first character is the byte `offset`, behind those of `before`, last
first. -/
def tokensFrom (before : List Token) (offset : Nat) (cs : List Char) :
    Except SyntaxError (List Token) :=
  match cs with
  | [] => .ok before.reverse
  | c :: cs =>
    if isBlank c then tokensFrom before (offset + c.utf8Size) cs
    else
      match h : Lexeme.next c cs with
      | .ok l =>
        have := Lexeme.length_rest_le h
        tokensFrom (⟨l.kind, offset⟩ :: before) (offset + utf8Length l.source) l.rest
      | .error source => .error ⟨String.ofList source, offset⟩
termination_by cs.length
decreasing_by
  · simp_wf
  · simp_wf; omega

/-- The tokens of a predicate text, or the first place where there is none. -/
def tokenize (text : String) : Except SyntaxError (List Token) := tokensFrom [] 0 text.toList

end ClusterMap
