import ClusterMap.Proofs.Query.Seams

/-!
# Tokens and their places

Every text that spells tokens with white space between them is cut into these tokens, each at the
byte where its spelling starts (`tokenize_of_layout`). And whatever is cut out of a text stands in
it between two characters: a text that is cut into tokens is their slices in order with only white
space between them (`Tiled`), and where there is no token the text is cut up to that place. Of what
follows a lexeme only the first character matters, and that it ends where the text ends
(`Lexeme.next_local`), so every slice is its token on its own too. Main statement:
`tokenize_slices`.
-/

namespace ClusterMap

open Text

/-! ## Bytes of a run of characters -/

namespace Text

theorem utf8Length_cons (c : Char) (cs : List Char) :
    utf8Length (c :: cs) = c.utf8Size + utf8Length cs := by
  have general : ∀ (cs : List Char) (n : Nat), cs.foldl (fun n c => n + c.utf8Size) n =
      n + utf8Length cs := by
    intro cs
    induction cs with
    | nil => exact fun n => rfl
    | cons c cs ih =>
      intro n
      rw [utf8Length, List.foldl_cons, List.foldl_cons, ih, ih]
      omega
  rw [utf8Length, List.foldl_cons, general]
  omega

theorem utf8Length_append (cs ds : List Char) :
    utf8Length (cs ++ ds) = utf8Length cs + utf8Length ds := by
  induction cs with
  | nil => rw [List.nil_append]; exact (Nat.zero_add _).symm
  | cons c cs ih => rw [List.cons_append, utf8Length_cons, utf8Length_cons, ih, Nat.add_assoc]

theorem utf8ByteSize_ofList (cs : List Char) : (String.ofList cs).utf8ByteSize = utf8Length cs := by
  induction cs with
  | nil => rfl
  | cons c cs ih =>
    rw [String.ofList_cons, String.utf8ByteSize_append, String.utf8ByteSize_singleton, ih,
      utf8Length_cons]

theorem utf8Length_pos {cs : List Char} (h : cs ≠ []) : 0 < utf8Length cs := by
  obtain ⟨c, cs, rfl⟩ := List.exists_cons_of_ne_nil h
  rw [utf8Length_cons]
  exact Nat.add_pos_left c.utf8Size_pos _

end Text

/-! ## Spelled texts -/

theorem tokensFrom_of_all_isBlank {space : List Char} (h : space.all isBlank = true)
    (before : List Token) (offset : Nat) (rest : List Char) :
    tokensFrom before offset (space ++ rest) =
      tokensFrom before (offset + utf8Length space) rest := by
  induction space generalizing offset with
  | nil => rfl
  | cons c space ih =>
    rw [List.all_cons, Bool.and_eq_true] at h
    rw [List.cons_append, tokensFrom_of_isBlank h.1, ih h.2, utf8Length_cons, Nat.add_assoc]

theorem tokensFrom_of_layout {offset : Nat} {cs : List Char} {ts : List Token}
    (h : Layout offset cs ts) (before : List Token) :
    tokensFrom before offset cs = .ok (before.reverse ++ ts) := by
  induction h generalizing before with
  | @blank offset space hspace =>
    have hread := tokensFrom_of_all_isBlank hspace before offset []
    rw [List.append_nil] at hread
    rw [hread, tokensFrom, List.append_nil]
  | @token offset space spelling rest kind ts hspace hspells hrest _ ih =>
    have hend : ∀ d ∈ rest.head?, kind.endsAt d = true :=
      fun d hd => endsAt_of_isBlank (hrest d hd) kind
    rw [List.append_assoc, tokensFrom_of_all_isBlank hspace, tokensFrom_of_spells hspells hend,
      Nat.add_assoc, ← utf8Length_append, ih, List.reverse_cons, List.append_assoc,
      List.singleton_append]

/-- A text that spells tokens, with white space between every two of them, is cut into exactly
these, each at the byte where its spelling starts. -/
theorem tokenize_of_layout {text : String} {ts : List Token} (h : Layout 0 text.toList ts) :
    tokenize text = .ok ts :=
  tokensFrom_of_layout h []

/-- White space of three bytes, a word of four, a text with a quote, and a number that starts with a
point. -/
theorem tokenize_of_layout_of_wide :
    let ts : List Token :=
      [⟨.word "é.1", 3⟩, ⟨.equals, 8⟩, ⟨.quoted "it's", 10⟩, ⟨.unsupported "<=", 18⟩,
        ⟨.number "-.5", 22⟩]
    Layout 0 "\u3000é.1 = 'it''s' <= \t-.5".toList ts ∧
    tokenize "\u3000é.1 = 'it''s' <= \t-.5" = .ok ts := by
  intro ts
  have hword : Spells ['é', '.', '1'] (.word "é.1") := .word (by decide +kernel) (by decide +kernel)
  have hquoted : Spells ['\x27', 'i', 't', '\x27', '\x27', 's', '\x27'] (.quoted "it's") :=
    .quoted ['i', 't', '\x27', 's'] (.inl rfl)
  have hless : Spells ['<', '='] (.unsupported "<=") := @Spells.unsupported "<=" (by decide)
  have hnumber : Spells ['-', '.', '5'] (.number "-.5") :=
    .number rfl (@NumberTail.fraction [] ['5'] rfl rfl (by decide)) (by decide)
  have hblank (cs : List Char) : ∀ d ∈ (' ' :: cs).head?, isBlank d = true := fun d hd => by
    obtain rfl := Option.some.inj hd
    decide
  have hlayout : Layout 0 "\u3000é.1 = 'it''s' <= \t-.5".toList ts :=
    @Layout.token _ ['\u3000'] _ _ _ _ (by decide) hword (hblank _)
      (@Layout.token _ [' '] _ _ _ _ (by decide) .equals (hblank _)
        (@Layout.token _ [' '] _ _ _ _ (by decide) hquoted (hblank _)
          (@Layout.token _ [' '] _ _ _ _ (by decide) hless (hblank _)
            (@Layout.token _ [' ', '\t'] _ [] _ _ (by decide) hnumber (fun d hd => by contradiction)
              (@Layout.blank _ [] rfl)))))
  exact ⟨hlayout, tokenize_of_layout hlayout⟩

/-- A spelling is its one token on its own. -/
theorem tokenize_of_spells {spelling : List Char} {kind : TokenKind} (h : Spells spelling kind) :
    tokenize (String.ofList spelling) = .ok [⟨kind, 0⟩] := by
  have hread := @tokensFrom_of_spells spelling [] kind h (fun d hd => by contradiction) [] 0
  rw [List.append_nil] at hread
  rw [tokenize, String.toList_ofList, hread, tokensFrom]
  rfl

/-! ## What follows a lexeme -/

theorem not_of_mem_head?_dropWhile {α : Type} {p : α → Bool} {l : List α} :
    ∀ a ∈ (l.dropWhile p).head?, p a = false := by
  intro a ha
  have hstop := List.head?_dropWhile_not p l
  rwa [ha] at hstop

namespace Lexeme

variable {c : Char} {cs tail rest rest' : List Char} {kind : TokenKind}

theorem operator_local (h : operator c (tail ++ rest) = ⟨kind, c :: tail, rest⟩)
    (hrest : ∀ d ∈ rest'.head?, d ∈ rest.head?) :
    operator c (tail ++ rest') = ⟨kind, c :: tail, rest'⟩ := by
  cases tail with
  | nil =>
    have hsingle : ∀ d ∈ rest.head?, ¬(d = '=' ∨ (c = '<' ∧ d = '>')) := by
      intro d hd hpair
      cases rest with
      | nil => contradiction
      | cons d' rest =>
        cases hd
        rw [List.nil_append, operator_pair hpair] at h
        cases h
    rw [List.nil_append, operator_single hsingle] at h
    rw [List.nil_append, operator_single fun d hd => hsingle d (hrest d hd)]
    cases h
    rfl
  | cons d tail =>
    rw [List.cons_append, operator] at h
    split at h
    · next hpair =>
      cases h
      exact operator_pair hpair rest'
    · cases h

/-- What follows a text between quotes does not begin with the quote. -/
theorem ne_quote_of_readQuoted {quote : Char} {content s : List Char}
    (h : readQuoted quote content cs = some (s, rest)) : ∀ d ∈ rest.head?, d ≠ quote := by
  fun_induction readQuoted quote content cs with
  | case1 => contradiction
  | case2 content =>
    cases h
    exact fun d hd => by contradiction
  | case3 content cs ih => exact ih h
  | case4 content d cs hd =>
    cases h
    intro d' hd'
    cases hd'
    exact hd
  | case5 content c cs hc ih => exact ih h

theorem quotation_local {quote : Char}
    (h : quotation quote (tail ++ rest) = .ok ⟨kind, quote :: tail, rest⟩)
    (hrest : ∀ d ∈ rest'.head?, d ∈ rest.head?) :
    quotation quote (tail ++ rest') = .ok ⟨kind, quote :: tail, rest'⟩ := by
  unfold quotation at h
  split at h
  · next content behind hread =>
    have hquote := ne_quote_of_readQuoted hread
    cases h
    exact quotation_append (fun d hd => hquote d (hrest d hd)) content
  · contradiction

/-- A point among the digits of a number is the only one. -/
theorem numberTail_of_point {digits places : List Char} (hdigits : digits.all Char.isDigit = true)
    (hplaces : places.all Char.isDigit = true) (hrest : ∀ d ∈ rest.head?, d.isDigit = false) :
    numberTail (digits ++ '.' :: (places ++ rest)) = (digits ++ '.' :: places, rest) := by
  have hpoint : ∀ d ∈ ('.' :: (places ++ rest)).head?, d.isDigit = false := fun d hd => by
    cases hd
    rfl
  unfold numberTail
  rw [takeWhile_append_of_head hdigits hpoint, dropWhile_append_of_head hdigits hpoint]
  simp only [takeWhile_append_of_head hplaces hrest, dropWhile_append_of_head hplaces hrest]

theorem numberTail_local (h : numberTail (tail ++ rest) = (tail, rest))
    (hrest : ∀ d ∈ rest'.head?, d ∈ rest.head?) :
    numberTail (tail ++ rest') = (tail, rest') := by
  have hwhole : ((tail ++ rest).takeWhile Char.isDigit).all Char.isDigit = true :=
    List.all_takeWhile
  have hstop := not_of_mem_head?_dropWhile (p := Char.isDigit) (l := tail ++ rest)
  unfold numberTail at h
  split at h
  · next behind hdrop =>
    have hend := not_of_mem_head?_dropWhile (p := Char.isDigit) (l := behind)
    obtain ⟨htail, hbehind⟩ := Prod.mk.inj h
    rw [hbehind] at hend
    rw [← htail, List.append_assoc, List.cons_append]
    exact numberTail_of_point hwhole List.all_takeWhile fun d hd => hend d (hrest d hd)
  · next hpoint =>
    obtain ⟨htail, hbehind⟩ := Prod.mk.inj h
    rw [htail] at hwhole
    rw [hbehind] at hstop
    refine numberTail_append_of_head (.whole hwhole) fun d hd => ⟨hstop d (hrest d hd), ?_⟩
    rintro rfl
    obtain ⟨behind, hrest⟩ := List.head?_eq_some_iff.1 (hrest _ hd)
    exact hpoint behind (hbehind.trans hrest)

theorem numeral_local (h : numeral c (tail ++ rest) = .ok ⟨kind, c :: tail, rest⟩)
    (hrest : ∀ d ∈ rest'.head?, d ∈ rest.head?) :
    numeral c (tail ++ rest') = .ok ⟨kind, c :: tail, rest'⟩ := by
  simp only [numeral] at h
  split at h
  · contradiction
  · next hgood =>
    obtain ⟨hkind, hsource, hbehind⟩ := Lexeme.mk.inj (Except.ok.inj h)
    have htail : numberTail (tail ++ rest) = (tail, rest) :=
      Prod.ext (List.cons.inj hsource).2 hbehind
    rw [htail] at hkind hgood
    simp only [numeral, numberTail_local htail hrest]
    rw [if_neg hgood, hkind]

theorem word_local (h : word c (tail ++ rest) = ⟨kind, c :: tail, rest⟩)
    (hrest : ∀ d ∈ rest'.head?, d ∈ rest.head?) :
    word c (tail ++ rest') = ⟨kind, c :: tail, rest'⟩ := by
  have hall : ((tail ++ rest).takeWhile isWordPart).all isWordPart = true := List.all_takeWhile
  have hstop := not_of_mem_head?_dropWhile (p := isWordPart) (l := tail ++ rest)
  obtain ⟨hkind, hsource, hbehind⟩ := Lexeme.mk.inj h
  have htail : (tail ++ rest).takeWhile isWordPart = tail := (List.cons.inj hsource).2
  rw [htail] at hall hkind
  rw [hbehind] at hstop
  rw [word_append hall fun d hd => hstop d (hrest d hd), hkind]

/-- A lexeme stays what it is if what follows it begins with the same character, or if nothing
follows it. -/
theorem next_local (h : next c (tail ++ rest) = .ok ⟨kind, c :: tail, rest⟩)
    (hrest : ∀ d ∈ rest'.head?, d ∈ rest.head?) :
    next c (tail ++ rest') = .ok ⟨kind, c :: tail, rest'⟩ := by
  unfold next at h ⊢
  split_ifs at h ⊢ with _ _ _ _ hquote
  · cases h
    rfl
  · cases h
    rfl
  · cases h
    rfl
  · rw [operator_local (Except.ok.inj h) hrest]
  · exact quotation_local h hrest
  · exact numeral_local h hrest
  · rw [word_local (Except.ok.inj h) hrest]

/-- The first character of a lexeme is where it starts. -/
theorem exists_tail_of_next {l : Lexeme} (h : next c cs = .ok l) :
    ∃ tail, l.source = c :: tail ∧ cs = tail ++ l.rest := by
  obtain ⟨happend, hhead⟩ := isFront_next h
  obtain ⟨tail, htail⟩ := List.head?_eq_some_iff.1 hhead
  rw [htail] at happend
  exact ⟨tail, htail, (List.cons.inj happend).2⟩

/-- The characters that start no token stand at the front of the text. -/
theorem exists_append_of_next_error {source : List Char} (h : next c cs = .error source) :
    ∃ behind, c :: cs = source ++ behind ∧ source ≠ [] := by
  unfold next at h
  split_ifs at h
  · unfold quotation at h
    split at h
    · contradiction
    · cases h
      exact ⟨[], (List.append_nil _).symm, List.cons_ne_nil _ _⟩
  · simp only [numeral] at h
    split at h
    · cases h
      exact ⟨(numberTail cs).2, by rw [List.cons_append, numberTail_append], List.cons_ne_nil _ _⟩
    · contradiction
  · cases h
    exact ⟨cs, rfl, List.cons_ne_nil _ _⟩

end Lexeme

/-! ## The slices of a text -/

/-- A text of which the first character is the byte `offset` is the slices of some tokens in order,
with only white space outside them; each slice spells its token and is this one token on its own. -/
inductive Tiled : (offset : Nat) → List Char → List Token → Prop where
  | nil {offset : Nat} : Tiled offset [] []
  | blank {offset : Nat} {c : Char} {cs : List Char} {ts : List Token} : isBlank c = true →
      Tiled (offset + c.utf8Size) cs ts → Tiled offset (c :: cs) ts
  | token {offset : Nat} {slice rest : List Char} {kind : TokenKind} {ts : List Token} :
      Spells slice kind → tokenize (String.ofList slice) = .ok [⟨kind, 0⟩] →
      Tiled (offset + utf8Length slice) rest ts →
      Tiled offset (slice ++ rest) (⟨kind, offset⟩ :: ts)

theorem tiled_of_tokensFrom {before ts : List Token} {offset : Nat} {cs : List Char}
    (h : tokensFrom before offset cs = .ok ts) :
    ∃ us, ts = before.reverse ++ us ∧ Tiled offset cs us := by
  fun_induction tokensFrom before offset cs with
  | case1 before offset =>
    cases h
    exact ⟨[], by simp, .nil⟩
  | case2 before offset c cs hblank ih =>
    obtain ⟨us, hus, htiled⟩ := ih h
    exact ⟨us, hus, .blank hblank htiled⟩
  | case3 before offset c cs hblank l hnext hlength ih =>
    obtain ⟨us, rfl, htiled⟩ := ih h
    refine ⟨⟨l.kind, offset⟩ :: us, by simp, ?_⟩
    have hspells := Lexeme.spells_of_next hnext
    rw [(Lexeme.isFront_next hnext).append]
    exact .token hspells (tokenize_of_spells hspells) htiled
  | case4 => contradiction

/-- Where the slice of a token stands. -/
theorem Tiled.exists_slice {offset : Nat} {cs : List Char} {ts : List Token}
    (h : Tiled offset cs ts) :
    ∀ t ∈ ts, ∃ front slice behind, cs = front ++ slice ++ behind ∧
      t.offset = offset + utf8Length front ∧
      Spells slice t.kind ∧ tokenize (String.ofList slice) = .ok [⟨t.kind, 0⟩] := by
  induction h with
  | nil => exact fun t ht => by contradiction
  | @blank offset c cs ts _ _ ih =>
    intro t ht
    obtain ⟨front, slice, behind, rfl, hoffset, hslice⟩ := ih t ht
    exact ⟨c :: front, slice, behind, rfl, by rw [hoffset, utf8Length_cons, Nat.add_assoc], hslice⟩
  | @token offset slice rest kind ts hspells halone _ ih =>
    intro t ht
    obtain rfl | ht := List.mem_cons.1 ht
    · exact ⟨[], slice, rest, rfl, rfl, hspells, halone⟩
    · obtain ⟨front, slice', behind, rfl, hoffset, hslice⟩ := ih t ht
      refine ⟨slice ++ front, slice', behind, by simp, ?_, hslice⟩
      rw [hoffset, utf8Length_append, Nat.add_assoc]

theorem Tiled.le_offset {offset : Nat} {cs : List Char} {ts : List Token} (h : Tiled offset cs ts) :
    ∀ t ∈ ts, offset ≤ t.offset := by
  intro t ht
  obtain ⟨front, slice, behind, -, hoffset, -⟩ := h.exists_slice t ht
  omega

/-- Slices do not overlap, and none is empty. -/
theorem Tiled.pairwise_offset {offset : Nat} {cs : List Char} {ts : List Token}
    (h : Tiled offset cs ts) :
    ts.Pairwise fun t u => t.offset < u.offset := by
  induction h with
  | nil => exact .nil
  | blank _ _ ih => exact ih
  | token hspells _ hrest ih =>
    refine List.pairwise_cons.2 ⟨fun u hu => ?_, ih⟩
    exact Nat.lt_of_lt_of_le (Nat.lt_add_of_pos_right (utf8Length_pos hspells.ne_nil))
      (hrest.le_offset u hu)

/-- A text is cut up to the first place where there is no token. What stands there begins at that
place. -/
theorem isCut_of_error {before : List Token} {offset : Nat} {cs : List Char} {e : SyntaxError}
    (h : tokensFrom before offset cs = .error e) :
    ∃ front slice behind kinds, cs = front ++ slice ++ behind ∧ slice ≠ [] ∧
      e = ⟨String.ofList slice, offset + utf8Length front⟩ ∧ IsCut front kinds := by
  fun_induction tokensFrom before offset cs with
  | case1 => contradiction
  | case2 before offset c cs hblank ih =>
    obtain ⟨front, slice, behind, kinds, rfl, hslice, rfl, hcut⟩ := ih h
    refine ⟨c :: front, slice, behind, kinds, rfl, hslice, ?_, isCut_blank hblank hcut⟩
    rw [utf8Length_cons, Nat.add_assoc]
  | case3 before offset c cs hblank l hnext hlength ih =>
    obtain ⟨front, slice, behind, kinds, hrest, hslice, rfl, hcut⟩ := ih h
    obtain ⟨kind, source, rest⟩ := l
    obtain ⟨tail, rfl, rfl⟩ := Lexeme.exists_tail_of_next hnext
    obtain rfl : rest = front ++ slice ++ behind := hrest
    -- The lexeme looks no further than one character, so it is there without what follows `front`.
    have hshort : Lexeme.next c (tail ++ front) = .ok ⟨kind, c :: tail, front⟩ := by
      refine Lexeme.next_local hnext fun d hd => ?_
      cases front with
      | nil => contradiction
      | cons d' front => exact hd
    refine ⟨c :: tail ++ front, slice, behind,
      kind :: kinds, by simp, hslice, ?_, fun before' offset' => ?_⟩
    · rw [utf8Length_append, Nat.add_assoc]
    · exact isCut_cons (tokensFrom_of_next (Bool.eq_false_iff.2 hblank) hshort before' offset') hcut
  | case4 before offset c cs hblank source hnext =>
    cases h
    obtain ⟨behind, happend, hsource⟩ := Lexeme.exists_append_of_next_error hnext
    exact ⟨[], source, behind, [], happend, hsource, rfl, isCut_nil⟩

/-! ### Places between characters -/

/-- A part of a text stands at a byte of it, between two characters. -/
def StandsAt (text part : String) (offset : Nat) : Prop :=
  ∃ front behind, text = front ++ part ++ behind ∧ front.utf8ByteSize = offset

theorem eq_append_of_toList {text : String} {front slice behind : List Char}
    (h : text.toList = front ++ slice ++ behind) :
    text = String.ofList front ++ String.ofList slice ++ String.ofList behind := by
  rw [← String.ofList_append, ← String.ofList_append, ← h, String.ofList_toList]

/-- Both ends of a part of a text are valid positions in it. -/
theorem StandsAt.isValid {text part : String} {offset : Nat} (h : StandsAt text part offset) :
    String.Pos.Raw.IsValid text ⟨offset⟩ ∧
    String.Pos.Raw.IsValid text ⟨offset + part.utf8ByteSize⟩ := by
  obtain ⟨front, behind, rfl, rfl⟩ := h
  constructor
  · rw [String.append_assoc]
    exact String.Pos.Raw.isValid_iff_exists_append.2 ⟨front, part ++ behind, rfl, rfl⟩
  · exact String.Pos.Raw.isValid_iff_exists_append.2 ⟨front ++ part, behind,
      rfl, by simp [String.Pos.Raw.ext_iff]⟩

theorem eq_of_spells {slice : List Char} {kind : TokenKind} {w : String} (h : Spells slice kind)
    (hkind : kind = .word w ∨ kind = .number w) : w = String.ofList slice := by
  cases h with
  | word | number =>
    obtain h | h := hkind <;> cases h
    rfl
  | _ => obtain h | h := hkind <;> cases h

/-- What is cut out of a text is all of it but white space. The tokens of a text are its slices in
order, each at its place and on its own the one token that it is, and a word or a number keeps its
slice. Where there is no token, what the fault shows stands at its place, and the text in front of
it is cut into tokens. Whatever stands at a place begins and ends at valid positions of the text. -/
theorem tokenize_slices (text : String) :
    (∀ ts, tokenize text = .ok ts →
      Tiled 0 text.toList ts ∧ ts.Pairwise (fun t u => t.offset < u.offset) ∧
        ∀ t ∈ ts, ∃ slice, StandsAt text slice t.offset ∧ tokenize slice = .ok [⟨t.kind, 0⟩] ∧
          ∀ w, t.kind = .word w ∨ t.kind = .number w → w = slice) ∧
    (∀ e, tokenize text = .error e →
      e.offset < text.utf8ByteSize ∧
        ∃ front behind ts, text = front ++ e.token ++ behind ∧ front.utf8ByteSize = e.offset ∧
          tokenize front = .ok ts) ∧
    ∀ part offset, StandsAt text part offset →
      String.Pos.Raw.IsValid text ⟨offset⟩ ∧
      String.Pos.Raw.IsValid text ⟨offset + part.utf8ByteSize⟩ := by
  refine ⟨fun ts hts => ?_, fun e he => ?_, fun part offset h => h.isValid⟩
  · obtain ⟨us, rfl, htiled⟩ := tiled_of_tokensFrom hts
    refine ⟨htiled, htiled.pairwise_offset, fun t ht => ?_⟩
    obtain ⟨front, slice, behind, happend, hoffset, hspells, halone⟩ := htiled.exists_slice t ht
    have hstands : StandsAt text (String.ofList slice) (utf8Length front) :=
      ⟨_, _, eq_append_of_toList happend, utf8ByteSize_ofList front⟩
    rw [hoffset, Nat.zero_add]
    exact ⟨String.ofList slice, hstands, halone, fun w hw => eq_of_spells hspells hw⟩
  · obtain ⟨front, slice, behind, kinds, happend, hslice, rfl, hcut⟩ := isCut_of_error he
    obtain ⟨ts, hts, -⟩ := hcut [] 0
    have htext := eq_append_of_toList happend
    have hfront : tokenize (String.ofList front) = .ok ts := by
      rw [tokenize, String.toList_ofList]
      exact hts
    refine ⟨?_, _, _, ts, htext, by rw [utf8ByteSize_ofList, Nat.zero_add], hfront⟩
    have hpos := utf8Length_pos hslice
    rw [htext, String.utf8ByteSize_append, String.utf8ByteSize_append, utf8ByteSize_ofList,
      utf8ByteSize_ofList]
    simp only
    omega

end ClusterMap
