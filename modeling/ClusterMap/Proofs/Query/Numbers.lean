import Mathlib.Data.List.TakeWhile
import ClusterMap.Number.Numeral
import ClusterMap.Query.Spelling
import ClusterMap.Query.Vocabulary

/-!
# The numbers of a predicate text

Every token that a text is cut into has a spelling (`exists_spells_of_tokenize`), and what spells a
number is read as a double (`isSome_readBinary64?`), so no number in a predicate is refused as a
literal (`ofToken?_of_tokenize`).
-/

namespace ClusterMap

open Number Text

/-! ## Fronts of a text -/

section Span

variable {α : Type} {p : α → Bool} {l rest : List α}

/-- What stands in front of the first character that does not fit is taken, -/
theorem takeWhile_append_of_head (h : l.all p = true) (hrest : ∀ a ∈ rest.head?, p a = false) :
    (l ++ rest).takeWhile p = l := by
  rw [List.takeWhile_append_of_pos (List.all_eq_true.1 h)]
  cases rest with
  | nil => exact List.append_nil l
  | cons a rest => rw [List.takeWhile_cons, hrest a rfl, if_neg Bool.false_ne_true, List.append_nil]

/-- and nothing of what follows it. -/
theorem dropWhile_append_of_head (h : l.all p = true) (hrest : ∀ a ∈ rest.head?, p a = false) :
    (l ++ rest).dropWhile p = rest := by
  rw [List.dropWhile_append_of_pos (List.all_eq_true.1 h)]
  cases rest with
  | nil => rfl
  | cons a rest => rw [List.dropWhile_cons, hrest a rfl, if_neg Bool.false_ne_true]

end Span

/-! ## Numerals without an exponent -/

namespace Number

theorem splitPoint_digits {cs : List Char} (h : cs.all Char.isDigit = true) :
    splitPoint cs = (cs, [], []) := by
  have htake : cs.takeWhile Char.isDigit = cs := List.takeWhile_eq_self_iff.2 (List.all_eq_true.1 h)
  have hdrop : cs.dropWhile Char.isDigit = [] := List.dropWhile_eq_nil_iff.2 (List.all_eq_true.1 h)
  unfold splitPoint
  rw [htake, hdrop]

theorem splitPoint_fraction {digits places : List Char} (h : digits.all Char.isDigit = true)
    (h' : places.all Char.isDigit = true) :
    splitPoint (digits ++ '.' :: places) = (digits, places, []) := by
  have hpoint : ∀ c ∈ ('.' :: places).head?, c.isDigit = false := fun c hc => by
    cases hc
    rfl
  have hplaces := List.all_eq_true.1 h'
  unfold splitPoint
  rw [takeWhile_append_of_head h hpoint, dropWhile_append_of_head h hpoint]
  simp only [List.takeWhile_eq_self_iff.2 hplaces, List.dropWhile_eq_nil_iff.2 hplaces]

/-- Where the point is cut, the digits before and behind it are all there are, and those behind it
are what follows it. -/
theorem exists_splitPoint_of_tail {body : List Char} (h : NumberTail body) (hne : body ≠ []) :
    ∃ whole fraction, splitPoint body = (whole, fraction, []) ∧ ¬(whole = [] ∧ fraction = []) ∧
      whole ++ fraction = body.filter Char.isDigit ∧
      fraction = (body.dropWhile (· ≠ '.')).tail := by
  have hkept : ∀ {digits : List Char}, digits.all Char.isDigit = true →
      digits.filter Char.isDigit = digits :=
    fun h => List.filter_eq_self.2 (List.all_eq_true.1 h)
  have hnone : ¬Char.isDigit '.' = true := by decide
  have hbefore : ∀ {digits : List Char}, digits.all Char.isDigit = true →
      digits.all (· ≠ '.') = true := fun h => by
    rw [List.all_eq_true] at h ⊢
    exact fun c hc => decide_eq_true fun hpoint => hnone (hpoint ▸ h c hc)
  cases h with
  | whole h =>
    refine ⟨body, [], splitPoint_digits h, fun hboth => hne hboth.1, ?_, ?_⟩
    · rw [List.append_nil, hkept h]
    · rw [List.dropWhile_eq_nil_iff.2 (List.all_eq_true.1 (hbefore h)), List.tail_nil]
  | @fraction digits places h h' hplaces =>
    have hpoint : ∀ c ∈ ('.' :: places).head?, decide (c ≠ '.') = false := fun c hc => by
      cases hc
      rfl
    refine ⟨digits, places, splitPoint_fraction h h', fun hboth => hplaces hboth.2, ?_, ?_⟩
    · rw [List.filter_append, List.filter_cons_of_neg hnone, hkept h, hkept h']
    · rw [dropWhile_append_of_head (hbefore h) hpoint, List.tail_cons]

/-- Digits with at most one point that digits follow are a numeral, if there are any. -/
theorem isSome_readBinary64?_of_tail {cs body : List Char} {negative : Bool}
    (hsign : splitSign cs = (negative, body)) (htail : NumberTail body) (hne : body ≠ []) :
    (readBinary64? cs).isSome = true := by
  obtain ⟨whole, fraction, hsplit, hdigits, -⟩ := exists_splitPoint_of_tail htail hne
  unfold readBinary64?
  rw [hsign]
  simp only [hsplit, if_neg hdigits]
  split
  · rfl
  · split <;> rfl

end Number

theorem NumberTail.cons {c : Char} {cs : List Char} (hc : c.isDigit = true) (h : NumberTail cs) :
    NumberTail (c :: cs) := by
  cases h with
  | whole h => exact .whole (by rw [List.all_cons, hc, h]; rfl)
  | @fraction digits places h h' hne =>
    have hdigits : (c :: digits).all Char.isDigit = true := by rw [List.all_cons, hc, h]; rfl
    exact .fraction hdigits h' hne

/-- What spells a number is a minus or nothing and digits with a point or without one. -/
theorem exists_tail_of_spells {cs : List Char} {n : String} (h : Spells cs (.number n)) :
    ∃ negative body, n.toList = (if negative then '-' :: body else body) ∧
      (n.toList.head? == some '-') = negative ∧
      splitSign n.toList = (negative, body) ∧ NumberTail body ∧ body ≠ [] := by
  cases h with
  | @number c cs hc htail hne =>
    rw [String.toList_ofList]
    rw [isNumberStart, Bool.or_eq_true, decide_eq_true_eq] at hc
    obtain hc | rfl := hc
    · have hminus : ((c :: cs).head? == some '-') = false := by
        rw [List.head?_cons, beq_eq_false_iff_ne]
        rintro ⟨⟩
        exact absurd hc (by decide)
      exact ⟨false, c :: cs, rfl, hminus, splitSign_of_isDigit hc cs, htail.cons hc,
        List.cons_ne_nil c cs⟩
    · exact ⟨true, cs, rfl, rfl, rfl, htail, fun hnil => hne (by rw [hnil])⟩

/-- What spells a number is read as a double. -/
theorem isSome_readBinary64? {cs : List Char} {n : String} (h : Spells cs (.number n)) :
    (readBinary64? n.toList).isSome = true := by
  obtain ⟨negative, body, -, -, hsign, htail, hne⟩ := exists_tail_of_spells h
  exact isSome_readBinary64?_of_tail hsign htail hne

/-! ## Tokens and their spelling -/

theorem exists_spells_of_tokensFrom {before ts : List Token} {offset : Nat} {cs : List Char}
    (hbefore : ∀ t ∈ before, ∃ source, Spells source t.kind)
    (h : tokensFrom before offset cs = .ok ts) :
    ∀ t ∈ ts, ∃ source, Spells source t.kind := by
  fun_induction tokensFrom before offset cs with
  | case1 before offset =>
    cases h
    exact fun t ht => hbefore t (List.mem_reverse.1 ht)
  | case2 before offset c cs hblank ih => exact ih hbefore h
  | case3 before offset c cs hblank l hnext hlength ih =>
    refine ih (fun t ht => ?_) h
    obtain rfl | ht := List.mem_cons.1 ht
    · exact ⟨l.source, Lexeme.spells_of_next hnext⟩
    · exact hbefore t ht
  | case4 => contradiction

/-- Every token of a text has a spelling. -/
theorem exists_spells_of_tokenize {text : String} {ts : List Token} (h : tokenize text = .ok ts) :
    ∀ t ∈ ts, ∃ source, Spells source t.kind :=
  exists_spells_of_tokensFrom (fun t ht => by contradiction) h

/-- No number of a text is refused as a literal. -/
theorem ofToken?_of_tokenize {text : String} {ts : List Token} (h : tokenize text = .ok ts)
    {n : String} (hn : .number n ∈ ts.map Token.kind) :
    Literal.ofToken? (.number n) = some (.number n) := by
  obtain ⟨t, ht, hkind⟩ := List.mem_map.1 hn
  obtain ⟨source, hsource⟩ := exists_spells_of_tokenize h t ht
  rw [hkind] at hsource
  simp only [Literal.ofToken?, isSome_readBinary64? hsource, Bool.or_true, if_true]

end ClusterMap
