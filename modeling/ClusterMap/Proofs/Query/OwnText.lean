import ClusterMap.Proofs.Query.Fields
import ClusterMap.Proofs.Query.StoredNumbers

/-!
# Looking a scalar up by its text

The text of a stored scalar, in quotes and with each quote inside it doubled, is a predicate on the
value itself (`exists_compile_ownText`). It is cut where it was put together, whatever the text is,
and the literal is the text. The text of an integer, of a truth value and of a double holds no white
space, so nothing is trimmed from it, and it is read back as the scalar. Main statement:
`found_by_own_text`.
-/

namespace ClusterMap

open Grammar Number Text

/-! ## White space in texts of scalars -/

/-- Nothing is trimmed from a text without white space. -/
theorem trim_of_forall {cs : List Char} (h : ∀ c ∈ cs, isBlank c = false) : trim cs = cs := by
  have hkeep : ∀ cs : List Char, (∀ c ∈ cs, isBlank c = false) → cs.dropWhile isBlank = cs := by
    intro cs h
    cases cs with
    | nil => rfl
    | cons c cs => rw [List.dropWhile_cons, h c List.mem_cons_self, if_neg Bool.false_ne_true]
  rw [trim, hkeep cs h, hkeep cs.reverse fun c hc => h c (List.mem_reverse.1 hc),
    List.reverse_reverse]

theorem isBlank_of_mem_digits {digits : List Char} (h : digits.all Char.isDigit = true) :
    ∀ c ∈ digits, isBlank c = false := fun c hc => isBlank_of_isDigit (List.all_eq_true.1 h c hc)

theorem isBlank_of_mem_toString (n : Int) : ∀ c ∈ (toString n).toList, isBlank c = false := by
  have hdigits := isBlank_of_mem_digits (all_isDigit_repr n.natAbs)
  rw [toList_toString]
  split
  · exact List.forall_mem_cons.2 ⟨by decide, hdigits⟩
  · exact hdigits

theorem isBlank_of_mem_positional (n : Nat) :
    ∀ c ∈ (Binary64.positional n).toList, isBlank c = false := by
  intro c hc
  obtain hdigit | rfl := isDigit_or_eq_of_mem_positional hc
  · exact isBlank_of_isDigit hdigit
  · decide

theorem isBlank_of_mem_text (x : Binary64) : ∀ c ∈ x.text.toList, isBlank c = false := by
  have hfixed : ∀ cs : List Char, cs.all (fun c => !isBlank c) = true →
      ∀ c ∈ cs, isBlank c = false := by simp
  cases hnan : x.isNaN with
  | true =>
    rw [Binary64.text, if_pos hnan]
    exact hfixed _ (by decide)
  | false =>
    rw [Binary64.text_of_not_isNaN hnan, String.toList_append, List.forall_mem_append]
    refine ⟨hfixed _ (by cases x.negative <;> decide), ?_⟩
    split
    · exact hfixed _ (by decide)
    · split
      · exact hfixed _ (by decide)
      · exact isBlank_of_mem_positional x.shortest

/-! ## The predicate -/

/-- The predicate text that asks for a value by its text: the value itself, an equals sign, and the
text in quotes. -/
def Value.ownText (v : Value) : String := "this = " ++ (Literal.text v.render).source

example : (Value.text "it's").ownText = "this = 'it''s'" := by decide

theorem cut_ownText (v : Value) :
    Cut v.ownText.toList [.word "this", .equals, .quoted v.render] := by
  have hsource : Spells (Literal.text v.render).source.toList (.quoted v.render) :=
    (Literal.Writable.text v.render).spells
  have hliteral : Cut ((Literal.text v.render).source.toList ++ []) [.quoted v.render] :=
    .token hsource (fun d hd => absurd hd (Option.not_mem_none d)) .nil
  have hblank : ∀ (kind : TokenKind) (rest : List Char), ∀ d ∈ (' ' :: rest).head?,
      kind.endsAt d = true := by
    intro kind rest d hd
    cases hd
    exact endsAt_of_isBlank (by decide) kind
  have hthis : Spells "this".toList (.word "this") := spells_ofList (c := 't') rfl rfl
  have htext : v.ownText.toList =
      "this".toList ++ ' ' :: (['='] ++ ' ' :: ((Literal.text v.render).source.toList ++ [])) := by
    simp [Value.ownText]
  have hequals := Cut.token .equals (hblank _ _) (.blank (by decide) hliteral)
  rw [htext]
  exact .token hthis (hblank _ _) (.blank (by decide) hequals)

/-- The text of a value in quotes is compiled into the comparison of the value itself with this
text. -/
theorem exists_compile_ownText (v : Value) :
    ∃ P, (Criteria.expression v.ownText).compile = .ok P ∧
      ∀ w, P.holds w = (Literal.text v.render).agrees w := by
  have hthis : isReserved "this" = false := by decide
  have hsays : Says [.word "this", .equals, .quoted v.render] fun w =>
      (Expr.equal "this" (.text v.render)).evaluate w :=
    .disjunction (.single (.single (.comparison hthis (.quoted v.render))))
  obtain ⟨P, hP, hholds⟩ := Criteria.exists_compile_of_cut (cut_ownText v) hsays
  refine ⟨P, hP, fun w => ?_⟩
  rw [hholds, Expr.evaluate, Expr.target, if_pos rfl]

/-! ## What the literal equals -/

namespace Literal

theorem text_agrees_text (s t : String) : (text s).agrees (.text t) = true ↔ t = s := beq_iff_eq

theorem text_agrees_own_int (n m : Int64) :
    (text (Value.int n).render).agrees (.int m) = true ↔ m = n := by
  have hrender : (Value.int n).render = toString n.toInt := rfl
  rw [text_agrees_int, hrender, trim_of_forall (isBlank_of_mem_toString n.toInt),
    readInt64?_toString, beq_iff_eq, Option.some.injEq, eq_comm]

theorem text_agrees_own_bool (b c : Bool) :
    (text (Value.bool b).render).agrees (.bool c) = true ↔ c = b := by
  cases b <;> cases c <;> decide

/-- The text of a double that is no number is read as one, which equals nothing. -/
theorem text_agrees_own_float (x y : Binary64) :
    (text (Value.float x).render).agrees (.float y) = x.equals y := by
  have hrender : (Value.float x).render = x.text := rfl
  rw [text_agrees_float, hrender, trim_of_forall (isBlank_of_mem_text x), writes]
  cases hnan : x.isNaN with
  | true =>
    have hread : readBinary64? "NaN".toList = some .nan := by decide
    have hnone : Binary64.nan.isNaN = true := by decide
    rw [Binary64.text, if_pos hnan, hread]
    simp only [Binary64.equals, hnan, hnone, Bool.not_true, Bool.false_and]
  | false => rw [Binary64.readBinary64?_text hnan]

end Literal

/-- A stored scalar is found by its own text in quotes, and only by it: the predicate is compiled,
and of the texts it is true of this text only, of the integers of this integer only, of the truth
values of this one only, and of the doubles of those that equal this one, which are itself unless it
is no number. -/
theorem found_by_own_text :
    (∀ s : String, ∃ P, (Criteria.expression (Value.text s).ownText).compile = .ok P ∧
      ∀ t : String, P.holds (.text t) = true ↔ t = s) ∧
    (∀ n : Int64, ∃ P, (Criteria.expression (Value.int n).ownText).compile = .ok P ∧
      ∀ m : Int64, P.holds (.int m) = true ↔ m = n) ∧
    (∀ b : Bool, ∃ P, (Criteria.expression (Value.bool b).ownText).compile = .ok P ∧
      ∀ c : Bool, P.holds (.bool c) = true ↔ c = b) ∧
    ∀ x : Binary64, ∃ P, (Criteria.expression (Value.float x).ownText).compile = .ok P ∧
      (∀ y : Binary64, P.holds (.float y) = x.equals y) ∧ P.holds (.float x) = !x.isNaN := by
  refine ⟨fun s => ?_, fun n => ?_, fun b => ?_, fun x => ?_⟩
  · obtain ⟨P, hP, hholds⟩ := exists_compile_ownText (.text s)
    exact ⟨P, hP, fun t => by rw [hholds]; exact Literal.text_agrees_text s t⟩
  · obtain ⟨P, hP, hholds⟩ := exists_compile_ownText (.int n)
    exact ⟨P, hP, fun m => by rw [hholds, Literal.text_agrees_own_int]⟩
  · obtain ⟨P, hP, hholds⟩ := exists_compile_ownText (.bool b)
    exact ⟨P, hP, fun c => by rw [hholds, Literal.text_agrees_own_bool]⟩
  · obtain ⟨P, hP, hholds⟩ := exists_compile_ownText (.float x)
    have hfloat : ∀ y : Binary64, P.holds (.float y) = x.equals y := fun y => by
      rw [hholds, Literal.text_agrees_own_float]
    refine ⟨P, hP, hfloat, ?_⟩
    rw [hfloat, Binary64.equals, beq_self_eq_true, Bool.and_true, Bool.and_self]

end ClusterMap
