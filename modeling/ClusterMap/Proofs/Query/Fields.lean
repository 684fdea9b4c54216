import ClusterMap.Proofs.Number.Reading
import ClusterMap.Proofs.Query.Canonical

/-!
# Fields and texts

Fields with their literals may be given as such or written out as a text: each field, an equals sign
and the literal as texts write it, with `AND` between every two. The text is cut where it was put
together, and read as a conjunction of the same comparisons, but that an integer is read as a
numeral (`Literal.asRead`). That makes no difference to any attribute, as the digits are read back
as the integer and as the double nearest to it. Main statements: `Literal.agrees_asRead`;
`Criteria.fields_agree_with_text`.
-/

namespace ClusterMap

open Grammar Number Text

/-! ## Literals in texts -/

namespace Literal

/-- A literal that texts have a way to write. -/
inductive Writable : Literal → Prop where
  | bool (b : Bool) : Writable (.bool b)
  | int (n : Int64) : Writable (.int n)
  | text (s : String) : Writable (.text s)

/-- A literal as texts write it: a text in single quotes, with each single quote inside it
doubled. -/
def source : Literal → String
  | text s => "'" ++ String.ofList (Lexeme.doubled '\x27' s.toList) ++ "'"
  | l => l.render

/-- The token that a literal is written as. -/
def sourceKind : Literal → TokenKind
  | bool b => .word (boolText b)
  | text s => .quoted s
  | l => .number l.render

/-- What a literal is read as. -/
def asRead : Literal → Literal
  | int n => number (toString n.toInt)
  | l => l

/-- An integer is spelled by its text. -/
theorem spells_toString (n : Int) : Spells (toString n).toList (.number (toString n)) := by
  have hdigits := all_isDigit_repr n.natAbs
  have htext : toString n = String.ofList (toString n).toList := String.ofList_toList.symm
  rw [htext, String.toList_ofList, toList_toString]
  split
  · refine .number rfl (.whole hdigits) fun h => repr_ne_nil n.natAbs ?_
    exact (List.cons.inj h).2
  · obtain ⟨c, cs, hcs⟩ := List.exists_cons_of_ne_nil (repr_ne_nil n.natAbs)
    rw [hcs, List.all_cons, Bool.and_eq_true] at hdigits
    have hstart : isNumberStart c = true := by simp [isNumberStart, hdigits.1]
    have hminus : c ≠ '-' := fun h => by
      rw [h] at hdigits
      exact absurd hdigits.1 (by decide)
    rw [hcs]
    exact .number hstart (.whole hdigits.2) (by simp [hminus])

/-- A literal that can be written is spelled by what it is written as. -/
theorem Writable.spells {l : Literal} (h : l.Writable) : Spells l.source.toList l.sourceKind := by
  cases h with
  | bool b => exact (Plain.bool b).spells
  | int n => exact spells_toString n.toInt
  | text s => simpa [source, sourceKind] using Spells.quoted s.toList (.inl rfl)

/-- A literal that can be written is read back. -/
theorem Writable.ofToken? {l : Literal} (h : l.Writable) :
    Literal.ofToken? l.sourceKind = some l.asRead := by
  cases h with
  | bool b => cases b <;> decide
  | int n => simp only [sourceKind, render, Literal.ofToken?, readInt64?_toString, asRead]; rfl
  | text s => rfl

/-- An integer and the numeral that writes it equal the same values. -/
theorem agrees_asRead (l : Literal) (v : Value) : l.asRead.agrees v = l.agrees v := by
  cases l with
  | int n =>
    unfold agrees asRead
    cases v.tree with
    | record fields => rfl
    | scalar s =>
      cases s with
      | int b => simp only [matchesTree, matchesScalar, readInt64?_toString]
      | float y => simp only [matchesTree, matchesScalar, writes, readBinary64?_toString, widened]
      | null | bool b | text s => rfl
  | _ => rfl

end Literal

/-! ## Conjunctions -/

namespace Grammar

/-- Operands joined by `AND` behind a conjunction are part of it. -/
theorem Conjunction.and_all {α : Type} {depth : Nat} {kinds : α → List TokenKind}
    {meaning : α → Meaning} {items : List α} (h : ∀ a ∈ items, Operand depth (kinds a) (meaning a))
    {ts : List TokenKind} {m : Meaning} (hfirst : Conjunction depth ts m) :
    Conjunction depth (ts ++ items.flatMap fun a => .word "AND" :: kinds a)
      fun v => m v && items.all fun a => meaning a v := by
  induction items generalizing ts m with
  | nil => simpa using hfirst
  | cons a items ih =>
    have hnext := hfirst.and (sameIgnoringCase_self "AND") (h a List.mem_cons_self)
    simpa [Bool.and_assoc] using ih (fun b hb => h b (List.mem_cons_of_mem a hb)) hnext

/-- Tokens with a word between them, one item after the other. -/
theorem intercalate_cons_eq_append_flatMap {α : Type} (word : TokenKind)
    (kinds : α → List TokenKind) (a : α) (items : List α) :
    [word].intercalate ((a :: items).map kinds) = kinds a ++ items.flatMap fun b =>
      word :: kinds b := by
  induction items generalizing a with
  | nil => simp
  | cons b items ih => simp_all [List.intercalate_cons_cons]

/-- Operands with `AND` between every two are true where all of them are. -/
theorem conjunction_intercalate {α : Type} {depth : Nat} {kinds : α → List TokenKind}
    {meaning : α → Meaning} {items : List α} (hne : items ≠ [])
    (h : ∀ a ∈ items, Operand depth (kinds a) (meaning a)) :
    Conjunction depth ([TokenKind.word "AND"].intercalate (items.map kinds))
      fun v => items.all fun a => meaning a v := by
  obtain ⟨a, items, rfl⟩ := List.exists_cons_of_ne_nil hne
  rw [intercalate_cons_eq_append_flatMap]
  simpa using Conjunction.and_all (fun b hb => h b (List.mem_cons_of_mem a hb))
    (.single (h a List.mem_cons_self))

end Grammar

/-! ## Criteria -/

namespace Criteria

/-- Fields with their literals as a text: each field, an equals sign and the literal as texts write
it, with `AND` between every two. -/
def fieldsText (pairs : List (String × Literal)) : String :=
  " AND ".intercalate (pairs.map fun p => p.1 ++ "=" ++ p.2.source)

/-- The tokens of fields with their literals. -/
def fieldsKinds (pairs : List (String × Literal)) : List TokenKind :=
  [TokenKind.word "AND"].intercalate (pairs.map fun p => [.word p.1, .equals, p.2.sourceKind])

variable {pairs : List (String × Literal)}

/-- The text of fields is cut into their tokens. -/
theorem cut_fieldsText (hfields : ∀ p ∈ pairs, IsWord p.1) (hliterals : ∀ p ∈ pairs, p.2.Writable) :
    Cut (fieldsText pairs).toList (fieldsKinds pairs) := by
  by_cases hne : pairs = []
  · simpa [hne, fieldsText, fieldsKinds] using Cut.nil
  · have hand : Spells "AND".toList (.word "AND") := spells_ofList (c := 'A') rfl rfl
    have hpieces : ∀ p ∈ pairs, Expr.LaidOutAs (p.1 ++ "=" ++ p.2.source) [.word p.1, .equals,
        p.2.sourceKind] :=
      fun p hp => Expr.laidOut_comparison (hfields p hp) (hliterals p hp).spells
        (hliterals p hp).ofToken?
    have hcut : Cut ((fieldsText pairs).toList ++ []) (fieldsKinds pairs ++ []) :=
      Expr.cut_intercalate rfl hand hne hpieces (fun d hd => by contradiction) .nil
    simpa using hcut

/-- The tokens of fields say what the fields do. -/
theorem says_fieldsKinds (hreserved : ∀ p ∈ pairs, isReserved p.1 = false)
    (hliterals : ∀ p ∈ pairs, p.2.Writable) :
    Says (fieldsKinds pairs) (Predicate.ofFields pairs).holds := by
  have hmeaning : (Predicate.ofFields pairs).holds = fun v => pairs.all fun p =>
      (Expr.equal p.1 p.2).evaluate v :=
    funext (Predicate.holds_ofFields pairs)
  rw [hmeaning]
  by_cases hne : pairs = []
  · simpa [hne, fieldsKinds] using Says.nothing
  · refine .disjunction (.single (conjunction_intercalate hne fun p hp => ?_))
    have hread : (fun v => (Expr.equal p.1 p.2).evaluate v) = fun v =>
        (Expr.equal p.1 p.2.asRead).evaluate v := by
      simp [Expr.evaluate, Literal.agrees_asRead]
    rw [hread]
    exact .comparison (hreserved p hp) (denotes_of_ofToken? (hliterals p hp).ofToken?)

/-- A text that is cut into tokens which say something is compiled into a predicate that says it. -/
theorem exists_compile_of_cut {text : String} {kinds : List TokenKind} {m : Meaning}
    (hcut : Cut text.toList kinds) (hmeans : Says kinds m) :
    ∃ P, (expression text).compile = .ok P ∧ ∀ v, P.holds v = m v := by
  obtain ⟨ts, hts, rfl⟩ := exists_tokenize_of_cut hcut
  obtain ⟨e, he, hmeaning⟩ :=
    Expr.ofTokens_of_says hmeans (fun n hn => ofToken?_of_tokenize hts hn) text.utf8ByteSize
  refine ⟨⟨e.render, e⟩, ?_, hmeaning⟩
  rw [compile, Predicate.ofText, Expr.ofText_of_tokenize hts, he]

/-- Fields with literals are met by the values that their text is met by, both compiled without a
fault; and no fields are met by the values that any blank text is met by. -/
theorem fields_agree_with_text (hfields : ∀ p ∈ pairs, IsWord p.1 ∧ isReserved p.1 = false)
    (hliterals : ∀ p ∈ pairs, p.2.Writable) :
    (∃ P Q, (fields pairs).compile = .ok P ∧ (expression (fieldsText pairs)).compile = .ok Q ∧
      ∀ v, Q.holds v = P.holds v) ∧
    ∀ text : String, text.toList.all isBlank = true →
      ∃ P Q, (fields []).compile = .ok P ∧ (expression text).compile = .ok Q ∧
        ∀ v, Q.holds v = P.holds v := by
  have hcut := cut_fieldsText (fun p hp => (hfields p hp).1) hliterals
  have hmeans := says_fieldsKinds (fun p hp => (hfields p hp).2) hliterals
  constructor
  · obtain ⟨Q, hQ, hagree⟩ := exists_compile_of_cut hcut hmeans
    exact ⟨.ofFields pairs, Q, rfl, hQ, hagree⟩
  · intro text hblank
    obtain ⟨Q, hQ, hagree⟩ := exists_compile_of_cut (cut_of_all_isBlank hblank) .nothing
    exact ⟨.ofFields [], Q, rfl, hQ, hagree⟩

/-- A truth value, a negative integer and a text with a quote. -/
theorem fields_agree_with_text_of_three :
    let pairs := [("a", .bool true), ("b.c", .int (-5)), ("d", .text "it's")]
    fieldsText pairs = "a=true AND b.c=-5 AND d='it''s'" ∧
      ∃ P Q, (fields pairs).compile = .ok P ∧
        (expression "a=true AND b.c=-5 AND d='it''s'").compile = .ok Q ∧
        ∀ v, Q.holds v = P.holds v := by
  intro pairs
  have htext : fieldsText pairs = "a=true AND b.c=-5 AND d='it''s'" := by decide +kernel
  have hfields : ∀ p ∈ pairs, IsWord p.1 ∧ isReserved p.1 = false := by decide +kernel
  have hliterals : ∀ p ∈ pairs, p.2.Writable := by
    simp only [pairs, List.forall_mem_cons, List.not_mem_nil, false_imp_iff, implies_true, and_true]
    exact ⟨.bool true, .int (-5), .text "it's"⟩
  exact ⟨htext, htext ▸ (fields_agree_with_text hfields hliterals).1⟩

end Criteria

end ClusterMap
