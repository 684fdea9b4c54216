import ClusterMap.Query.Expr
import ClusterMap.Query.Vocabulary

/-!
# The grammar of predicates

Which lists of tokens are predicates and what each says of a value, without regard to how they are
read:

    disjunction  =  conjunction, or disjunction OR conjunction
    conjunction  =  operand, or conjunction AND operand
    operand      =  field = literal, or ( disjunction )

Every rule carries the meaning of what it derives, and a bound on the parentheses open at once. Main
statements: `Disjunction.mono`, what keeps to a bound keeps to every greater one;
`denotes_of_ofToken?`, a token stands only for the literal that the grammar gives it.
-/

namespace ClusterMap.Grammar

open Text

/-! ## Literals -/

/-- The literal that a token stands for. -/
inductive Denotes : TokenKind → Literal → Prop where
  | quoted (s : String) : Denotes (.quoted s) (.text s)
  | number (n : String) : Denotes (.number n) (.number n)
  | bool {w : String} {b : Bool} :
      sameIgnoringCase w (boolText b) = true → Denotes (.word w) (.bool b)
  | word {w : String} : isReserved w = false → (∀ b, sameIgnoringCase w (boolText b) = false) →
      Denotes (.word w) (.text w)

/-- A token stands only for the literal that the grammar gives it. -/
theorem denotes_of_ofToken? {t : TokenKind} {literal : Literal}
    (h : Literal.ofToken? t = some literal) :
    Denotes t literal := by
  unfold Literal.ofToken? at h
  split at h
  · cases h; exact .quoted _
  · split at h
    · cases h; exact .number _
    · contradiction
  · split at h
    · next ht => cases h; exact .bool (b := true) ht
    · next ht =>
      split at h
      · next hf => cases h; exact .bool (b := false) hf
      · next hf =>
        split at h
        · contradiction
        · next hr =>
          cases h
          refine .word (by simpa using hr) fun b => ?_
          cases b
          · exact Bool.eq_false_iff.2 hf
          · exact Bool.eq_false_iff.2 ht
  · contradiction

/-! ## Predicates -/

/-- What a predicate says of a value. -/
abbrev Meaning := Value → Bool

mutual

/-- Conjunctions joined by `OR`, true where some of them is. -/
inductive Disjunction : (depth : Nat) → List TokenKind → Meaning → Prop where
  | single {depth : Nat} {ts : List TokenKind} {m : Meaning} :
      Conjunction depth ts m → Disjunction depth ts m
  | or {depth : Nat} {ts us : List TokenKind} {w : String} {m n : Meaning} :
      Disjunction depth ts m → sameIgnoringCase w "OR" = true → Conjunction depth us n →
      Disjunction depth (ts ++ .word w :: us) fun v => m v || n v

/-- Operands joined by `AND`, true where all of them are. -/
inductive Conjunction : (depth : Nat) → List TokenKind → Meaning → Prop where
  | single {depth : Nat} {ts : List TokenKind} {m : Meaning} :
      Operand depth ts m → Conjunction depth ts m
  | and {depth : Nat} {ts us : List TokenKind} {w : String} {m n : Meaning} :
      Conjunction depth ts m → sameIgnoringCase w "AND" = true → Operand depth us n →
      Conjunction depth (ts ++ .word w :: us) fun v => m v && n v

/-- A comparison, or a disjunction between parentheses. -/
inductive Operand : (depth : Nat) → List TokenKind → Meaning → Prop where
  | comparison {depth : Nat} {field : String} {t : TokenKind} {literal : Literal} :
      isReserved field = false → Denotes t literal →
      Operand depth [.word field, .equals, t] fun v => (Expr.equal field literal).evaluate v
  | group {depth : Nat} {ts : List TokenKind} {m : Meaning} :
      Disjunction depth ts m → Operand (depth + 1) (.leftParen :: ts ++ [.rightParen]) m

end

/-- What the tokens of a whole predicate say: none are true of every value. -/
inductive Says : List TokenKind → Meaning → Prop where
  | nothing : Says [] fun _ => true
  | disjunction {ts : List TokenKind} {m : Meaning} : Disjunction maxNesting ts m → Says ts m

mutual

theorem Disjunction.mono {depth depth' : Nat} {ts : List TokenKind} {m : Meaning}
    (h : Disjunction depth ts m) (hle : depth ≤ depth') : Disjunction depth' ts m :=
  match h with
  | .single h => .single (h.mono hle)
  | .or h hw h' => .or (h.mono hle) hw (h'.mono hle)

theorem Conjunction.mono {depth depth' : Nat} {ts : List TokenKind} {m : Meaning}
    (h : Conjunction depth ts m) (hle : depth ≤ depth') : Conjunction depth' ts m :=
  match h with
  | .single h => .single (h.mono hle)
  | .and h hw h' => .and (h.mono hle) hw (h'.mono hle)

theorem Operand.mono {depth depth' : Nat} {ts : List TokenKind} {m : Meaning}
    (h : Operand depth ts m) (hle : depth ≤ depth') : Operand depth' ts m :=
  match h, depth', hle with
  | .comparison hf hl, _, _ => .comparison hf hl
  | .group h, _ + 1, hle => .group (h.mono (Nat.le_of_succ_le_succ hle))

end

end ClusterMap.Grammar
