import ClusterMap.Number.Numeral
import ClusterMap.Text.Blank
import ClusterMap.Text.Case
import ClusterMap.Value.Basic

/-!
# Literals

What a predicate compares an attribute with. Numbers compare by value, an integer attribute with an
integer exactly wherever the literal writes one; a text compares with a number or a truth value by
what it writes, and every literal compares with a text attribute by its own text.
-/

namespace ClusterMap

open Number Text

/-- The right-hand side of a comparison. -/
inductive Literal where
  | bool (b : Bool)
  | int (n : Int64)
  | float (x : Binary64)
  /-- A numeral, kept as it was written. -/
  | number (written : String)
  | text (s : String)
  deriving DecidableEq, Repr

namespace Literal

/-- The text of a literal. -/
def render : Literal → String
  | bool b => boolText b
  | int n => toString n.toInt
  | float x => x.text
  | number written => written
  | text s => s

/-- Whether a text writes a double that equals `x`. -/
def writes (cs : List Char) (x : Binary64) : Bool :=
  match readBinary64? cs with
  | some y => y.equals x
  | none => false

/-- The double of an integer. -/
def widened (n : Int64) : Binary64 := .ofInt n.toInt

/-- Whether a literal equals a scalar. -/
def matchesScalar : Literal → Scalar → Bool
  | int a, .int b => a == b
  | int a, .float y => (widened a).equals y
  | float x, .int b => x.equals (widened b)
  | float x, .float y => x.equals y
  | number written, .int b =>
    match readInt64? written.toList with
    | some a => a == b
    | none => writes written.toList (widened b)
  | number written, .float y => writes written.toList y
  | bool a, .bool b => a == b
  | text s, .bool b => sameIgnoringCase s (boolText b)
  | text s, .int b => readInt64? (trim s.toList) == some b
  | text s, .float y => writes (trim s.toList) y
  | literal, .text s => s == literal.render
  | _, _ => false

/-- Whether a literal equals a tree; none equals a record. -/
def matchesTree (l : Literal) : Tree → Bool
  | .scalar s => l.matchesScalar s
  | .record _ => false

/-- Whether a literal equals a value. -/
def agrees (l : Literal) (v : Value) : Bool := l.matchesTree v.tree

end Literal

end ClusterMap
