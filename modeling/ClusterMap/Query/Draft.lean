import ClusterMap.Query.Expr
import ClusterMap.Query.Vocabulary

/-!
# Reading predicates

A predicate is read token by token. What has been read is a *draft*: the groups still open, what
each holds so far, and which sort of token is due next. So the first token that does not fit is the
one reported, and the end of the text is judged by what the draft still lacks. A conjunction binds
tighter than a disjunction, a node takes over the terms of an operand of its own operator, and a
node with one term is that term.
-/

namespace ClusterMap

open Text

/-! ## Drafts -/

/-- What a group holds so far: the conjunctions before the current one, and the terms of the current
one, both last first. -/
structure Group where
  conjunctions : List Expr
  terms : List Expr
  deriving Repr

/-- Which sort of token is due. -/
inductive Due where
  /-- A comparison or an opening parenthesis. -/
  | operand
  | equals (field : String)
  | literal (field : String)
  /-- A joiner, a closing parenthesis or the end. -/
  | joiner
  deriving DecidableEq, Repr

/-- A predicate read up to some token. -/
structure Draft where
  /-- The open parentheses, innermost first: where each stands, and the group around it. -/
  opened : List (Nat × Group)
  /-- The innermost group. -/
  group : Group
  due : Due
  deriving Repr

namespace Group

/-- A group of which nothing has been read. -/
def empty : Group := ⟨[], []⟩

/-- The node of a list of terms; a single term stands for itself. -/
def collapse (node : List Expr → Expr) : List Expr → Expr
  | [e] => e
  | terms => node terms

/-- Adds a term to the current conjunction, or its terms if it is a conjunction itself. -/
def addTerm (g : Group) : Expr → Group
  | .and terms => { g with terms := terms.reverse ++ g.terms }
  | e => { g with terms := e :: g.terms }

/-- The current conjunction. -/
def conjunction (g : Group) : Expr := collapse .and g.terms.reverse

/-- The conjunctions with the current one, last first; a disjunction adds its terms. -/
def allConjunctions (g : Group) : List Expr :=
  match g.conjunction with
  | .or terms => terms.reverse ++ g.conjunctions
  | e => e :: g.conjunctions

/-- Ends the current conjunction. -/
def close (g : Group) : Group := ⟨g.allConjunctions, []⟩

/-- The expression of a group that ends here. -/
def expr (g : Group) : Expr := collapse .or g.allConjunctions.reverse

end Group

namespace Draft

/-- The draft of which nothing has been read. -/
def empty : Draft := ⟨[], .empty, .operand⟩

/-- The draft behind an operand. -/
def addOperand (d : Draft) (e : Expr) : Draft :=
  { d with group := d.group.addTerm e, due := .joiner }

/-- Reads a token where an operand is due. -/
def readOperand (d : Draft) (t : Token) : Except SyntaxError Draft :=
  match t.kind with
  | .leftParen =>
    if d.opened.length = maxNesting then .error t.unexpected
    else .ok ⟨(t.offset, d.group) :: d.opened, .empty, .operand⟩
  | .word w => if isReserved w then .error t.unexpected else .ok { d with due := .equals w }
  | _ => .error t.unexpected

/-- Reads a token behind an operand. -/
def readJoiner (d : Draft) (t : Token) : Except SyntaxError Draft :=
  match t.kind with
  | .word w =>
    if sameIgnoringCase w "AND" then .ok { d with due := .operand }
    else if sameIgnoringCase w "OR" then .ok { d with group := d.group.close, due := .operand }
    else .error t.unexpected
  | .rightParen =>
    match d.opened with
    | [] => .error t.unexpected
    | (_, outer) :: opened => .ok (addOperand ⟨opened, outer, .operand⟩ d.group.expr)
  | _ => .error t.unexpected

/-- Reads a token. -/
def step (d : Draft) (t : Token) : Except SyntaxError Draft :=
  match d.due with
  | .operand => d.readOperand t
  | .equals field =>
    if t.kind = .equals then .ok { d with due := .literal field } else .error t.unexpected
  | .literal field =>
    match Literal.ofToken? t.kind with
    | some literal => .ok (d.addOperand (.equal field literal))
    | none => .error t.unexpected
  | .joiner => d.readJoiner t

/-- Reads tokens from the left. -/
def run (d : Draft) : List Token → Except SyntaxError Draft
  | [] => .ok d
  | t :: rest =>
    match d.step t with
    | .ok d => d.run rest
    | .error e => .error e

/-- The expression of a draft at the end of a text of so many bytes. A parenthesis around a whole
expression that lacks its partner is at fault itself; of anything else that is missing, the end
is. -/
def finish (d : Draft) (length : Nat) : Except SyntaxError Expr :=
  match d.due, d.opened with
  | .joiner, [] => .ok d.group.expr
  | .joiner, (offset, _) :: _ => .error ⟨"(", offset⟩
  | _, _ => .error ⟨"<end of input>", length⟩

theorem run_append (d : Draft) (ts us : List Token) :
    d.run (ts ++ us) =
      match d.run ts with
      | .ok d => d.run us
      | .error e => .error e := by
  induction ts generalizing d with
  | nil => rfl
  | cons t ts ih =>
    simp only [List.cons_append, run]
    cases d.step t with
    | ok d => exact ih d
    | error e => rfl

end Draft

namespace Expr

/-- The expression that the tokens of a text of `length` bytes write; no token at all is always
true. -/
def ofTokens (ts : List Token) (length : Nat) : Except SyntaxError Expr :=
  if ts = [] then .ok .all
  else
    match Draft.empty.run ts with
    | .ok d => d.finish length
    | .error e => .error e

/-- The expression that a text writes. -/
def ofText (text : String) : Except SyntaxError Expr :=
  match tokenize text with
  | .ok ts => ofTokens ts text.utf8ByteSize
  | .error e => .error e

end Expr

end ClusterMap
