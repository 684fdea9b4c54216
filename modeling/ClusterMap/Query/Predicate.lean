import ClusterMap.Query.Draft

/-!
# Predicates

Criteria are given as a text or as fields with their literals; compiled, they are an expression
together with its canonical text. Fields are joined in their order and without parentheses. Main
statement: `holds_ofFields`, all fields have to equal their literals.
-/

namespace ClusterMap

/-- What to look for in a map. -/
inductive Criteria where
  /-- A predicate text. -/
  | expression (text : String)
  /-- Fields that all have to equal their literals. -/
  | fields (pairs : List (String × Literal))
  deriving Repr

namespace Criteria

/-- The criteria that every value meets. -/
def all : Criteria := fields []

/-- Fields in the order of their names; the last of several with one name counts. -/
def ofTable (pairs : List (String × Literal)) : Criteria := fields (Table.ofList pairs).toList

end Criteria

/-- A compiled predicate. -/
structure Predicate where
  /-- The canonical text. -/
  text : String
  expr : Expr
  deriving DecidableEq, Repr

namespace Predicate

/-- The predicate that every value meets. -/
def matchAll : Predicate := ⟨"", .all⟩

/-- Whether a predicate is true of every value because it asks for nothing. -/
def isMatchAll (p : Predicate) : Bool := p.expr = .all

/-- Whether a value meets a predicate. -/
def holds (p : Predicate) (v : Value) : Bool := p.expr.evaluate v

/-- The predicate of a text. -/
def ofText (text : String) : Except SyntaxError Predicate :=
  match Expr.ofText text with
  | .ok e => .ok ⟨e.render, e⟩
  | .error e => .error e

/-- The predicate of fields that all have to equal their literals. -/
def ofFields (pairs : List (String × Literal)) : Predicate :=
  let text := " AND ".intercalate (pairs.map fun p => Expr.comparison p.1 p.2)
  match pairs.map fun p => Expr.equal p.1 p.2 with
  | [] => ⟨text, .all⟩
  | [e] => ⟨text, e⟩
  | terms => ⟨text, .and terms⟩

theorem holds_ofFields (pairs : List (String × Literal)) (v : Value) :
    (ofFields pairs).holds v = pairs.all fun p => (Expr.equal p.1 p.2).evaluate v := by
  match pairs with
  | [] => rfl
  | [p] => simp [ofFields, holds]
  | p :: q :: rest => simp [ofFields, holds, List.all_map, Function.comp_def]

end Predicate

/-- Compiles criteria. -/
def Criteria.compile : Criteria → Except SyntaxError Predicate
  | expression text => Predicate.ofText text
  | fields pairs => .ok (.ofFields pairs)

end ClusterMap
