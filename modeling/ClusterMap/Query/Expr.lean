import ClusterMap.Query.Literal

/-!
# Predicate expressions

The tree of a predicate, its truth value on a stored value and its canonical text. Main statements:
`evaluate_and`, `evaluate_or` (a node is true as its terms are), `render_and`, `render_or`.
-/

namespace ClusterMap

/-- A predicate on values. -/
inductive Expr where
  /-- True of every value. -/
  | all
  /-- The attribute under a path equals a literal. -/
  | equal (field : String) (literal : Literal)
  | and (terms : List Expr)
  | or (terms : List Expr)
  deriving Repr

namespace Expr

/-! ## Truth -/

/-- The attribute of a value under a path; the path `this` is the value itself. -/
def target (v : Value) (field : String) : Option Value :=
  if field = "this" then some v else v.field field

mutual

/-- Whether a predicate is true of a value. A comparison with an attribute that is missing is
false. -/
def evaluate (v : Value) : Expr → Bool
  | all => true
  | equal field literal =>
    match target v field with
    | some a => literal.agrees a
    | none => false
  | and terms => allTrue v terms
  | or terms => anyTrue v terms
termination_by structural e => e

/-- Whether every term is true of a value. -/
def allTrue (v : Value) : List Expr → Bool
  | [] => true
  | e :: rest => evaluate v e && allTrue v rest
termination_by structural l => l

/-- Whether some term is true of a value. -/
def anyTrue (v : Value) : List Expr → Bool
  | [] => false
  | e :: rest => evaluate v e || anyTrue v rest
termination_by structural l => l

end

@[simp] theorem evaluate_and (v : Value) (terms : List Expr) :
    evaluate v (and terms) = terms.all (evaluate v) := by
  rw [evaluate]
  induction terms with
  | nil => rfl
  | cons e rest ih => rw [allTrue, ih, List.all_cons]

@[simp] theorem evaluate_or (v : Value) (terms : List Expr) :
    evaluate v (or terms) = terms.any (evaluate v) := by
  rw [evaluate]
  induction terms with
  | nil => rfl
  | cons e rest ih => rw [anyTrue, ih, List.any_cons]

/-! ## Text -/

/-- Terms between parentheses with a word between every two. -/
def group (joiner : String) (terms : List String) : String := "(" ++ joiner.intercalate terms ++ ")"

/-- The text of a comparison. -/
def comparison (field : String) (literal : Literal) : String := field ++ "=" ++ literal.render

mutual

/-- The canonical text: nothing for the predicate that is always true, no quotes around texts, and
parentheses around every conjunction and disjunction. -/
def render : Expr → String
  | all => ""
  | equal field literal => comparison field literal
  | and terms => group " AND " (renderTerms terms)
  | or terms => group " OR " (renderTerms terms)
termination_by structural e => e

/-- The texts of a list of terms. -/
def renderTerms : List Expr → List String
  | [] => []
  | e :: rest => render e :: renderTerms rest
termination_by structural l => l

end

theorem renderTerms_eq_map (terms : List Expr) : renderTerms terms = terms.map render := by
  induction terms with
  | nil => rfl
  | cons e rest ih => rw [renderTerms, ih, List.map_cons]

@[simp] theorem render_and (terms : List Expr) :
    render (and terms) = group " AND " (terms.map render) := by
  rw [render, renderTerms_eq_map]

@[simp] theorem render_or (terms : List Expr) :
    render (or terms) = group " OR " (terms.map render) := by
  rw [render, renderTerms_eq_map]

/-! ## Induction and equality -/

/-- Induction on an expression, with the hypothesis for every term of a node. -/
theorem induction {P : Expr → Prop} (all : P .all)
    (equal : ∀ field literal, P (.equal field literal))
    (and : ∀ terms, (∀ e ∈ terms, P e) → P (.and terms))
    (or : ∀ terms, (∀ e ∈ terms, P e) → P (.or terms)) : ∀ e, P e
  | .all => all
  | .equal field literal => equal field literal
  | .and terms => and terms fun e _ => induction all equal and or e
  | .or terms => or terms fun e _ => induction all equal and or e

mutual

/-- Decides equality of expressions. -/
def decEq : (e f : Expr) → Decidable (e = f)
  | all, all => .isTrue rfl
  | equal field literal, equal field' literal' =>
    decidable_of_iff (field = field' ∧ literal = literal') (by simp)
  | and l, and m =>
    match decEqTerms l m with
    | .isTrue h => .isTrue (h ▸ rfl)
    | .isFalse h => .isFalse fun e => h (by injection e)
  | or l, or m =>
    match decEqTerms l m with
    | .isTrue h => .isTrue (h ▸ rfl)
    | .isFalse h => .isFalse fun e => h (by injection e)
  | all, equal _ _ => .isFalse (by simp)
  | all, and _ => .isFalse (by simp)
  | all, or _ => .isFalse (by simp)
  | equal _ _, all => .isFalse (by simp)
  | equal _ _, and _ => .isFalse (by simp)
  | equal _ _, or _ => .isFalse (by simp)
  | and _, all => .isFalse (by simp)
  | and _, equal _ _ => .isFalse (by simp)
  | and _, or _ => .isFalse (by simp)
  | or _, all => .isFalse (by simp)
  | or _, equal _ _ => .isFalse (by simp)
  | or _, and _ => .isFalse (by simp)
termination_by structural e => e

/-- Decides equality of lists of terms. -/
def decEqTerms : (l m : List Expr) → Decidable (l = m)
  | [], [] => .isTrue rfl
  | [], _ :: _ => .isFalse (by simp)
  | _ :: _, [] => .isFalse (by simp)
  | e :: l, f :: m =>
    match decEq e f, decEqTerms l m with
    | .isTrue h, .isTrue h' => .isTrue (by rw [h, h'])
    | .isFalse h, _ => .isFalse fun c => h (List.cons.inj c).1
    | _, .isFalse h => .isFalse fun c => h (List.cons.inj c).2
termination_by structural l => l

end

instance : DecidableEq Expr := decEq

end Expr

end ClusterMap
