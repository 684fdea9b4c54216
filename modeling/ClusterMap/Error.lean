import ClusterMap.Text.Quoted

/-!
# Errors

Every way in which an operation on the map can fail, and the sentence that reports it; and how a
computation in steps fails, whatever its errors are. Main statements: `bind_eq_ok`, `bind_eq_error`,
a computation in two steps is as good as its steps; `failure?_bind_ok`, what is done with a result
does not matter to why there is none.
-/

namespace ClusterMap

/-- A predicate text that cannot be read: what stands in the way, and the byte where it starts. -/
structure SyntaxError where
  token : String
  offset : Nat
  deriving DecidableEq, Repr

/-- A failed operation. -/
inductive Error where
  | io (reason : String)
  | unsupportedKeyType (reason : String)
  | predicateSyntax (fault : SyntaxError)
  | listenerDispatch (registration : Nat) (reason : String)
  | transportUnavailable (reason : String)
  | serialization (reason : String)
  | config (reason : String)
  deriving DecidableEq, Repr

namespace Error

/-- The sentence that reports an error. -/
def message : Error → String
  | io reason => "IO error: " ++ reason
  | unsupportedKeyType reason => "Unsupported key type: " ++ reason
  | predicateSyntax fault =>
    "Predicate syntax error at offset " ++ toString fault.offset ++ ": unexpected " ++
      Text.quoted fault.token
  | listenerDispatch registration reason =>
    "Listener " ++ toString registration ++ " failed: " ++ reason
  | transportUnavailable reason => "Transport unavailable: " ++ reason
  | serialization reason => "Serialization error: " ++ reason
  | config reason => "Configuration error: " ++ reason

end Error

/-! ## Computations in steps -/

section Steps

variable {ε α β : Type} {x : Except ε α}

/-- What comes out of two steps came out of the second, given what came out of the first. -/
theorem bind_eq_ok {f : α → Except ε β} {b : β} (h : (x >>= f) = .ok b) :
    ∃ a, x = .ok a ∧ f a = .ok b := by
  cases x with
  | error e => contradiction
  | ok a => exact ⟨a, rfl, h⟩

/-- Two steps fail as the first does, or as the second. -/
theorem bind_eq_error {f : α → Except ε β} {e : ε} (h : (x >>= f) = .error e) :
    x = .error e ∨ ∃ a, x = .ok a ∧ f a = .error e := by
  cases x with
  | error e' => exact .inl (by cases h; rfl)
  | ok a => exact .inr ⟨a, rfl, h⟩

/-- A step that only changes the result does not fail. -/
theorem eq_error_of_bind_ok {f : α → β} {e : ε} (h : (x >>= fun a => .ok (f a)) = .error e) :
    x = .error e := by
  obtain hx | ⟨a, -, hok⟩ := bind_eq_error h
  · exact hx
  · contradiction

/-- Why a computation failed, if it did. -/
def failure? : Except ε α → Option ε
  | .ok _ => none
  | .error e => some e

/-- The failure of a result is its error. -/
theorem failure?_eq_some_iff {e : ε} : failure? x = some e ↔ x = .error e := by
  cases x <;> simp [failure?]

@[simp] theorem failure?_bind_ok (x : Except ε α) (f : α → β) :
    failure? (x >>= fun a => .ok (f a)) = failure? x := by
  cases x <;> rfl

@[simp] theorem failure?_map (x : Except ε α) (f : α → β) : failure? (x.map f) = failure? x := by
  cases x <;> rfl

end Steps

end ClusterMap
