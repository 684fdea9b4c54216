import ClusterMap.Key.Basic
import ClusterMap.Number.Shortest
import ClusterMap.Table
import ClusterMap.Text.Quoted

/-!
# Canonical keys

The text of a key input. Inputs of different types that mean the same have the same text: a whole
number is written alike whatever its type, and the two zeros of a double are one. A key of the
caller's own type needs a rule, which is registered under the name of its type. Main statements:
`canonicalize_custom`, `rules_register` (a later rule for a type replaces the earlier one).
-/

namespace ClusterMap

open Number

/-- Why an input is no key. -/
inductive KeyError where
  /-- There is no rule for the type of this name. -/
  | noRule (typeName : String)
  /-- A double that is no number. -/
  | nonFinite (x : Binary64)
  deriving DecidableEq, Repr

/-- The sentence that says why an input is no key. -/
def KeyError.message : KeyError → String
  | .noRule typeName => "no canonicalization rule registered for " ++ typeName
  | .nonFinite x => "non-finite float key " ++ x.text

/-- The rules for keys of the caller's own types, under the names of the types. -/
structure KeyCodec (κ : Type) where
  rules : Table (κ → String)

namespace KeyCodec

variable {κ : Type}

/-- A codec without rules of its own. -/
def empty : KeyCodec κ := ⟨∅⟩

instance : Inhabited (KeyCodec κ) := ⟨empty⟩

/-- Adds the rule for a type, in place of an earlier one. -/
def register (codec : KeyCodec κ) (typeName : String) (rule : κ → String) : KeyCodec κ :=
  ⟨codec.rules.insert typeName rule⟩

/-- Whether there is a rule for a type. -/
def hasRule (codec : KeyCodec κ) (typeName : String) : Bool := (codec.rules.get? typeName).isSome

/-- The text of a double: that of an integer where it is one, and one text for both zeros. -/
def floatText (x : Binary64) : Except KeyError String :=
  if x.isFinite then .ok (if x.magnitude = 0 then "0" else x.text) else .error (.nonFinite x)

/-- The canonical form of an input. -/
def canonicalize [CustomKey κ] (codec : KeyCodec κ) : KeyInput κ → Except KeyError Key
  | .text s => .ok ⟨s⟩
  | .symbol s => .ok ⟨s⟩
  | .int n => .ok ⟨toString n.toInt⟩
  | .uint n => .ok ⟨toString n.toNat⟩
  | .float x => (floatText x).map Key.mk
  | .date d => .ok ⟨d.text⟩
  | .dateTime t => .ok ⟨t.text⟩
  | .utc t => .ok ⟨t.text ++ "Z"⟩
  | .custom k =>
    match codec.rules.get? (CustomKey.typeName k) with
    | some rule => .ok ⟨rule k⟩
    | none => .error (.noRule (CustomKey.typeName k))

/-- Registering a rule replaces the one for its type and no other. -/
theorem rules_register (codec : KeyCodec κ) (typeName other : String) (rule : κ → String) :
    (codec.register typeName rule).rules.get? other =
      if other = typeName then some rule else codec.rules.get? other :=
  Table.get?_insert _ _ _ _

/-- A key of the caller's own type has the text that the rule last registered for the type gives
it. -/
theorem canonicalize_custom [CustomKey κ] (codec : KeyCodec κ) (rule : κ → String) (k : κ) :
    (codec.register (CustomKey.typeName k) rule).canonicalize (.custom k) = .ok ⟨rule k⟩ := by
  simp [canonicalize, rules_register]

/-- A canonical key is its own canonical form. -/
@[simp] theorem canonicalize_ofKey [CustomKey κ] (codec : KeyCodec κ) (k : Key) :
    codec.canonicalize (.ofKey k) = .ok k := rfl

/-- The text that shows a codec in a log. -/
def debugText (codec : KeyCodec κ) : String :=
  "KeyCodec \x7b custom_rules: " ++ toString codec.rules.size ++ " \x7d"

end KeyCodec

/-- The text that shows a key of the caller's own type in a log. -/
def CustomKey.debugText {κ : Type} [CustomKey κ] (k : κ) : String :=
  "CustomKey \x7b type_name: " ++ Text.quoted (CustomKey.typeName k) ++ ", .. \x7d"

end ClusterMap
