import ClusterMap.Key.Calendar
import ClusterMap.Number.Binary64

/-!
# Keys

A key is a text. What callers give as a key may be of many types, one of their own among them;
`KeyCodec` finds its text.
-/

namespace ClusterMap

open Number

/-- A key in canonical form. -/
structure Key where
  text : String
  deriving DecidableEq, Repr

/-- A type of keys of the caller's own, each with the name of the type it belongs to. -/
class CustomKey (κ : Type) where
  typeName : κ → String

/-- What a caller gives as a key. -/
inductive KeyInput (κ : Type) where
  | text (s : String)
  | symbol (s : String)
  | int (n : Int64)
  | uint (n : UInt64)
  | float (x : Binary64)
  | date (d : Date)
  | dateTime (t : DateTime)
  | utc (t : DateTime)
  | custom (k : κ)
  deriving DecidableEq

/-- A canonical key as input. -/
def KeyInput.ofKey {κ : Type} (k : Key) : KeyInput κ := .text k.text

end ClusterMap
