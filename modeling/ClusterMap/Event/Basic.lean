import ClusterMap.Error
import ClusterMap.Key.Basic
import ClusterMap.Value.Codec

/-!
# Entry events

What happens to the entries of a map, as the cluster reports it (a notification, the value still
bytes) and as listeners see it (an event, the value decoded). An event keeps all of its notification
but the bytes.
-/

namespace ClusterMap

/-- What happens to an entry. -/
inductive Category where
  | added
  | removed
  | updated
  | evicted
  deriving DecidableEq, Repr

namespace Category

/-- All of them, in the order in which backups are brought in line. -/
def all : List Category := [added, removed, updated, evicted]

/-- The name of a category. -/
def text : Category → String
  | added => "added"
  | removed => "removed"
  | updated => "updated"
  | evicted => "evicted"

end Category

/-- What the cluster reports about an entry; without a value where the entry has none at this
point. -/
structure Notification where
  map : String
  key : Key
  category : Category
  value : Option Bytes
  deriving DecidableEq, Repr

/-- The notifications of one change, in order. -/
abbrev Batch := List Notification

/-- What a listener is told about an entry. -/
structure EntryEvent where
  map : String
  category : Category
  key : Key
  value : Option Value
  deriving DecidableEq

namespace EntryEvent

/-- The event of a notification; bytes that are no value count as none. -/
def ofNotification (n : Notification) : EntryEvent :=
  ⟨n.map, n.category, n.key, n.value.bind fun b => (Value.decode b).toOption⟩

/-- An event without its value. -/
def withoutValue (e : EntryEvent) : EntryEvent := { e with value := none }

/-- The text of the value, empty if there is none. -/
def valueText (e : EntryEvent) : String :=
  match e.value with
  | some v => v.render
  | none => ""

/-- Category, key and value between colons. -/
def line (e : EntryEvent) : String :=
  e.category.text ++ " : " ++ e.key.text ++ " : " ++ e.valueText

end EntryEvent

end ClusterMap
