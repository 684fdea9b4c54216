import ClusterMap.Event.Basic

/-!
# Collectors

A record of events in the order of their arrival, with a label for the lines that show them.
-/

namespace ClusterMap

/-- A record of events. -/
structure Collector where
  /-- What stands in front of the lines. -/
  label : Option String := none
  /-- The recorded events, oldest first. -/
  events : List EntryEvent := []

namespace Collector

/-- Records one more event. -/
def record (c : Collector) (e : EntryEvent) : Collector := { c with events := c.events ++ [e] }

/-- Records events in their order. -/
def recordAll (c : Collector) (events : List EntryEvent) : Collector := events.foldl record c

/-- Forgets the events and keeps the label. -/
def clear (c : Collector) : Collector := { c with events := [] }

/-- The number of recorded events. -/
def size (c : Collector) : Nat := c.events.length

/-- Whether nothing was recorded. -/
def isEmpty (c : Collector) : Bool := c.events.isEmpty

/-- The lines of the events, behind the label between brackets if there is one. -/
def lines (c : Collector) : List String :=
  c.events.map fun e =>
    match c.label with
    | some label => "[" ++ label ++ "] " ++ e.line
    | none => e.line

/-- What waiting for `count` events gives when nothing more arrives before the deadline: everything
recorded, whether enough or not. -/
def waitFor (c : Collector) (_count : Nat) : List EntryEvent := c.events

end Collector

end ClusterMap
