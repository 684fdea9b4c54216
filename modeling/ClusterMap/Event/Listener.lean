import ClusterMap.Event.Basic

/-!
# Listeners

What is called with the events of a map. A listener for every category has a handler for each or
leaves it out; a listener for one category has a single handler. A handler ends well, refuses with
an error or panics, and may call on the bus while it runs. What it leaves behind, an error or the
payload of a panic, is still to be read and disposed of by the worker that ran it, and may panic
there.

What is taken for granted of a handler: it comes to an end, it depends on its number and its events
alone, and it calls on the bus only while it runs, not when the text of its error is asked for and
not when its error or its payload is disposed of. A panic while another one is under way ends the
process, and is left out.
-/

namespace ClusterMap

/-- How a handler ends. -/
inductive Outcome where
  | completed
  | failed (message : String)
  /-- Breaks off; the payload may be a text. -/
  | panicked (payload : Option String)
  /-- Refuses with an error that panics when its text is asked for or when it is disposed of. -/
  | failedMute
  /-- Breaks off with a payload that panics when it is disposed of. -/
  | panickedTwice
  deriving DecidableEq, Repr

namespace Outcome

/-- What the bus reports about a handler that did not end well. -/
def failure? : Outcome → Option String
  | failed message => some message
  | panicked payload => some ("panicked: " ++ payload.getD "unknown panic")
  | completed | failedMute | panickedTwice => none

/-- Whether the worker that ran the handler panics itself over what the handler left behind. -/
def breaksWorker : Outcome → Bool
  | failedMute | panickedTwice => true
  | completed | failed _ | panicked _ => false

/-- Whether a handler did not end well. -/
def isFailure (o : Outcome) : Bool := o ≠ completed

/-- A handler that did not end well is reported, or it takes its worker down. -/
theorem isFailure_eq (o : Outcome) : o.isFailure = (o.failure?.isSome || o.breaksWorker) := by
  cases o <;> rfl

/-- What takes the worker down is not reported. -/
theorem failure?_of_breaksWorker {o : Outcome} (h : o.breaksWorker = true) : o.failure? = none := by
  cases o with
  | completed | failed | panicked => contradiction
  | failedMute | panickedTwice => rfl

end Outcome

/-- What a handler may call on the bus that runs it. -/
inductive BusCall where
  | unregister (id : Nat)
  | shutdown
  deriving DecidableEq, Repr

/-- What a handler does with an event. -/
structure Reaction where
  calls : List BusCall := []
  outcome : Outcome := .completed
  deriving DecidableEq, Repr

/-- What is done with an event, given the number of the registration and the events it was called
with before. -/
abbrev Handler := (id : Nat) → (before : List EntryEvent) → EntryEvent → Reaction

/-- What a registration calls. -/
inductive Listener where
  /-- Takes every category; one without a handler passes unnoticed. -/
  | multi (handlers : Category → Option Handler)
  | single (category : Category) (handler : Handler)

namespace Listener

/-- Whether events of a category reach a listener. -/
def accepts : Listener → Category → Bool
  | multi _, _ => true
  | single wanted _, c => wanted = c

/-- The handler for a category. -/
def handler? : Listener → Category → Option Handler
  | multi handlers, c => handlers c
  | single wanted handler, c => if wanted = c then some handler else none

/-- Calls the handler for the category of an event. -/
def invoke (l : Listener) (id : Nat) (before : List EntryEvent) (e : EntryEvent) : Reaction :=
  match l.handler? e.category with
  | some handler => handler id before e
  | none => {}

/-- The text that shows a listener in a log. -/
def debugText : Listener → String
  | multi _ => "Listener::Multi"
  | single category _ => "Listener::Single(" ++ category.text ++ ")"

end Listener

end ClusterMap
