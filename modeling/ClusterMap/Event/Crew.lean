import ClusterMap.Event.History

/-!
# Workers at their work

Every registration has a worker of its own, and a call of a listener takes its time: meanwhile
events are published, other workers take their events, and registrations come and go. Removing a
registration takes two moves. It is taken out of the table first, and from then on nothing is put
into its mailbox; then the flag of its worker is lowered. A worker looks at its flag before every
event, within a batch as well as between two batches, so its mailbox is one list of events here. A
worker that panics itself over what a listener left behind ends. A history of a bus (`Bus.run`) is
one of a crew in which nobody is interrupted.
-/

namespace ClusterMap

/-- Whether a call removes the registration of a number. -/
def BusCall.removes (id : Nat) : BusCall → Bool
  | unregister other => other == id
  | shutdown => true

/-- The registrations that a call takes out of the table. -/
def Bus.taken (b : Bus) : BusCall → List Nat
  | .unregister id => if b.isActive id then [id] else []
  | .shutdown => b.active.map (·.id)

/-- A call of a listener that has not ended. -/
structure Dispatch where
  event : EntryEvent
  /-- The registrations that the listener took out of the table with its last call and whose flags
  it has not lowered yet. It waits for that call to return. -/
  lowering : List Nat
  /-- What the listener is still to call on the bus. -/
  calls : List BusCall
  outcome : Outcome

/-- A bus and the workers of its registrations. -/
structure Crew where
  bus : Bus := {}
  /-- The registrations whose flags were lowered. -/
  lowered : List Nat := []
  /-- What the worker of the registration of a number is at. -/
  work : Nat → Option Dispatch := fun _ => none

namespace Crew

/-- What may happen to a bus and its workers. -/
inductive Move where
  | register (map : String) (listener : Listener) (includeValue : Bool)
  | publish (events : List EntryEvent)
  | deliver (batch : Batch)
  /-- Somebody outside takes a registration out of the table. -/
  | unregister (id : Nat)
  /-- Somebody outside takes all registrations out of the table. -/
  | shutdown
  /-- Whoever took a registration out of the table lowers the flag of its worker. -/
  | lower (id : Nat)
  /-- A worker that is at nothing looks at its flag and takes the next event from its mailbox. -/
  | take (id : Nat)
  /-- The listener that a worker runs does the next thing, or ends. -/
  | proceed (id : Nat)

/-- The crew with a worker at something else. -/
def engage (c : Crew) (id : Nat) (d : Option Dispatch) : Crew :=
  { c with work := fun other => if other = id then d else c.work other }

/-- A worker that is at nothing takes the next event, unless its flag was lowered or it has ended,
and runs the listener. -/
def take (c : Crew) (id : Nat) : Crew :=
  match c.work id, c.bus.registration? id with
  | none, some r =>
    match r.pending with
    | e :: _ =>
      if id ∈ c.lowered ∨ id ∈ c.bus.ended then c
      else
        let reaction := r.listener.invoke id r.delivered e
        { c with bus := c.bus.modify id Registration.advance }.engage id
          (some ⟨e, [], reaction.calls, reaction.outcome⟩)
    | [] => c
  | _, _ => c

/-- A running listener lowers the next flag that its last call is about; or it makes its next call,
or it ends. -/
def proceed (c : Crew) (id : Nat) : Crew :=
  match c.work id with
  | none => c
  | some ⟨e, other :: rest, calls, outcome⟩ =>
    { c with lowered := other :: c.lowered }.engage id (some ⟨e, rest, calls, outcome⟩)
  | some ⟨e, [], call :: calls, outcome⟩ =>
    { c with bus := c.bus.call call }.engage id (some ⟨e, c.bus.taken call, calls, outcome⟩)
  | some ⟨e, [], [], outcome⟩ => { c with bus := c.bus.recordOutcome id e outcome }.engage id none

/-- The flag of a worker is lowered if its registration was taken out of the table. -/
def lower (c : Crew) (id : Nat) : Crew :=
  match c.bus.registration? id with
  | some r => if r.active then c else { c with lowered := id :: c.lowered }
  | none => c

/-- The crew after a move. -/
def move (c : Crew) : Move → Crew
  | .register map listener includeValue =>
    { c with bus := (c.bus.register map listener includeValue).2 }
  | .publish events => { c with bus := c.bus.publish events }
  | .deliver batch => { c with bus := c.bus.deliver batch }
  | .unregister id => { c with bus := (c.bus.unregister id).2 }
  | .shutdown => { c with bus := c.bus.shutdown }
  | .lower id => c.lower id
  | .take id => c.take id
  | .proceed id => c.proceed id

/-- The crew after a list of moves. -/
def run (c : Crew) (moves : List Move) : Crew := moves.foldl move c

@[simp] theorem run_nil (c : Crew) : c.run [] = c := rfl

@[simp] theorem run_cons (c : Crew) (m : Move) (moves : List Move) :
    c.run (m :: moves) = (c.move m).run moves := rfl

/-- A list of moves may be run in two parts. -/
theorem run_append (c : Crew) (moves moves' : List Move) :
    c.run (moves ++ moves') = (c.run moves).run moves' :=
  List.foldl_append

@[simp] theorem bus_engage (c : Crew) (id : Nat) (d : Option Dispatch) :
    (c.engage id d).bus = c.bus := rfl

@[simp] theorem work_engage_self (c : Crew) (id : Nat) (d : Option Dispatch) :
    (c.engage id d).work id = d :=
  if_pos rfl

/-- What one worker is at concerns no other one. -/
theorem work_engage_of_ne (c : Crew) {id other : Nat} (h : other ≠ id) (d : Option Dispatch) :
    (c.engage id d).work other = c.work other := if_neg h

end Crew

end ClusterMap
