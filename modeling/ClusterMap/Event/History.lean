import ClusterMap.Event.Bus

/-!
# Histories of a bus

What may happen to a bus, one step at a time and in any order: registrations come and go, events are
published, and registrations take events from their mailboxes. At the bus of a client all but the
publishing is the client's own doing (`Chore`). Main statement: `run_append`.
-/

namespace ClusterMap.Bus

/-- What may happen to a bus. -/
inductive Step where
  | register (map : String) (listener : Listener) (includeValue : Bool)
  | unregister (id : Nat)
  | shutdown
  | publish (events : List EntryEvent)
  | deliver (batch : Batch)
  /-- A registration takes its next event. -/
  | deliverNext (id : Nat)

/-- The bus after a step. -/
def step (b : Bus) : Step → Bus
  | .register map listener includeValue => (b.register map listener includeValue).2
  | .unregister id => (b.unregister id).2
  | .shutdown => b.shutdown
  | .publish events => b.publish events
  | .deliver batch => b.deliver batch
  | .deliverNext id => b.deliverNext id

/-- The bus after a list of steps. -/
def run (b : Bus) (steps : List Step) : Bus := steps.foldl step b

@[simp] theorem run_nil (b : Bus) : b.run [] = b := rfl

@[simp] theorem run_cons (b : Bus) (s : Step) (steps : List Step) :
    b.run (s :: steps) = (b.step s).run steps := rfl

/-- A list of steps may be run in two parts. -/
theorem run_append (b : Bus) (steps steps' : List Step) :
    b.run (steps ++ steps') = (b.run steps).run steps' := List.foldl_append

/-- What goes on at the bus of a client by itself, while the cluster does the publishing. -/
inductive Chore where
  | register (map : String) (listener : Listener) (includeValue : Bool)
  | unregister (id : Nat)
  | shutdown
  /-- A registration takes its next event. -/
  | deliverNext (id : Nat)

/-- A chore as a step. -/
def Chore.step : Chore → Step
  | register map listener includeValue => .register map listener includeValue
  | unregister id => .unregister id
  | shutdown => .shutdown
  | deliverNext id => .deliverNext id

end ClusterMap.Bus
