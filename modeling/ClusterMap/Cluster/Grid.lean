import ClusterMap.Cluster.Basic
import ClusterMap.Event.Bus

/-!
# Handing out notifications

A cluster together with those who subscribed to its notifications. The queues of the partitions are
emptied in any order, one batch at a time, and every batch goes to all who are subscribed at that
moment. Main statement: `handOut_of_empty`.
-/

namespace ClusterMap

/-- What may be subscribed to the notifications of a cluster. -/
class Subscriber (σ : Type) where
  /-- Takes the notifications of one change. -/
  receive : σ → Batch → σ

/-- A bus passes notifications on to its registrations. -/
instance : Subscriber Bus := ⟨Bus.deliver⟩

/-- A record of batches, oldest first. -/
instance : Subscriber (List Batch) := ⟨fun batches batch => batches ++ [batch]⟩

/-- A cluster and its subscribers, in the order in which they came. -/
structure Grid (σ : Type) where
  cluster : Cluster
  subscribers : List σ := []

namespace Grid

variable {σ : Type}

/-- Adds a subscriber. -/
def subscribe (g : Grid σ) (subscriber : σ) : Grid σ :=
  { g with subscribers := g.subscribers ++ [subscriber] }

/-- Hands the oldest batch of a partition to every subscriber. -/
def handOut [Subscriber σ] (g : Grid σ) (partition : Nat) : Grid σ :=
  match g.cluster.queues[partition]? with
  | some (batch :: rest) =>
    ⟨{ g.cluster with queues := g.cluster.queues.set partition rest },
      g.subscribers.map fun s => Subscriber.receive s batch⟩
  | _ => g

/-- The number of batches that wait in a partition. -/
def waiting (g : Grid σ) (partition : Nat) : Nat :=
  match g.cluster.queues[partition]? with
  | some batches => batches.length
  | none => 0

/-- Hands out every batch of a partition. -/
def drainPartition [Subscriber σ] (g : Grid σ) (partition : Nat) : Grid σ :=
  Nat.repeat (fun g => g.handOut partition) (g.waiting partition) g

/-- Hands out every batch, one partition after the other. -/
def drain [Subscriber σ] (g : Grid σ) : Grid σ :=
  (List.range g.cluster.partitionCount).foldl drainPartition g

/-- A partition with an empty queue hands nothing out. -/
theorem handOut_of_empty [Subscriber σ] {g : Grid σ} {partition : Nat}
    (h : g.waiting partition = 0) : g.handOut partition = g := by
  unfold waiting at h
  unfold handOut
  split
  · next batch rest hq => simp [hq] at h
  · rfl

/-- Changes one subscriber. -/
def modifySubscriber (g : Grid σ) (i : Nat) (f : σ → σ) : Grid σ :=
  { g with subscribers := g.subscribers.modify i f }

end Grid

end ClusterMap
