import ClusterMap.Cluster.Grid

/-!
# Histories of a cluster

What may happen to a cluster and its subscribers, one turn at a time and in any order: entries
change, clients come, a partition takes a batch from its queue and passes it to one subscriber after
the other, and subscribers do what is theirs to do. Partitions work side by side, so two of them may
reach their subscribers in different orders. Main statements: `run_append`; `grid_run_take`, handing
out a batch in one go is one such history.
-/

namespace ClusterMap

/-- A cluster and its subscribers while every partition works on at most one batch. -/
structure Relay (σ : Type) where
  grid : Grid σ
  /-- For each partition, the numbers of the subscribers that are still to get the batch it took, in
  turn, each with the batch. -/
  carried : Nat → List (Nat × Batch)

namespace Relay

/-- What may happen to a cluster and its subscribers, of which each may do what `τ` lists. -/
inductive Turn (τ : Type) where
  | mutate (map : String) (key : Key) (value : Option Bytes) (action : Action)
  | clear (map : String)
  | setReachable (reachable : Bool)
  /-- A new subscriber comes, of which nothing is known yet. -/
  | connect
  /-- A partition takes the oldest batch from its queue for all who are subscribed at that
  moment. -/
  | take (partition : Nat)
  /-- A partition passes the batch it took to the next subscriber. -/
  | pass (partition : Nat)
  /-- A subscriber does something on its own. -/
  | act (subscriber : Nat) (step : τ)

variable {σ τ : Type}

/-- An empty cluster with so many partitions and nobody subscribed. -/
def start (count : Nat) : Relay σ := ⟨⟨.ofPartitions count, []⟩, fun _ => []⟩

/-- Puts another cluster in place. -/
def withCluster (r : Relay σ) (cluster : Cluster) : Relay σ :=
  { r with grid := { r.grid with cluster } }

/-- The batches in the queue of a partition, oldest first. -/
def queue (r : Relay σ) (partition : Nat) : List Batch :=
  (r.grid.cluster.queues[partition]?).getD []

/-- A partition that carries nothing takes the oldest batch from its queue. -/
def take (r : Relay σ) (partition : Nat) : Relay σ :=
  match r.carried partition, r.queue partition with
  | [], batch :: rest =>
    ⟨⟨{ r.grid.cluster with queues := r.grid.cluster.queues.set partition rest },
      r.grid.subscribers⟩,
      fun p =>
        if p = partition then (List.range r.grid.subscribers.length).map fun i => (i, batch)
        else r.carried p⟩
  | _, _ => r

/-- A partition passes what it carries to the next subscriber. -/
def pass [Subscriber σ] (r : Relay σ) (partition : Nat) : Relay σ :=
  match r.carried partition with
  | (i, batch) :: rest =>
    ⟨r.grid.modifySubscriber i fun s => Subscriber.receive s batch, fun p =>
      if p = partition then rest else r.carried p⟩
  | [] => r

/-- What is left behind by a turn, given what the subscribers' steps do to them. A change that fails
leaves everything as it was. -/
def turn [Subscriber σ] [Inhabited σ] (act : σ → τ → σ) (r : Relay σ) : Turn τ → Relay σ
  | .mutate map key value action =>
    match r.grid.cluster.mutate map key value action with
    | .ok (_, cluster) => r.withCluster cluster
    | .error _ => r
  | .clear map =>
    match r.grid.cluster.clear map with
    | .ok cluster => r.withCluster cluster
    | .error _ => r
  | .setReachable reachable => r.withCluster (r.grid.cluster.setReachable reachable)
  | .connect => { r with grid := r.grid.subscribe default }
  | .take partition => r.take partition
  | .pass partition => r.pass partition
  | .act subscriber step =>
    { r with grid := r.grid.modifySubscriber subscriber fun s => act s step }

/-- What is left behind by a list of turns. -/
def run [Subscriber σ] [Inhabited σ] (act : σ → τ → σ) (r : Relay σ) (turns : List (Turn τ)) :
    Relay σ :=
  turns.foldl (turn act) r

/-- Nothing waits in a queue, and no partition carries a batch. -/
def Idle (r : Relay σ) : Prop := ∀ partition, r.queue partition = [] ∧ r.carried partition = []

/-! ## Runs -/

/-- Changing the first `n` members of a list one after the other changes those and leaves the
others. -/
theorem getElem?_foldl_modify (f : σ → σ) (l : List σ) (n j : Nat) :
    ((List.range n).foldl (fun l i => l.modify i f) l)[j]? =
      (l[j]?).map fun s => if j < n then f s else s := by
  induction n with
  | zero => simp
  | succ n ih =>
    rw [List.range_succ, List.foldl_append, List.foldl_cons, List.foldl_nil,
      List.getElem?_modify, ih, Option.map_eq_map, Option.map_map]
    refine Option.map_congr fun s _ => ?_
    by_cases hj : n = j
    · subst hj
      simp
    · have hiff : j < n + 1 ↔ j < n := by omega
      simp [hj, hiff]

/-- Changing every member of a list by its place, one after the other, changes them all. -/
theorem foldl_modify_range (f : σ → σ) (l : List σ) :
    (List.range l.length).foldl (fun l i => l.modify i f) l = l.map f := by
  refine List.ext_getElem? fun j => ?_
  rw [getElem?_foldl_modify, List.getElem?_map]
  refine Option.map_congr fun s hs => ?_
  rw [if_pos (List.getElem?_eq_some_iff.1 hs).1]

section Run

variable [Subscriber σ] [Inhabited σ] (act : σ → τ → σ)

@[simp] theorem run_nil (r : Relay σ) : r.run act [] = r := rfl

@[simp] theorem run_cons (r : Relay σ) (t : Turn τ) (turns : List (Turn τ)) :
    r.run act (t :: turns) = (r.turn act t).run act turns := rfl

/-- A list of turns may be run in two parts. -/
theorem run_append (r : Relay σ) (turns turns' : List (Turn τ)) :
    r.run act (turns ++ turns') = (r.run act turns).run act turns' := List.foldl_append

/-! ## Handing out in one go -/

/-- A partition that keeps passing serves everyone it carries its batch for. -/
theorem grid_run_pass (r : Relay σ) (partition : Nat) {owed : List (Nat × Batch)}
    (h : r.carried partition = owed) :
    (r.run act (List.replicate owed.length (.pass partition))).grid =
      owed.foldl (fun g e => g.modifySubscriber e.1 fun s => Subscriber.receive s e.2) r.grid := by
  induction owed generalizing r with
  | nil => rfl
  | cons e owed ih =>
    obtain ⟨i, batch⟩ := e
    have hturn : r.turn act (.pass partition) =
        ⟨r.grid.modifySubscriber i fun s => Subscriber.receive s batch, fun p =>
          if p = partition then owed else r.carried p⟩ := by
      simp only [turn, pass, h]
    rw [List.length_cons, List.replicate_succ, run_cons, hturn, ih _ (by simp), List.foldl_cons]

/-- Handing out a batch in one go is what a partition does that is not interrupted. -/
theorem grid_run_take (r : Relay σ) (partition : Nat) (h : r.carried partition = []) :
    (r.run act (.take partition :: List.replicate r.grid.subscribers.length
      (.pass partition))).grid =
      r.grid.handOut partition := by
  rw [run_cons]
  cases hq : r.queue partition with
  | nil =>
    have hturn : r.turn act (.take partition) = r := by simp only [turn, take, h, hq]
    have hidle : ∀ n, r.run act (List.replicate n (.pass partition)) = r := fun n => by
      induction n with
      | zero => rfl
      | succ n ih => rw [List.replicate_succ, run_cons]; simpa only [turn, pass, h] using ih
    have hwaiting : r.grid.waiting partition = 0 := by
      unfold queue at hq
      unfold Grid.waiting
      cases hsome : r.grid.cluster.queues[partition]? with
      | none => rfl
      | some batches => simp_all
    rw [hturn, hidle, Grid.handOut_of_empty hwaiting]
  | cons batch rest =>
    have hsome : r.grid.cluster.queues[partition]? = some (batch :: rest) := by
      unfold queue at hq
      cases hsome : r.grid.cluster.queues[partition]? with
      | none => simp [hsome] at hq
      | some batches => simpa [hsome] using hq
    have hturn : r.turn act (.take partition) =
        ⟨⟨{ r.grid.cluster with queues := r.grid.cluster.queues.set partition rest },
          r.grid.subscribers⟩,
          fun p =>
            if p = partition then (List.range r.grid.subscribers.length).map fun i => (i, batch)
            else r.carried p⟩ := by
      simp only [turn, take, h, hq]
    have hfold : ∀ (l : List Nat) (g : Grid σ),
        (l.map fun i => (i, batch)).foldl
            (fun g e => g.modifySubscriber e.1 fun s => Subscriber.receive s e.2) g =
          { g with subscribers :=
              l.foldl (fun l i => l.modify i fun s => Subscriber.receive s batch) g.subscribers } :=
      fun l => by
        induction l with
        | nil => exact fun g => rfl
        | cons i l ih => intro g; rw [List.map_cons, List.foldl_cons, ih]; rfl
    have hcarried : (r.turn act (.take partition)).carried partition =
        (List.range r.grid.subscribers.length).map fun i => (i, batch) := by
      rw [hturn]
      exact if_pos rfl
    have hpass := grid_run_pass act (r.turn act (.take partition)) partition hcarried
    rw [List.length_map, List.length_range] at hpass
    rw [hpass, hturn, hfold, foldl_modify_range, Grid.handOut, hsome]

end Run

end Relay

end ClusterMap
