import ClusterMap.Cluster.Routing
import ClusterMap.Cluster.Store
import ClusterMap.Cluster.Sweep
import ClusterMap.Config
import ClusterMap.Query.Predicate

/-!
# The cluster

Holds the entries of every map and, for each partition, a queue with the batches of notifications
that were not handed out yet. A change of an entry and its batch happen together, so a partition
reports the changes of an entry in their order; dropping all entries of a map is not reported. While
the cluster cannot be reached every operation fails. Main statement:
`mutate_eq_error_of_unreachable`.
-/

namespace ClusterMap

/-- What may be done to an entry. -/
inductive Action where
  | put
  | remove
  | evict
  deriving DecidableEq, Repr

/-- The name of an action in messages. -/
def Action.text : Action → String
  | put => "put"
  | remove => "remove"
  | evict => "evict"

/-- The answer to a change: the bytes held before, and whether there was anything to act on. -/
structure Ack where
  previous : Option Bytes
  applied : Bool
  deriving DecidableEq, Repr

/-- The entries, and what is still to be reported about them. -/
structure Cluster where
  store : Store
  /-- For each partition, the batches that were not handed out yet, oldest first. -/
  queues : List (List Batch)
  reachable : Bool
  deriving DecidableEq

namespace Cluster

/-- An empty cluster with so many partitions. -/
def ofPartitions (count : Nat) : Cluster := ⟨.empty, List.replicate count [], true⟩

/-- An empty cluster with the partitions of a configuration that can be run with. -/
def start (config : Config) : Except Error Cluster :=
  match config.validate with
  | .ok () => .ok (ofPartitions config.partitionCount)
  | .error e => .error e

/-- The number of partitions. -/
def partitionCount (c : Cluster) : Nat := c.queues.length

/-- The partition that holds the entry under a key of a map. -/
def partitionFor (c : Cluster) (map : String) (key : Key) : Nat :=
  partitionOf c.partitionCount map key

/-- Makes the cluster reachable or not. -/
def setReachable (c : Cluster) (reachable : Bool) : Cluster := { c with reachable }

/-- The failure of an operation on a map while the cluster cannot be reached. -/
def unreachable (operation map : String) : Error :=
  .transportUnavailable ("cluster unreachable during " ++ operation ++ " on map '" ++ map ++ "'")

/-- Fails while the cluster cannot be reached. -/
def ensureReachable (c : Cluster) (operation map : String) : Except Error Unit :=
  if c.reachable then .ok () else .error (unreachable operation map)

/-! ## Changes -/

/-- Queues the report about a change of an entry in its partition. -/
def enqueue (c : Cluster) (map : String) (key : Key) (m : Mutation) : Cluster :=
  { c with queues := c.queues.modify (c.partitionFor map key) (· ++ [m.sweep map key]) }

/-- Stores bytes under a key and queues the report. -/
def put (c : Cluster) (map : String) (key : Key) (value : Bytes) : Ack × Cluster :=
  let (previous, store) := c.store.put map key value
  let mutation := if previous.isSome then Mutation.overwritten value else .inserted value
  (⟨previous, true⟩, { c with store }.enqueue map key mutation)

/-- Drops the entry under a key, if there is one, and queues the report that depends on its
bytes. -/
def drop (c : Cluster) (map : String) (key : Key) (report : Bytes → Mutation) : Ack × Cluster :=
  match c.store.remove map key with
  | (some previous, store) =>
    (⟨some previous, true⟩, { c with store }.enqueue map key (report previous))
  | (none, _) => (⟨none, false⟩, c)

/-- Changes the entry under a key; only a put needs bytes. -/
def mutate (c : Cluster) (map : String) (key : Key) (value : Option Bytes) (action : Action) :
    Except Error (Ack × Cluster) := do
  c.ensureReachable action.text map
  match action, value with
  | .put, some value => .ok (c.put map key value)
  | .put, none => .error (.serialization "put requires a value")
  | .remove, _ => .ok (c.drop map key .removed)
  | .evict, _ => .ok (c.drop map key fun _ => .evicted)

/-- Drops every entry of a map without a report. -/
def clear (c : Cluster) (map : String) : Except Error Cluster := do
  c.ensureReachable "clear" map
  .ok { c with store := (c.store.clear map).2 }

/-! ## Look-ups -/

/-- The bytes under a key of a map. -/
def get (c : Cluster) (map : String) (key : Key) : Except Error (Option Bytes) := do
  c.ensureReachable "get" map
  .ok (c.store.get map key)

/-- The number of entries of a map. -/
def size (c : Cluster) (map : String) : Except Error Nat := do
  c.ensureReachable "size" map
  .ok (c.store.size map)

/-- The entries whose values meet a predicate, in their order. Every value is decoded, and the first
that cannot be is the failure, whether it would be asked for or not. -/
def select (p : Predicate) : List (Key × Bytes) → Except Error (List (Key × Bytes))
  | [] => .ok []
  | (key, bytes) :: rest =>
    match Value.decode bytes with
    | .error e => .error (.serialization e.message)
    | .ok v =>
      match select p rest with
      | .error e => .error e
      | .ok matched => .ok (if p.holds v then (key, bytes) :: matched else matched)

/-- The entries of a map whose values meet a predicate, in ascending order of their keys. -/
def query (c : Cluster) (map : String) (p : Predicate) : Except Error (List (Key × Bytes)) := do
  c.ensureReachable "query" map
  select p (c.store.entries map)

/-- The names of the maps that ever held an entry, in ascending order. -/
def mapNames (c : Cluster) : List String := c.store.mapNames

/-! ## Whether the cluster can be reached -/

/-- A cluster that can be reached is let through. -/
theorem ensureReachable_of_reachable {c : Cluster} (h : c.reachable = true)
    (operation map : String) :
    c.ensureReachable operation map = .ok () := by
  rw [ensureReachable, h]
  rfl

/-- A cluster that can be reached answers with the bytes that it holds. -/
theorem get_of_reachable {c : Cluster} (h : c.reachable = true) (map : String) (key : Key) :
    c.get map key = .ok (c.store.get map key) := by
  rw [get, ensureReachable_of_reachable h]
  rfl

/-- A cluster that can be reached answers with the number of its entries. -/
theorem size_of_reachable {c : Cluster} (h : c.reachable = true) (map : String) :
    c.size map = .ok (c.store.size map) := by
  rw [size, ensureReachable_of_reachable h]
  rfl

/-- A cluster that can be reached answers with the entries that meet the predicate. -/
theorem query_of_reachable {c : Cluster} (h : c.reachable = true) (map : String) (p : Predicate) :
    c.query map p = select p (c.store.entries map) := by
  rw [query, ensureReachable_of_reachable h]
  rfl

/-- A call to a cluster that can be reached is answered by the action. -/
theorem mutate_of_reachable {c : Cluster} (h : c.reachable = true) (map : String) (key : Key)
    (value : Option Bytes) (action : Action) :
    c.mutate map key value action =
      match action, value with
      | .put, some value => .ok (c.put map key value)
      | .put, none => .error (.serialization "put requires a value")
      | .remove, _ => .ok (c.drop map key .removed)
      | .evict, _ => .ok (c.drop map key fun _ => .evicted) := by
  unfold mutate
  rw [ensureReachable_of_reachable h]
  rfl

/-- Clearing a map drops its entries and does nothing else. -/
theorem clear_of_reachable {c : Cluster} (h : c.reachable = true) (map : String) :
    c.clear map = .ok { c with store := (c.store.clear map).2 } := by
  rw [clear, ensureReachable_of_reachable h]
  rfl

/-- A cluster that cannot be reached is reported with the operation and the map. -/
theorem ensureReachable_of_unreachable {c : Cluster} (h : c.reachable = false)
    (operation map : String) :
    c.ensureReachable operation map = .error (unreachable operation map) := by
  rw [ensureReachable, h]
  rfl

/-- No entry of a cluster that cannot be reached is changed. -/
theorem mutate_eq_error_of_unreachable {c : Cluster} (h : c.reachable = false) (map : String)
    (key : Key) (value : Option Bytes) (action : Action) :
    c.mutate map key value action = .error (unreachable action.text map) := by
  unfold mutate
  rw [ensureReachable_of_unreachable h]
  rfl

/-- No map of a cluster that cannot be reached is cleared. -/
theorem clear_eq_error_of_unreachable {c : Cluster} (h : c.reachable = false) (map : String) :
    c.clear map = .error (unreachable "clear" map) := by
  rw [clear, ensureReachable_of_unreachable h]
  rfl

/-- No entry of a cluster that cannot be reached is found. -/
theorem get_eq_error_of_unreachable {c : Cluster} (h : c.reachable = false) (map : String)
    (key : Key) :
    c.get map key = .error (unreachable "get" map) := by
  rw [get, ensureReachable_of_unreachable h]
  rfl

/-- No map of a cluster that cannot be reached is counted. -/
theorem size_eq_error_of_unreachable {c : Cluster} (h : c.reachable = false) (map : String) :
    c.size map = .error (unreachable "size" map) := by
  rw [size, ensureReachable_of_unreachable h]
  rfl

/-- No entries of a cluster that cannot be reached are selected. -/
theorem query_eq_error_of_unreachable {c : Cluster} (h : c.reachable = false) (map : String)
    (p : Predicate) :
    c.query map p = .error (unreachable "query" map) := by
  rw [query, ensureReachable_of_unreachable h]
  rfl

end Cluster

end ClusterMap
