import ClusterMap.Cluster.Basic
import ClusterMap.Key.Codec

/-!
# Map handles

The operations of a client on one map. Keys are brought into canonical form, values are written as
bytes and criteria are compiled before the cluster is asked; bytes that come back are decoded last.
So of several faults the key is reported first, then the value or the criteria, then the cluster
that cannot be reached, and last bytes that are no value. Putting and removing answer with the value
held before: if its bytes cannot be decoded they fail although the change was made.
-/

namespace ClusterMap

/-- A map by its name, and how keys for it are brought into canonical form. -/
structure MapHandle (κ : Type) where
  name : String
  codec : KeyCodec κ

namespace MapHandle

variable {κ : Type} [CustomKey κ]

/-- The canonical form of a key. -/
def key (h : MapHandle κ) (k : KeyInput κ) : Except Error Key :=
  match h.codec.canonicalize k with
  | .ok key => .ok key
  | .error e => .error (.unsupportedKeyType e.message)

/-- The bytes of a value. -/
def encode (v : Value) : Except Error Bytes :=
  match v.encode with
  | .ok b => .ok b
  | .error e => .error (.serialization e.message)

/-- The value of bytes. -/
def decode (b : Bytes) : Except Error Value :=
  match Value.decode b with
  | .ok v => .ok v
  | .error e => .error (.serialization e.message)

/-- The value of bytes that may be missing. -/
def decodeOptional : Option Bytes → Except Error (Option Value)
  | none => .ok none
  | some b => (decode b).map some

/-- The predicate of criteria. -/
def compile (criteria : Criteria) : Except Error Predicate :=
  match criteria.compile with
  | .ok p => .ok p
  | .error e => .error (.predicateSyntax e)

/-! ## Entries -/

/-- The value under a key. -/
def get (h : MapHandle κ) (c : Cluster) (k : KeyInput κ) : Except Error (Option Value) := do
  let key ← h.key k
  let bytes ← c.get h.name key
  decodeOptional bytes

/-- The answer to a change whose arguments were accepted or not, and the cluster behind it. -/
def answer {α : Type} (c : Cluster) (read : Ack → Except Error α) :
    Except Error (Ack × Cluster) → Except Error α × Cluster
  | .ok (ack, c') => (read ack, c')
  | .error e => (.error e, c)

/-- Stores a value under a key; answers with the value held before. -/
def put (h : MapHandle κ) (c : Cluster) (k : KeyInput κ) (v : Value) :
    Except Error (Option Value) × Cluster :=
  answer c (fun ack => decodeOptional ack.previous) do
    let key ← h.key k
    let bytes ← encode v
    c.mutate h.name key (some bytes) .put

/-- Drops the entry under a key; answers with the value it held. -/
def remove (h : MapHandle κ) (c : Cluster) (k : KeyInput κ) :
    Except Error (Option Value) × Cluster :=
  answer c (fun ack => decodeOptional ack.previous) do
    let key ← h.key k
    c.mutate h.name key none .remove

/-- Drops the entry under a key as if there were no room for it; answers whether there was one. -/
def evict (h : MapHandle κ) (c : Cluster) (k : KeyInput κ) : Except Error Bool × Cluster :=
  answer c (fun ack => .ok ack.applied) do
    let key ← h.key k
    c.mutate h.name key none .evict

/-- Drops every entry, without a report to listeners. -/
def clear (h : MapHandle κ) (c : Cluster) : Except Error Unit × Cluster :=
  match c.clear h.name with
  | .ok c' => (.ok (), c')
  | .error e => (.error e, c)

/-- Whether there is an entry under a key. -/
def contains (h : MapHandle κ) (c : Cluster) (k : KeyInput κ) : Except Error Bool := do
  let key ← h.key k
  let bytes ← c.get h.name key
  .ok bytes.isSome

/-- The number of entries. -/
def size (h : MapHandle κ) (c : Cluster) : Except Error Nat := c.size h.name

/-- Whether there are no entries. -/
def isEmpty (h : MapHandle κ) (c : Cluster) : Except Error Bool := do
  let n ← h.size c
  .ok (n == 0)

/-! ## Queries -/

/-- Decodes the values of entries, in their order. -/
def decodeEntries : List (Key × Bytes) → Except Error (List (Key × Value))
  | [] => .ok []
  | (key, b) :: rest => do
    let v ← decode b
    let entries ← decodeEntries rest
    .ok ((key, v) :: entries)

/-- The entries that meet a predicate, in ascending order of their keys. -/
def queryCompiled (h : MapHandle κ) (c : Cluster) (p : Predicate) :
    Except Error (List (Key × Value)) := do
  let entries ← c.query h.name p
  decodeEntries entries

/-- The entries that meet criteria, in ascending order of their keys. -/
def query (h : MapHandle κ) (c : Cluster) (criteria : Criteria) :
    Except Error (List (Key × Value)) := do
  let p ← compile criteria
  h.queryCompiled c p

/-- The keys of the entries that meet criteria. -/
def keys (h : MapHandle κ) (c : Cluster) (criteria : Criteria) : Except Error (List Key) := do
  let entries ← h.query c criteria
  .ok (entries.map Prod.fst)

/-- The values of the entries that meet criteria. -/
def values (h : MapHandle κ) (c : Cluster) (criteria : Criteria) : Except Error (List Value) := do
  let entries ← h.query c criteria
  .ok (entries.map Prod.snd)

omit [CustomKey κ] in
/-- The text that shows a handle in a log. -/
def debugText (h : MapHandle κ) : String :=
  "MapHandle \x7b name: " ++ Text.quoted h.name ++ " \x7d"

end MapHandle

/-! ## Operations as data -/

/-- An operation on a map. -/
inductive Operation (κ : Type) where
  | get (key : KeyInput κ)
  | put (key : KeyInput κ) (value : Value)
  | remove (key : KeyInput κ)
  | evict (key : KeyInput κ)
  | clear
  | contains (key : KeyInput κ)
  | size
  | isEmpty
  | query (criteria : Criteria)
  | queryCompiled (predicate : Predicate)
  | keys (criteria : Criteria)
  | values (criteria : Criteria)

/-- What an operation answers. -/
inductive Answer where
  | done
  | value (v : Option Value)
  | flag (b : Bool)
  | count (n : Nat)
  | entries (l : List (Key × Value))
  | keys (l : List Key)
  | values (l : List Value)
  deriving DecidableEq

/-- Performs an operation on a map: its answer or its failure, and the cluster behind it. -/
def Operation.perform {κ : Type} [CustomKey κ] (h : MapHandle κ) (c : Cluster) :
    Operation κ → Except Error Answer × Cluster
  | get k => ((h.get c k).map .value, c)
  | put k v => (h.put c k v).map (·.map .value) id
  | remove k => (h.remove c k).map (·.map .value) id
  | evict k => (h.evict c k).map (·.map .flag) id
  | clear => (h.clear c).map (·.map fun _ => .done) id
  | contains k => ((h.contains c k).map .flag, c)
  | size => ((h.size c).map .count, c)
  | isEmpty => ((h.isEmpty c).map .flag, c)
  | query criteria => ((h.query c criteria).map .entries, c)
  | queryCompiled p => ((h.queryCompiled c p).map .entries, c)
  | keys criteria => ((h.keys c criteria).map .keys, c)
  | values criteria => ((h.values c criteria).map .values, c)

end ClusterMap
