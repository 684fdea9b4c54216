import ClusterMap.Cluster.History
import ClusterMap.Proofs.Client.Session

/-!
# Failures

Which fault a failed operation reports, and what it leaves behind. An operation looks for faults in
its key, then in its value or its criteria, then at the cluster that it needs, and last in the bytes
that it reads as values. It changes nothing before it has passed the first three. Putting and
removing read the bytes that they displaced, so they alone can fail after a change, and the change
is then made and reported like any other. Main statements: `failure?_perform`, the fault that is
reported; `Replaces.perform`, what displacing bytes does whether they can be read or not;
`perform_of_failure`, all other failures leave the cluster as it was; `failure_changes_nothing`.
-/

namespace ClusterMap

/-! ## Bytes that are no values -/

/-- Why the first bytes of a list that are no value cannot be read. -/
def readingFault? (l : List Bytes) : Option Error :=
  l.findSome? fun b => failure? (MapHandle.decode b)

@[simp] theorem readingFault?_nil : readingFault? [] = none := rfl

/-- The first fault of a list is that of its head, if it has one. -/
theorem readingFault?_cons (b : Bytes) (l : List Bytes) :
    readingFault? (b :: l) = (failure? (MapHandle.decode b)).or (readingFault? l) := by
  rw [readingFault?, List.findSome?_cons]
  cases failure? (MapHandle.decode b) <;> rfl

/-- Decoding what is held, if anything is, fails with its fault. -/
theorem failure?_decodeOptional (bytes : Option Bytes) :
    failure? (MapHandle.decodeOptional bytes) = readingFault? bytes.toList := by
  cases bytes with
  | none => rfl
  | some b =>
    rw [MapHandle.decodeOptional, failure?_map, Option.toList_some, readingFault?_cons,
      readingFault?_nil, Option.or_none]

/-- Selecting reads every value, those that are not selected too. -/
theorem failure?_select (p : Predicate) (l : List (Key × Bytes)) :
    failure? (Cluster.select p l) = readingFault? (l.map Prod.snd) := by
  induction l with
  | nil => rfl
  | cons e l ih =>
    rw [List.map_cons, readingFault?_cons, MapHandle.decode, Cluster.select]
    cases Value.decode e.2 with
    | error fault => rfl
    | ok v =>
      rw [← ih]
      cases Cluster.select p l <;> rfl

/-- Entries are selected in their order. -/
theorem sublist_of_select {p : Predicate} {l matched : List (Key × Bytes)}
    (h : Cluster.select p l = .ok matched) :
    matched.Sublist l := by
  induction l generalizing matched with
  | nil =>
    cases h
    exact List.Sublist.refl []
  | cons e l ih =>
    unfold Cluster.select at h
    split at h
    · contradiction
    · split at h
      · contradiction
      · next rest hrest =>
        have hsub := ih hrest
        cases h
        split
        · exact hsub.cons_cons e
        · exact hsub.cons e

/-- Decoding entries fails with the first fault among their bytes. -/
theorem failure?_decodeEntries (l : List (Key × Bytes)) :
    failure? (MapHandle.decodeEntries l) = readingFault? (l.map Prod.snd) := by
  induction l with
  | nil => rfl
  | cons e l ih =>
    rw [List.map_cons, readingFault?_cons, MapHandle.decodeEntries]
    cases MapHandle.decode e.2 with
    | error fault => rfl
    | ok v => exact (failure?_bind_ok _ _).trans ih

/-- What was selected can be read. -/
theorem failure?_decodeEntries_of_select {p : Predicate} {l matched : List (Key × Bytes)}
    (h : Cluster.select p l = .ok matched) : failure? (MapHandle.decodeEntries matched) = none := by
  have hnone : readingFault? (l.map Prod.snd) = none := by
    rw [← failure?_select p, h]
    rfl
  rw [failure?_decodeEntries, readingFault?, List.findSome?_eq_none_iff]
  rw [readingFault?, List.findSome?_eq_none_iff] at hnone
  have hsub : (matched.map Prod.snd).Sublist (l.map Prod.snd) := (sublist_of_select h).map Prod.snd
  exact fun b hb => hnone b (hsub.subset hb)

/-! ## Calls of the cluster -/

namespace Cluster

/-- The failure of an operation on a map, if the cluster cannot be reached. -/
def outage? (c : Cluster) (operation map : String) : Option Error :=
  if c.reachable then none else some (unreachable operation map)

/-- A cluster that can be reached is not out. -/
theorem outage?_of_reachable {c : Cluster} (h : c.reachable = true) (operation map : String) :
    c.outage? operation map = none := if_pos h

/-- A cluster that cannot be reached is out, for every operation on every map. -/
theorem outage?_of_unreachable {c : Cluster} (h : c.reachable = false) (operation map : String) :
    c.outage? operation map = some (unreachable operation map) := by
  rw [outage?, h]
  rfl

/-- A call of a cluster. -/
inductive Call where
  | mutate (map : String) (key : Key) (value : Option Bytes) (action : Action)
  | clear (map : String)
  | get (map : String) (key : Key)
  | size (map : String)
  | query (map : String) (predicate : Predicate)

/-- What a cluster replies to a call. -/
inductive Reply where
  | ack (a : Ack)
  | done
  | bytes (b : Option Bytes)
  | count (n : Nat)
  | entries (l : List (Key × Bytes))

namespace Call

/-- What a call does, as messages name it. -/
def verb : Call → String
  | mutate _ _ _ action => action.text
  | clear _ => "clear"
  | get _ _ => "get"
  | size _ => "size"
  | query _ _ => "query"

/-- The map that a call is about. -/
def map : Call → String
  | mutate map _ _ _ | clear map | get map _ | size map | query map _ => map

/-- What is wrong with a call of a cluster that can be reached. -/
def refusal? (store : Store) : Call → Option Error
  | mutate _ _ none .put => some (.serialization "put requires a value")
  | query map _ => readingFault? ((store.entries map).map Prod.snd)
  | _ => none

/-- The fault that is reported: that of a cluster that cannot be reached before what is wrong with
the call. -/
def fault? (c : Cluster) (call : Call) : Option Error :=
  (c.outage? call.verb call.map).or (call.refusal? c.store)

end Call

/-- Answers a call: the reply or the failure, and the cluster behind it. -/
def respond (c : Cluster) : Call → Except Error Reply × Cluster
  | .mutate map key value action =>
    match c.mutate map key value action with
    | .ok (ack, c') => (.ok (.ack ack), c')
    | .error e => (.error e, c)
  | .clear map =>
    match c.clear map with
    | .ok c' => (.ok .done, c')
    | .error e => (.error e, c)
  | .get map key => ((c.get map key).map .bytes, c)
  | .size map => ((c.size map).map .count, c)
  | .query map p => ((c.query map p).map .entries, c)

/-- What needs the cluster fails if that cannot be reached, or else for its own reasons. -/
theorem failure?_ensureReachable {α : Type} (c : Cluster) (operation map : String)
    (x : Except Error α) :
    failure? (c.ensureReachable operation map >>= fun _ => x) =
      (c.outage? operation map).or (failure? x) := by
  rw [ensureReachable, outage?]
  split <;> rfl

/-- A call fails for the first of its faults, and only for a fault. -/
theorem failure?_respond (c : Cluster) (call : Call) :
    failure? (c.respond call).1 = call.fault? c := by
  cases call with
  | mutate map key value action =>
    have hcall : failure? (c.respond (.mutate map key value action)).1 =
        failure? (c.mutate map key value action) := by
      rw [respond]
      cases c.mutate map key value action <;> rfl
    rw [hcall]
    unfold mutate
    rw [failure?_ensureReachable]
    cases action <;> cases value <;> rfl
  | clear map =>
    have hcall : failure? (c.respond (.clear map)).1 = failure? (c.clear map) := by
      rw [respond]
      cases c.clear map <;> rfl
    rw [hcall, clear, failure?_ensureReachable]
    rfl
  | get map key =>
    rw [respond, failure?_map, get, failure?_ensureReachable]
    rfl
  | size map =>
    rw [respond, failure?_map, size, failure?_ensureReachable]
    rfl
  | query map p =>
    rw [respond, failure?_map, query, failure?_ensureReachable, failure?_select]
    rfl

/-- A call that fails leaves the cluster as it was. -/
theorem snd_respond_of_error {c : Cluster} {call : Call} {e : Error}
    (h : (c.respond call).1 = .error e) :
    (c.respond call).2 = c := by
  cases call with
  | mutate map key value action =>
    rw [respond] at h ⊢
    cases hcall : c.mutate map key value action with
    | ok reply =>
      rw [hcall] at h
      contradiction
    | error e' => rfl
  | clear map =>
    rw [respond] at h ⊢
    cases hcall : c.clear map with
    | ok c' =>
      rw [hcall] at h
      contradiction
    | error e' => rfl
  | get map key | size map | query map p => rfl

end Cluster

/-! ## Faults of an operation -/

variable {κ : Type} [CustomKey κ]

namespace Operation

/-- The key that is given to an operation. -/
def key? : Operation κ → Option (KeyInput κ)
  | get k | put k _ | remove k | evict k | contains k => some k
  | _ => none

/-- What the cluster is asked to do, as messages name it. -/
def verb : Operation κ → String
  | get _ | contains _ => "get"
  | put _ _ => "put"
  | remove _ => "remove"
  | evict _ => "evict"
  | clear => "clear"
  | size | isEmpty => "size"
  | query _ | queryCompiled _ | keys _ | values _ => "query"

/-- The bytes that an operation reads as values, in turn. -/
def read (m : MapHandle κ) (c : Cluster) : Operation κ → List Bytes
  | get k | put k _ | remove k =>
    match m.key k with
    | .ok key => (c.store.get m.name key).toList
    | .error _ => []
  | query _ | queryCompiled _ | keys _ | values _ => (c.store.entries m.name).map Prod.snd
  | _ => []

/-- Why the key is refused. -/
def keyFault? (m : MapHandle κ) (op : Operation κ) : Option Error :=
  op.key?.bind fun k => failure? (m.key k)

/-- Why the value or the criteria are refused. -/
def argumentFault? : Operation κ → Option Error
  | put _ v => failure? (MapHandle.encode v)
  | query criteria | keys criteria | values criteria => failure? (MapHandle.compile criteria)
  | _ => none

/-- The fault that is reported: that of the key before that of the value or the criteria, these
before the cluster that cannot be reached, and this before bytes that cannot be read. -/
def fault? (m : MapHandle κ) (c : Cluster) (op : Operation κ) : Option Error :=
  (op.keyFault? m).or (op.argumentFault?.or
    ((c.outage? op.verb m.name).or (readingFault? (op.read m c))))

variable {m : MapHandle κ} {c : Cluster} {op : Operation κ}

/-- A request fails over its key first and over its argument second. -/
theorem failure?_request (m : MapHandle κ) (op : Operation κ) :
    failure? (op.request m) = (op.keyFault? m).or op.argumentFault? := by
  cases op with
  | put k v =>
    rw [request, keyFault?, key?, Option.bind_some, argumentFault?]
    cases m.key k with
    | error e => rfl
    | ok key => exact failure?_bind_ok _ _
  | get k | remove k | evict k | contains k =>
    rw [request, failure?_bind_ok]
    exact Option.or_none.symm
  | query criteria | keys criteria | values criteria =>
    rw [request, failure?_bind_ok]
    exact Option.none_or.symm
  | clear | size | isEmpty | queryCompiled p => rfl

/-- An operation that gets as far as the cluster fails if that cannot be reached, and changes
nothing. -/
theorem perform_of_unreachable {r : Request} (hr : op.request m = .ok r)
    (hc : c.reachable = false) :
    op.perform m c = (.error (Cluster.unreachable op.verb m.name), c) := by
  cases op with
  | get k | contains k =>
    obtain ⟨key, hk, -⟩ := bind_eq_ok hr
    simp only [perform, MapHandle.get, MapHandle.contains, hk, bind, Except.bind,
      Cluster.get_eq_error_of_unreachable hc]
    rfl
  | put k v =>
    obtain ⟨key, hk, hr⟩ := bind_eq_ok hr
    obtain ⟨b, hb, -⟩ := bind_eq_ok hr
    simp only [perform, MapHandle.put, hk, hb, bind, Except.bind,
      Cluster.mutate_eq_error_of_unreachable hc]
    rfl
  | remove k | evict k =>
    obtain ⟨key, hk, -⟩ := bind_eq_ok hr
    simp only [perform, MapHandle.remove, MapHandle.evict, hk, bind, Except.bind,
      Cluster.mutate_eq_error_of_unreachable hc]
    rfl
  | clear =>
    simp only [perform, MapHandle.clear, Cluster.clear_eq_error_of_unreachable hc]
    rfl
  | size | isEmpty =>
    simp only [perform, MapHandle.size, MapHandle.isEmpty, Cluster.size_eq_error_of_unreachable hc]
    rfl
  | queryCompiled p =>
    simp only [perform, MapHandle.queryCompiled, Cluster.query_eq_error_of_unreachable hc]
    rfl
  | query criteria | keys criteria | values criteria =>
    obtain ⟨p, hp, -⟩ := bind_eq_ok hr
    simp only [perform, MapHandle.query, MapHandle.keys, MapHandle.values, hp, bind, Except.bind,
      MapHandle.queryCompiled, Cluster.query_eq_error_of_unreachable hc]
    rfl

/-! ## Displacing bytes -/

/-- An operation that puts a value in the place of bytes, or nothing, at a cluster that can be
reached: the bytes, and the cluster where the change is made and all of its notifications wait. -/
inductive Replaces (m : MapHandle κ) (c : Cluster) : Operation κ → Bytes → Cluster → Prop
  | put {k : KeyInput κ} {v : Value} {key : Key} {bytes previous : Bytes}
      (key_eq : m.key k = .ok key)
    (encode_eq : MapHandle.encode v = .ok bytes) (reachable : c.reachable = true)
    (held : c.store.get m.name key = some previous) :
    Replaces m c (.put k v) previous
      ({ c with store := (c.store.put m.name key bytes).2 }.enqueue m.name key (.overwritten bytes))
  | remove {k : KeyInput κ} {key : Key} {previous : Bytes} (key_eq : m.key k = .ok key)
    (reachable : c.reachable = true) (held : c.store.get m.name key = some previous) :
    Replaces m c (.remove k) previous
      ({ c with store := (c.store.remove m.name key).2 }.enqueue m.name key (.removed previous))

/-- A put that gets through answers with what was held and puts the bytes. -/
theorem perform_put {k : KeyInput κ} {v : Value} {key : Key} {b : Bytes} (hk : m.key k = .ok key)
    (hb : MapHandle.encode v = .ok b) (hc : c.reachable = true) :
    (put k v).perform m c =
      ((MapHandle.decodeOptional (c.store.get m.name key)).map .value, (c.put m.name key b).2) := by
  simp only [perform, MapHandle.put, hk, hb, bind, Except.bind, Cluster.mutate_of_reachable hc]
  rfl

/-- A removal that gets through answers with what was held and drops the entry. -/
theorem perform_remove {k : KeyInput κ} {key : Key} (hk : m.key k = .ok key)
    (hc : c.reachable = true) :
    (remove k).perform m c =
      ((MapHandle.decodeOptional (c.store.get m.name key)).map .value,
        (c.drop m.name key .removed).2) := by
  have hprevious : (c.drop m.name key .removed).1.previous = c.store.get m.name key := by
    cases hheld : c.store.get m.name key with
    | none => rw [Cluster.drop_of_none hheld]
    | some previous => rw [Cluster.drop_of_some hheld]
  simp only [perform, MapHandle.remove, hk, bind, Except.bind, Cluster.mutate_of_reachable hc]
  rw [← hprevious]
  rfl

/-- The change is made and reported whether the bytes that it displaces can be read or not; only the
answer depends on that. -/
theorem Replaces.perform {previous : Bytes} {c' : Cluster} (h : op.Replaces m c previous c') :
    op.perform m c = ((MapHandle.decode previous).map fun v => .value (some v), c') := by
  have hanswer : (MapHandle.decodeOptional (some previous)).map Answer.value =
      (MapHandle.decode previous).map fun v => .value (some v) := by
    rw [MapHandle.decodeOptional]
    cases MapHandle.decode previous <;> rfl
  cases h with
  | put hk hb hc hheld =>
    rw [perform_put hk hb hc, hheld, hanswer, Cluster.put, Store.put, hheld]
    rfl
  | remove hk hc hheld => rw [perform_remove hk hc, hheld, hanswer, Cluster.drop_of_some hheld]

/-- Bytes that cannot be read are not put back. -/
theorem Replaces.store_ne {previous : Bytes} {c' : Cluster} {e : Error}
    (h : op.Replaces m c previous c') (he : MapHandle.decode previous = .error e) :
    c'.store ≠ c.store := by
  intro heq
  cases h with
  | @put k v key bytes previous hk hb hc hheld =>
    have hbytes : (c.store.put m.name key bytes).2.get m.name key = some bytes := by
      rw [Store.get_put, if_pos ⟨rfl, rfl⟩]
    have hprevious : bytes = previous := by
      rw [← Option.some.injEq, ← hbytes, ← hheld]
      exact congrArg (·.get m.name key) heq
    obtain ⟨hsize, hv⟩ := MapHandle.of_encode_eq_ok hb
    have hdecode : Value.decode v.bytes = .ok v := Value.decode_encodeTree hsize
    rw [MapHandle.decode, ← hprevious, ← hv, hdecode] at he
    contradiction
  | @remove k key previous hk hc hheld =>
    have hnone : (c.store.remove m.name key).2.get m.name key = none := by
      rw [Store.get_remove, if_pos ⟨rfl, rfl⟩]
    have hsome : (c.store.remove m.name key).2.get m.name key = some previous := by
      rw [← hheld]
      exact congrArg (·.get m.name key) heq
    rw [hnone] at hsome
    contradiction

/-! ## Failures -/

omit [CustomKey κ] in
/-- Running a predicate fails for the first entry of the map that cannot be read, whether it is
asked for or not. -/
theorem failure?_queryCompiled (hc : c.reachable = true) (m : MapHandle κ) (p : Predicate) :
    failure? (m.queryCompiled c p) = readingFault? ((c.store.entries m.name).map Prod.snd) := by
  rw [MapHandle.queryCompiled, Cluster.query_of_reachable hc, ← failure?_select p]
  cases hselect : Cluster.select p (c.store.entries m.name) with
  | error e => rfl
  | ok matched => exact failure?_decodeEntries_of_select hselect

/-- Once the request stands and the cluster is reached, only the bytes that are read can be at
fault. -/
theorem failure?_perform_of_reachable {r : Request} (hr : op.request m = .ok r)
    (hc : c.reachable = true) :
    failure? (op.perform m c).1 = readingFault? (op.read m c) := by
  cases op with
  | get k =>
    obtain ⟨key, hk, -⟩ := bind_eq_ok hr
    rw [perform, failure?_map, MapHandle.get, read, hk, ← failure?_decodeOptional]
    simp only [bind, Except.bind, Cluster.get_of_reachable hc]
  | put k v =>
    obtain ⟨key, hk, hr⟩ := bind_eq_ok hr
    obtain ⟨b, hb, -⟩ := bind_eq_ok hr
    rw [perform_put hk hb hc, failure?_map, read, hk, failure?_decodeOptional]
  | remove k =>
    obtain ⟨key, hk, -⟩ := bind_eq_ok hr
    rw [perform_remove hk hc, failure?_map, read, hk, failure?_decodeOptional]
  | evict k =>
    obtain ⟨key, hk, -⟩ := bind_eq_ok hr
    simp only [perform, MapHandle.evict, hk, bind, Except.bind, Cluster.mutate_of_reachable hc]
    rfl
  | contains k =>
    obtain ⟨key, hk, -⟩ := bind_eq_ok hr
    simp only [perform, MapHandle.contains, hk, bind, Except.bind, Cluster.get_of_reachable hc]
    rfl
  | clear =>
    simp only [perform, MapHandle.clear, Cluster.clear_of_reachable hc]
    rfl
  | size | isEmpty =>
    simp only [perform, MapHandle.size, MapHandle.isEmpty, Cluster.size_of_reachable hc]
    rfl
  | queryCompiled p => rw [perform, failure?_map, failure?_queryCompiled hc, read]
  | query criteria =>
    obtain ⟨p, hp, -⟩ := bind_eq_ok hr
    rw [perform, failure?_map, MapHandle.query, hp, read, ← failure?_queryCompiled hc m p]
    rfl
  | keys criteria =>
    obtain ⟨p, hp, -⟩ := bind_eq_ok hr
    rw [perform, failure?_map, MapHandle.keys, failure?_bind_ok, MapHandle.query, hp, read,
      ← failure?_queryCompiled hc m p]
    rfl
  | values criteria =>
    obtain ⟨p, hp, -⟩ := bind_eq_ok hr
    rw [perform, failure?_map, MapHandle.values, failure?_bind_ok, MapHandle.query, hp, read,
      ← failure?_queryCompiled hc m p]
    rfl

/-- An operation fails for the first of its faults, and only for a fault. -/
theorem failure?_perform (m : MapHandle κ) (c : Cluster) (op : Operation κ) :
    failure? (op.perform m c).1 = op.fault? m c := by
  have hrequest := failure?_request m op
  rw [fault?, ← Option.or_assoc, ← hrequest]
  cases hr : op.request m with
  | error e =>
    rw [perform_of_request_error hr]
    rfl
  | ok r =>
    cases hc : c.reachable with
    | true =>
      rw [failure?_perform_of_reachable hr hc, Cluster.outage?_of_reachable hc]
      rfl
    | false =>
      rw [perform_of_unreachable hr hc, Cluster.outage?_of_unreachable hc]
      rfl

/-- An operation that fails leaves the cluster as it was, unless it displaced bytes that cannot be
read. -/
theorem perform_of_failure {e : Error} (h : (op.perform m c).1 = .error e) :
    (op.perform m c).2 = c ∨
      ∃ previous, op.Replaces m c previous (op.perform m c).2 ∧
        MapHandle.decode previous = .error e := by
  have hreplaces : ∀ {previous c'}, op.Replaces m c previous c' →
      ∃ previous, op.Replaces m c previous (op.perform m c).2 ∧
        MapHandle.decode previous = .error e := by
    intro previous c' hr
    rw [hr.perform] at h ⊢
    exact ⟨previous, hr, by rwa [← failure?_eq_some_iff, failure?_map, failure?_eq_some_iff] at h⟩
  cases hr : op.request m with
  | error e' => exact .inl (by rw [perform_of_request_error hr])
  | ok r =>
    cases hc : c.reachable with
    | false => exact .inl (by rw [perform_of_unreachable hr hc])
    | true =>
      cases op with
      | put k v =>
        obtain ⟨key, hk, hr⟩ := bind_eq_ok hr
        obtain ⟨b, hb, -⟩ := bind_eq_ok hr
        cases hheld : c.store.get m.name key with
        | none =>
          rw [perform_put hk hb hc, hheld] at h
          contradiction
        | some previous => exact .inr (hreplaces (.put hk hb hc hheld))
      | remove k =>
        obtain ⟨key, hk, -⟩ := bind_eq_ok hr
        cases hheld : c.store.get m.name key with
        | none =>
          rw [perform_remove hk hc, hheld] at h
          contradiction
        | some previous => exact .inr (hreplaces (.remove hk hc hheld))
      | evict k =>
        have hnone : failure? ((evict k).perform m c).1 = none :=
          failure?_perform_of_reachable hr hc
        rw [h] at hnone
        contradiction
      | clear =>
        have hnone : failure? ((clear : Operation κ).perform m c).1 = none :=
          failure?_perform_of_reachable hr hc
        rw [h] at hnone
        contradiction
      | _ => exact .inl rfl

end Operation

namespace Relay

variable {σ τ : Type}

/-- Answers a call where the cluster stands: the reply or the failure, and what is left behind. -/
def respond (r : Relay σ) (call : Cluster.Call) : Except Error Cluster.Reply × Relay σ :=
  ((r.grid.cluster.respond call).1, r.withCluster (r.grid.cluster.respond call).2)

/-- Performs an operation where the cluster stands: the answer or the failure, and what is left
behind. -/
def perform (r : Relay σ) (m : MapHandle κ) (op : Operation κ) : Except Error Answer × Relay σ :=
  ((op.perform m r.grid.cluster).1, r.withCluster (op.perform m r.grid.cluster).2)

/-- Changing an entry and clearing a map, as turns of a history, are calls. -/
theorem turn_eq_respond [Subscriber σ] [Inhabited σ] (act : σ → τ → σ) (r : Relay σ) :
    (∀ map key value action,
      r.turn act (.mutate map key value action) = (r.respond (.mutate map key value action)).2) ∧
    ∀ map, r.turn act (.clear map) = (r.respond (.clear map)).2 := by
  constructor
  · intro map key value action
    rw [turn, respond, Cluster.respond]
    cases r.grid.cluster.mutate map key value action <;> rfl
  · intro map
    rw [turn, respond, Cluster.respond]
    cases r.grid.cluster.clear map <;> rfl

/-- A call or an operation that fails leaves everything as it was, the entries, the names of the
maps and the notifications that wait, are on their way or were delivered; but for putting and
removing that displace bytes which cannot be read. These are done and reported as they are where the
bytes can be read, and fail with why they cannot. Both fail for the first of their faults, in the
order of `Cluster.Call.fault?` and `Operation.fault?`. -/
theorem failure_changes_nothing (r : Relay σ) :
    (∀ (call : Cluster.Call) (e : Error),
      ((r.respond call).1 = .error e ↔ call.fault? r.grid.cluster = some e) ∧
      ((r.respond call).1 = .error e → (r.respond call).2 = r)) ∧
    ∀ (m : MapHandle κ) (op : Operation κ),
      (∀ e, (r.perform m op).1 = .error e ↔ op.fault? m r.grid.cluster = some e) ∧
      (∀ e, (r.perform m op).1 = .error e → (r.perform m op).2 = r ∨
        ∃ previous c', op.Replaces m r.grid.cluster previous c' ∧
          MapHandle.decode previous = .error e ∧
          (r.perform m op).2 = r.withCluster c') ∧
      ∀ previous c', op.Replaces m r.grid.cluster previous c' →
        r.perform m op = ((MapHandle.decode previous).map fun v => .value (some v),
          r.withCluster c') ∧
        ∀ e, MapHandle.decode previous = .error e → c'.store ≠ r.grid.cluster.store := by
  constructor
  · intro call e
    refine ⟨?_, fun h => ?_⟩
    · rw [← Cluster.failure?_respond, failure?_eq_some_iff]
      rfl
    · have hcluster : (r.grid.cluster.respond call).2 = r.grid.cluster :=
        Cluster.snd_respond_of_error h
      rw [respond, hcluster]
      rfl
  · intro m op
    refine ⟨fun e => ?_, fun e h => ?_, fun previous c' h => ⟨?_, fun e he => h.store_ne he⟩⟩
    · rw [← Operation.failure?_perform, failure?_eq_some_iff]
      rfl
    · obtain hcluster | ⟨previous, hreplaces, he⟩ := Operation.perform_of_failure h
      · rw [perform, hcluster]
        exact .inl rfl
      · exact .inr ⟨previous, _, hreplaces, he, rfl⟩
    · rw [perform, h.perform]

/-- Putting a value in the place of a byte that is no value fails, and has put it there and reported
it. -/
theorem failure_changes_nothing_of_put :
    let _ : CustomKey Empty := ⟨Empty.elim⟩
    let r : Relay (List Batch) :=
      (start 1).withCluster ((Cluster.ofPartitions 1).put "m" ⟨"k"⟩ [7]).2
    let after := r.perform (⟨"m", .empty⟩ : MapHandle Empty) (.put (.text "k") (.bool true))
    (∃ e, after.1 = .error (.serialization e)) ∧
      after.2.grid.cluster.store.get "m" ⟨"k"⟩ = some (Value.bool true).bytes ∧
      after.2.queue 0 =
        r.queue 0 ++ [(Mutation.overwritten (Value.bool true).bytes).sweep "m" ⟨"k"⟩] := by
  intro _ r after
  have hreplaces :
      (Operation.put (.text "k") (.bool true)).Replaces (⟨"m", .empty⟩ : MapHandle Empty)
      r.grid.cluster [7] _ := .put rfl rfl rfl rfl
  obtain ⟨hafter, -⟩ := ((failure_changes_nothing r).2 _ _).2.2 _ _ hreplaces
  have hafter : after = _ := hafter
  rw [hafter]
  refine ⟨⟨_, rfl⟩, rfl, ?_⟩
  simp only [r]
  decide +kernel

end Relay

end ClusterMap
