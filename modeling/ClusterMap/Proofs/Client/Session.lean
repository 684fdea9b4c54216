import ClusterMap.Client.MapHandle
import ClusterMap.Proofs.Cluster.Ledger
import ClusterMap.Proofs.Value.RoundTrip

/-!
# Sessions

What clients of a cluster may rely on while nobody writes bytes past their handles: the cluster
answers like tables of values, one for each map. An operation first has its arguments accepted,
which does not depend on what the maps hold (`Operation.request`), and then reads or changes the
table of its map (`Atlas.serve`). The cluster shows an atlas if it holds the bytes of its values,
none of them over the limit (`Cluster.Shows`), and every operation keeps it so. Main statements:
`perform_of_shows`, one operation; `answers_session`, any number of them on any number of maps, by
any number of clients.
-/

namespace ClusterMap

/-! ## Tables of values -/

/-- An operation whose arguments were accepted. -/
inductive Request where
  | get (key : Key)
  | put (key : Key) (value : Value)
  | remove (key : Key)
  | evict (key : Key)
  | clear
  | contains (key : Key)
  | size
  | isEmpty
  | query (predicate : Predicate)
  | keys (predicate : Predicate)
  | values (predicate : Predicate)

/-- The maps as their clients see them: for each name a table of values under canonical keys. -/
structure Atlas where
  maps : String → Table Value

namespace Atlas

/-- The atlas of an empty cluster. -/
def empty : Atlas := ⟨fun _ => ∅⟩

/-- Puts another table in the place of a map. -/
def set (a : Atlas) (map : String) (t : Table Value) : Atlas :=
  ⟨fun other => if other = map then t else a.maps other⟩

/-- The entries of a table whose values meet a predicate, in ascending order of their keys. -/
def matching (t : Table Value) (p : Predicate) : List (Key × Value) :=
  (t.toList.filter fun e => p.holds e.2).map fun e => (⟨e.1⟩, e.2)

/-- The answer to a request, and the table it leaves behind. -/
def serve (t : Table Value) : Request → Answer × Table Value
  | .get key => (.value (t.get? key.text), t)
  | .put key v => (.value (t.get? key.text), t.insert key.text v)
  | .remove key => (.value (t.get? key.text), t.erase key.text)
  | .evict key => (.flag (t.get? key.text).isSome, t.erase key.text)
  | .clear => (.done, ∅)
  | .contains key => (.flag (t.get? key.text).isSome, t)
  | .size => (.count t.size, t)
  | .isEmpty => (.flag (t.size == 0), t)
  | .query p => (.entries (matching t p), t)
  | .keys p => (.keys ((matching t p).map Prod.fst), t)
  | .values p => (.values ((matching t p).map Prod.snd), t)

/-- Replacing one map of an atlas concerns no other map. -/
theorem maps_set (a : Atlas) (map other : String) (t : Table Value) :
    (a.set map t).maps other = if other = map then t else a.maps other := rfl

@[simp] theorem set_maps (a : Atlas) (map : String) : a.set map (a.maps map) = a := by
  have hmaps : ∀ other, (if other = map then a.maps map else a.maps other) = a.maps other :=
    fun other => by
    split
    · next h => rw [h]
    · rfl
  rw [set]
  simp only [hmaps]

end Atlas

variable {κ : Type} [CustomKey κ]

namespace Operation

/-- What is asked for, or why the arguments are refused. -/
def request (h : MapHandle κ) : Operation κ → Except Error Request
  | .get k => do .ok (.get (← h.key k))
  | .put k v => do
    let key ← h.key k
    let _ ← MapHandle.encode v
    .ok (.put key v)
  | .remove k => do .ok (.remove (← h.key k))
  | .evict k => do .ok (.evict (← h.key k))
  | .clear => .ok .clear
  | .contains k => do .ok (.contains (← h.key k))
  | .size => .ok .size
  | .isEmpty => .ok .isEmpty
  | .query criteria => do .ok (.query (← MapHandle.compile criteria))
  | .queryCompiled p => .ok (.query p)
  | .keys criteria => do .ok (.keys (← MapHandle.compile criteria))
  | .values criteria => do .ok (.values (← MapHandle.compile criteria))

end Operation

/-- Performs an operation on an atlas: its answer or its failure, and the atlas behind it. -/
def Atlas.perform (a : Atlas) (h : MapHandle κ) (op : Operation κ) : Except Error Answer × Atlas :=
  match op.request h with
  | .ok r => (.ok (serve (a.maps h.name) r).1, a.set h.name (serve (a.maps h.name) r).2)
  | .error e => (.error e, a)

/-! ## Answers -/

/-- What a list of calls is answered, each call of an operation on the map of a handle. -/
def answers {σ : Type} (perform : σ → MapHandle κ → Operation κ → Except Error Answer × σ) (s : σ) :
    List (MapHandle κ × Operation κ) → List (Except Error Answer)
  | [] => []
  | (h, op) :: calls => (perform s h op).1 :: answers perform (perform s h op).2 calls

/-- What a cluster answers to a list of calls. -/
def Cluster.answers (c : Cluster) (calls : List (MapHandle κ × Operation κ)) :
    List (Except Error Answer) :=
  ClusterMap.answers (fun c h op => op.perform h c) c calls

/-- What an atlas answers to a list of calls. -/
def Atlas.answers (a : Atlas) (calls : List (MapHandle κ × Operation κ)) :
    List (Except Error Answer) :=
  ClusterMap.answers Atlas.perform a calls

/-! ## What a cluster shows -/

/-- The bytes of a value. -/
def Value.bytes (v : Value) : Bytes := Codec.encodeTree v.tree

/-- Whether a cluster can be reached and holds the bytes of the values of an atlas, none of them
over the limit. -/
structure Cluster.Shows (c : Cluster) (a : Atlas) : Prop where
  reachable : c.reachable = true
  entriesOf : ∀ map, c.store.entriesOf map = (a.maps map).map Value.bytes
  size_le : ∀ map name v, (a.maps map).get? name = some v → v.size ≤ Codec.maxSize

namespace Cluster

/-- A new cluster shows the empty atlas. -/
theorem shows_ofPartitions (n : Nat) : (ofPartitions n).Shows .empty where
  reachable := rfl
  entriesOf map := rfl
  size_le map name v h := by contradiction

namespace Shows

variable {c c' : Cluster} {a : Atlas}

/-- A cluster that changes what it holds for one map shows another table there. -/
theorem set (h : c.Shows a) {map : String} {t : Table Value}
    (hreachable : c'.reachable = c.reachable) (hstore : ∀ other, c'.store.entriesOf other =
      if other = map then t.map Value.bytes else c.store.entriesOf other)
    (hsize : ∀ name v, t.get? name = some v → v.size ≤ Codec.maxSize) : c'.Shows (a.set map t) where
  reachable := hreachable.trans h.reachable
  entriesOf other := by
    rw [hstore, Atlas.maps_set]
    split
    · rfl
    · exact h.entriesOf other
  size_le other name v hv := by
    rw [Atlas.maps_set] at hv
    split at hv
    · exact hsize name v hv
    · exact h.size_le other name v hv

/-! ## Reading -/

/-- The store holds the bytes of the values of the atlas. -/
theorem store_get (h : c.Shows a) (map : String) (key : Key) :
    c.store.get map key = ((a.maps map).get? key.text).map Value.bytes := by
  rw [Store.get, h.entriesOf, Table.get?_map]

/-- A look-up answers with the bytes of the value in the atlas. -/
theorem get (h : c.Shows a) (map : String) (key : Key) :
    c.get map key = .ok (((a.maps map).get? key.text).map Value.bytes) := by
  rw [get_of_reachable h.reachable, h.store_get]

/-- A map has as many entries as in the atlas. -/
theorem size (h : c.Shows a) (map : String) : c.size map = .ok (a.maps map).size := by
  rw [size_of_reachable h.reachable, Store.size, h.entriesOf, Table.size_map]

/-- What is under a key is read back as the value that was put there. -/
theorem decodeOptional (h : c.Shows a) (map name : String) :
    MapHandle.decodeOptional (((a.maps map).get? name).map Value.bytes) =
      .ok ((a.maps map).get? name) := by
  cases hv : (a.maps map).get? name with
  | none => rfl
  | some v =>
    have hdecode : Value.decode v.bytes = .ok v := Value.decode_encodeTree (h.size_le map name v hv)
    simp only [Option.map_some, MapHandle.decodeOptional, MapHandle.decode, hdecode, Except.map]

end Shows

/-- Entries of values within the limit are selected by their values. -/
theorem select_bytes (p : Predicate) {l : List (String × Value)}
    (h : ∀ e ∈ l, e.2.size ≤ Codec.maxSize) :
    select p (l.map fun e => (⟨e.1⟩, e.2.bytes)) =
      .ok ((l.filter fun e => p.holds e.2).map fun e => (⟨e.1⟩, e.2.bytes)) := by
  induction l with
  | nil => rfl
  | cons e l ih =>
    have hdecode : Value.decode e.2.bytes = .ok e.2 :=
      Value.decode_encodeTree (h e List.mem_cons_self)
    have hrest := ih fun e' he' => h e' (List.mem_cons_of_mem e he')
    simp only [List.map_cons, select, hdecode, hrest, List.filter_cons]
    split <;> rfl

/-- The bytes of values that are not too large are decoded to the values. -/
theorem decodeEntries_bytes {l : List (String × Value)} (h : ∀ e ∈ l, e.2.size ≤ Codec.maxSize) :
    MapHandle.decodeEntries (l.map fun e => (⟨e.1⟩, e.2.bytes)) =
      .ok (l.map fun e => (⟨e.1⟩, e.2)) := by
  induction l with
  | nil => rfl
  | cons e l ih =>
    have hdecode : Value.decode e.2.bytes = .ok e.2 :=
      Value.decode_encodeTree (h e List.mem_cons_self)
    have hrest := ih fun e' he' => h e' (List.mem_cons_of_mem e he')
    simp only [List.map_cons, MapHandle.decodeEntries, MapHandle.decode, hdecode, hrest, bind,
      Except.bind]

end Cluster

namespace MapHandle

omit [CustomKey κ] in
/-- A compiled query answers with the matching entries of the atlas. -/
theorem queryCompiled_of_shows {c : Cluster} {a : Atlas} (h : c.Shows a) (m : MapHandle κ)
    (p : Predicate) :
    m.queryCompiled c p = .ok (Atlas.matching (a.maps m.name) p) := by
  have hsize : ∀ e ∈ (a.maps m.name).toList, e.2.size ≤ Codec.maxSize := fun e he =>
    h.size_le m.name e.1 e.2 (Table.mem_toList_iff.1 he)
  have hentries : c.store.entries m.name = (a.maps m.name).toList.map fun e =>
      (⟨e.1⟩, e.2.bytes) := by
    rw [Store.entries, h.entriesOf, Table.map, List.map_map]
    rfl
  have hquery : c.query m.name p =
      .ok (((a.maps m.name).toList.filter fun e => p.holds e.2).map fun e =>
        (⟨e.1⟩, e.2.bytes)) := by
    rw [Cluster.query_of_reachable h.reachable, hentries, Cluster.select_bytes p hsize]
  have hdecode :=
    Cluster.decodeEntries_bytes (l := (a.maps m.name).toList.filter fun e => p.holds e.2)
    fun e he => hsize e (List.mem_filter.1 he).1
  simp only [queryCompiled, hquery, bind, Except.bind, hdecode]
  rfl

omit [CustomKey κ] in
/-- A query whose criteria compile answers with the matching entries of the atlas. -/
theorem query_of_shows {c : Cluster} {a : Atlas} (h : c.Shows a) {m : MapHandle κ}
    {criteria : Criteria} {p : Predicate} (hp : compile criteria = .ok p) :
    m.query c criteria = .ok (Atlas.matching (a.maps m.name) p) := by
  rw [query, hp]
  exact queryCompiled_of_shows h m p

/-- A value that is written is not too large, and what is written are its bytes. -/
theorem of_encode_eq_ok {v : Value} {b : Bytes} (h : encode v = .ok b) :
    v.size ≤ Codec.maxSize ∧ v.bytes = b := by
  unfold encode Value.encode at h
  split at h
  · next hencode =>
    split at hencode
    · next hv => exact ⟨hv, (Except.ok.inj hencode).trans (Except.ok.inj h)⟩
    · contradiction
  · contradiction

/-- A value that is not written is too large. -/
theorem lt_size_of_encode_eq_error {v : Value} {e : Error} (h : encode v = .error e) :
    Codec.maxSize < v.size := by
  unfold encode Value.encode at h
  split at h
  · contradiction
  · next hencode =>
    split at hencode
    · contradiction
    · next hv => exact Nat.lt_of_not_le hv

end MapHandle

/-! ## Changing -/

namespace Cluster.Shows

variable {c : Cluster} {a : Atlas}

/-- A put answers with the bytes of the value that was shown, and shows the new one. -/
theorem put (h : c.Shows a) (map : String) (key : Key) {v : Value} (hv : v.size ≤ Codec.maxSize) :
    ∃ c', c.mutate map key (some v.bytes) .put =
        .ok (⟨((a.maps map).get? key.text).map Value.bytes, true⟩, c') ∧
      c'.Shows (a.set map ((a.maps map).insert key.text v)) := by
  have hmutate : c.mutate map key (some v.bytes) .put =
      .ok (⟨((a.maps map).get? key.text).map Value.bytes, true⟩, (c.put map key v.bytes).2) := by
    rw [mutate_of_reachable h.reachable, ← h.store_get]
    rfl
  have hstore : ∀ other, (c.put map key v.bytes).2.store.entriesOf other =
      if other = map then ((a.maps map).insert key.text v).map Value.bytes
        else c.store.entriesOf other := by
    intro other
    rw [Table.map_insert, ← h.entriesOf]
    exact c.store.entriesOf_put map other key v.bytes
  have hsize : ∀ name w, ((a.maps map).insert key.text v).get? name = some w →
      w.size ≤ Codec.maxSize := by
    intro name w hw
    rw [Table.get?_insert] at hw
    split at hw
    · rw [← Option.some.inj hw]
      exact hv
    · exact h.size_le map name w hw
  exact ⟨_, hmutate, h.set rfl hstore hsize⟩

/-- Dropping an entry answers with the bytes of the value that was shown, and shows none any
more. -/
theorem drop (h : c.Shows a) (map : String) (key : Key) (report : Bytes → Mutation) :
    ∃ c', c.drop map key report =
        (⟨((a.maps map).get? key.text).map Value.bytes, ((a.maps map).get? key.text).isSome⟩, c') ∧
      c'.Shows (a.set map ((a.maps map).erase key.text)) := by
  have hget := h.store_get map key
  cases hv : (a.maps map).get? key.text with
  | none =>
    rw [hv] at hget
    rw [Table.erase_of_get?_eq_none hv, Atlas.set_maps]
    exact ⟨c, drop_of_none hget report, h⟩
  | some v =>
    rw [hv] at hget
    have hstore : ∀ other, (c.store.remove map key).2.entriesOf other =
        if other = map then ((a.maps map).erase key.text).map Value.bytes
          else c.store.entriesOf other := by
      intro other
      rw [Table.map_erase, ← h.entriesOf]
      exact c.store.entriesOf_remove map other key
    have hsize : ∀ name w, ((a.maps map).erase key.text).get? name = some w →
        w.size ≤ Codec.maxSize := by
      intro name w hw
      rw [Table.get?_erase] at hw
      split at hw
      · contradiction
      · exact h.size_le map name w hw
    exact ⟨_, drop_of_some hget report, h.set rfl hstore hsize⟩

/-- Clearing a map clears the map of the atlas. -/
theorem clear (h : c.Shows a) (map : String) :
    ∃ c', c.clear map = .ok c' ∧ c'.Shows (a.set map ∅) := by
  have hsize : ∀ name v, (∅ : Table Value).get? name = some v → v.size ≤ Codec.maxSize :=
    fun name v hv => by
    contradiction
  exact ⟨_, clear_of_reachable h.reachable map, h.set rfl (c.store.entriesOf_clear map) hsize⟩

end Cluster.Shows

/-! ## Operations -/

namespace Atlas

variable {a : Atlas} {m : MapHandle κ} {op : Operation κ}

/-- An operation whose request stands is served by its map. -/
theorem perform_of_ok {r : Request} (h : op.request m = .ok r) :
    a.perform m op = (.ok (serve (a.maps m.name) r).1,
      a.set m.name (serve (a.maps m.name) r).2) := by
  rw [perform, h]

/-- An operation whose request fails leaves the atlas as it was. -/
theorem perform_of_error {e : Error} (h : op.request m = .error e) :
    a.perform m op = (.error e, a) := by
  rw [perform, h]

end Atlas

namespace Operation

variable {m : MapHandle κ} {op : Operation κ}

/-- Arguments that are refused are all that is reported, and the cluster stays as it is. -/
theorem perform_of_request_error {e : Error} (h : op.request m = .error e) (c : Cluster) :
    op.perform m c = (.error e, c) := by
  cases op with
  | get k | remove k | evict k | contains k =>
    have hk : m.key k = .error e := eq_error_of_bind_ok h
    simp only [perform, MapHandle.get, MapHandle.remove, MapHandle.evict, MapHandle.contains, hk]
    rfl
  | put k v =>
    obtain hk | ⟨key, hk, h⟩ := bind_eq_error h
    · rw [perform, MapHandle.put, hk]
      rfl
    · have hv : MapHandle.encode v = .error e := eq_error_of_bind_ok h
      rw [perform, MapHandle.put, hk, hv]
      rfl
  | query criteria | keys criteria | values criteria =>
    have hp : MapHandle.compile criteria = .error e := eq_error_of_bind_ok h
    simp only [perform, MapHandle.query, MapHandle.keys, MapHandle.values, hp]
    rfl
  | clear | size | isEmpty | queryCompiled p => contradiction

/-- An operation whose arguments are accepted answers like the table that is shown, and shows what
becomes of it. -/
theorem perform_of_request_ok {c : Cluster} {a : Atlas} (h : c.Shows a) {r : Request}
    (hr : op.request m = .ok r) :
    (op.perform m c).1 = .ok (Atlas.serve (a.maps m.name) r).1 ∧
      (op.perform m c).2.Shows (a.set m.name (Atlas.serve (a.maps m.name) r).2) := by
  cases op with
  | get k =>
    obtain ⟨key, hk, hok⟩ := bind_eq_ok hr
    cases hok
    have hget : m.get c k = .ok ((a.maps m.name).get? key.text) := by
      simp only [MapHandle.get, hk, h.get, bind, Except.bind, h.decodeOptional]
    rw [perform, hget, Atlas.serve, Atlas.set_maps]
    exact ⟨rfl, h⟩
  | put k v =>
    obtain ⟨key, hk, hr⟩ := bind_eq_ok hr
    obtain ⟨b, hb, hok⟩ := bind_eq_ok hr
    cases hok
    obtain ⟨hv, rfl⟩ := MapHandle.of_encode_eq_ok hb
    obtain ⟨c', hmutate, hshows⟩ := h.put m.name key hv
    have hput : m.put c k v = (.ok ((a.maps m.name).get? key.text), c') := by
      simp only [MapHandle.put, hk, hb, hmutate, bind, Except.bind, MapHandle.answer,
        h.decodeOptional]
    rw [perform, hput]
    exact ⟨rfl, hshows⟩
  | remove k =>
    obtain ⟨key, hk, hok⟩ := bind_eq_ok hr
    cases hok
    obtain ⟨c', hdrop, hshows⟩ := h.drop m.name key .removed
    have hremove : m.remove c k = (.ok ((a.maps m.name).get? key.text), c') := by
      simp only [MapHandle.remove, hk, Cluster.mutate_of_reachable h.reachable, hdrop, bind,
        Except.bind, MapHandle.answer, h.decodeOptional]
    rw [perform, hremove]
    exact ⟨rfl, hshows⟩
  | evict k =>
    obtain ⟨key, hk, hok⟩ := bind_eq_ok hr
    cases hok
    obtain ⟨c', hdrop, hshows⟩ := h.drop m.name key fun _ => .evicted
    have hevict : m.evict c k = (.ok ((a.maps m.name).get? key.text).isSome, c') := by
      simp only [MapHandle.evict, hk, Cluster.mutate_of_reachable h.reachable, hdrop, bind,
        Except.bind, MapHandle.answer]
    rw [perform, hevict]
    exact ⟨rfl, hshows⟩
  | contains k =>
    obtain ⟨key, hk, hok⟩ := bind_eq_ok hr
    cases hok
    have hcontains : m.contains c k = .ok ((a.maps m.name).get? key.text).isSome := by
      simp only [MapHandle.contains, hk, h.get, bind, Except.bind, Option.isSome_map]
    rw [perform, hcontains, Atlas.serve, Atlas.set_maps]
    exact ⟨rfl, h⟩
  | clear =>
    cases hr
    obtain ⟨c', hclear, hshows⟩ := h.clear m.name
    have hclear : m.clear c = (.ok (), c') := by rw [MapHandle.clear, hclear]
    rw [perform, hclear]
    exact ⟨rfl, hshows⟩
  | size =>
    cases hr
    rw [perform, MapHandle.size, h.size, Atlas.serve, Atlas.set_maps]
    exact ⟨rfl, h⟩
  | isEmpty =>
    cases hr
    rw [perform, MapHandle.isEmpty, MapHandle.size, h.size, Atlas.serve, Atlas.set_maps]
    exact ⟨rfl, h⟩
  | query criteria =>
    obtain ⟨p, hp, hok⟩ := bind_eq_ok hr
    cases hok
    rw [perform, MapHandle.query_of_shows h hp, Atlas.serve, Atlas.set_maps]
    exact ⟨rfl, h⟩
  | queryCompiled p =>
    cases hr
    rw [perform, MapHandle.queryCompiled_of_shows h, Atlas.serve, Atlas.set_maps]
    exact ⟨rfl, h⟩
  | keys criteria =>
    obtain ⟨p, hp, hok⟩ := bind_eq_ok hr
    cases hok
    rw [perform, MapHandle.keys, MapHandle.query_of_shows h hp, Atlas.serve, Atlas.set_maps]
    exact ⟨rfl, h⟩
  | values criteria =>
    obtain ⟨p, hp, hok⟩ := bind_eq_ok hr
    cases hok
    rw [perform, MapHandle.values, MapHandle.query_of_shows h hp, Atlas.serve, Atlas.set_maps]
    exact ⟨rfl, h⟩

/-- Of all arguments only a value over the limit is refused as one that cannot be written. -/
theorem of_request_eq_serialization {reason : String}
    (h : op.request m = .error (.serialization reason)) :
    ∃ k v, op = .put k v ∧ Codec.maxSize < v.size := by
  have hkey : ∀ k (f : Key → Request),
      (m.key k >>= fun key => .ok (f key)) ≠ .error (.serialization reason) := fun k f he => by
    have hk := eq_error_of_bind_ok he
    unfold MapHandle.key at hk
    split at hk <;> cases hk
  have hcompile : ∀ criteria (f : Predicate → Request),
      (MapHandle.compile criteria >>= fun p => .ok (f p)) ≠ .error (.serialization reason) :=
        fun _ f he => by
    have hp := eq_error_of_bind_ok he
    unfold MapHandle.compile at hp
    split at hp <;> cases hp
  cases op with
  | put k v =>
    cases hv : MapHandle.encode v with
    | error e => exact ⟨k, v, rfl, MapHandle.lt_size_of_encode_eq_error hv⟩
    | ok b =>
      rw [request, hv] at h
      exact absurd h (hkey k fun key => .put key v)
  | get k => exact absurd h (hkey k _)
  | remove k => exact absurd h (hkey k _)
  | evict k => exact absurd h (hkey k _)
  | contains k => exact absurd h (hkey k _)
  | query criteria => exact absurd h (hcompile criteria _)
  | keys criteria => exact absurd h (hcompile criteria _)
  | values criteria => exact absurd h (hcompile criteria _)
  | clear => contradiction
  | size => contradiction
  | isEmpty => contradiction
  | queryCompiled p => contradiction

/-- One operation: a cluster answers like the atlas that it shows, and shows what becomes of it. -/
theorem perform_of_shows {c : Cluster} {a : Atlas} (h : c.Shows a) (m : MapHandle κ)
    (op : Operation κ) :
    (op.perform m c).1 = (a.perform m op).1 ∧ (op.perform m c).2.Shows (a.perform m op).2 := by
  cases hr : op.request m with
  | error e =>
    rw [perform_of_request_error hr, Atlas.perform_of_error hr]
    exact ⟨rfl, h⟩
  | ok r =>
    rw [Atlas.perform_of_ok hr]
    exact perform_of_request_ok h hr

end Operation

/-! ## Sessions -/

/-- The calls of a session are answered as by the atlas. -/
theorem Cluster.Shows.answers {c : Cluster} {a : Atlas} (h : c.Shows a)
    (calls : List (MapHandle κ × Operation κ)) : c.answers calls = a.answers calls := by
  induction calls generalizing c a with
  | nil => rfl
  | cons call calls ih =>
    obtain ⟨m, op⟩ := call
    obtain ⟨hanswer, hshows⟩ := Operation.perform_of_shows h m op
    exact List.cons_eq_cons.2 ⟨hanswer, ih hshows⟩

/-- Every answer of a session is that of an atlas of the moment. -/
theorem Atlas.exists_perform_of_answers {a : Atlas}
    {calls : List (MapHandle κ × Operation κ)} {i : Nat} {m : MapHandle κ} {op : Operation κ}
    (h : calls[i]? = some (m, op)) :
    ∃ a' : Atlas, (a.answers calls)[i]? = some (a'.perform m op).1 := by
  induction calls generalizing a i with
  | nil => contradiction
  | cons call calls ih =>
    obtain ⟨m', op'⟩ := call
    cases i with
    | zero =>
      rw [List.getElem?_cons_zero, Option.some.injEq, Prod.mk.injEq] at h
      obtain ⟨rfl, rfl⟩ := h
      exact ⟨a, rfl⟩
    | succ i => exact ih h

/-- Every session with an empty cluster, of any clients on any maps, is answered like a session with
empty tables of values. Every operation whose arguments are accepted succeeds, and nothing fails for
reasons of writing or reading values but a put of a value that takes more than `maxSize` bytes. -/
theorem answers_session (n : Nat) (calls : List (MapHandle κ × Operation κ)) :
    (Cluster.ofPartitions n).answers calls = Atlas.empty.answers calls ∧
      ∀ (i : Nat) (m : MapHandle κ) (op : Operation κ), calls[i]? = some (m, op) →
        (∀ r, op.request m = .ok r →
          ∃ answer, ((Cluster.ofPartitions n).answers calls)[i]? = some (.ok answer)) ∧
        ∀ reason, ((Cluster.ofPartitions n).answers calls)[i]? =
          some (.error (.serialization reason)) →
          ∃ k v, op = .put k v ∧ Codec.maxSize < (Codec.encodeTree v.tree).length := by
  have hanswers := (Cluster.shows_ofPartitions n).answers calls
  refine ⟨hanswers, fun i m op hi => ?_⟩
  obtain ⟨a, ha⟩ := Atlas.exists_perform_of_answers (a := .empty) hi
  rw [hanswers, ha]
  refine ⟨fun r hr => ?_, fun reason hreason => ?_⟩
  · have hperform := Atlas.perform_of_ok (a := a) hr
    exact ⟨_, congrArg (some ·.1) hperform⟩
  cases hr : op.request m with
  | ok r =>
    rw [Atlas.perform_of_ok hr, Option.some.injEq] at hreason
    cases hreason
  | error e =>
    rw [Atlas.perform_of_error hr, Option.some.injEq, Except.error.injEq] at hreason
    obtain ⟨k, v, hop, hsize⟩ := Operation.of_request_eq_serialization (hreason ▸ hr)
    exact ⟨k, v, hop, (Codec.length_encodeTree v.tree).symm ▸ hsize⟩

end ClusterMap
