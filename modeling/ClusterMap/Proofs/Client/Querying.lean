import ClusterMap.Proofs.Client.Failure

/-!
# What a query finds

A query reads every entry of its map, in the order of the keys, and hands over those whose values
meet its predicate. One entry that cannot be read makes it fail, whether the predicate asks for the
entry or not. Main statements: `mem_select_iff` and `decodeEntries_eq_ok`, what the two passes over
the entries keep; `readingFault?_entries_eq_some_iff`, the fault is that of the first entry that
cannot be read; `query_finds_matching`.
-/

namespace ClusterMap

/-! ## Entries in order -/

/-- A selection of entries in key order is in key order. -/
theorem InKeyOrder.sublist {α : Type} {l l' : List (Key × α)} (h : InKeyOrder l)
    (hsub : l'.Sublist l) :
    InKeyOrder l' := List.Pairwise.sublist hsub h

/-- The order is one of the keys alone. -/
theorem inKeyOrder_of_map_fst {α β : Type} {l : List (Key × α)} {l' : List (Key × β)}
    (hfst : l'.map Prod.fst = l.map Prod.fst) (h : InKeyOrder l) : InKeyOrder l' := by
  have hkeys : (l.map Prod.fst).Pairwise fun k k' => k.text < k'.text := List.pairwise_map.2 h
  rw [← hfst, List.pairwise_map] at hkeys
  exact hkeys

/-! ## The two passes -/

/-- Bytes are decoded just as the codec decodes them. -/
theorem MapHandle.decode_eq_ok_iff {b : Bytes} {v : Value} :
    MapHandle.decode b = .ok v ↔ Value.decode b = .ok v := by
  unfold MapHandle.decode
  cases Value.decode b <;> simp

/-- Selecting keeps the entries whose values meet the predicate. -/
theorem Cluster.mem_select_iff {p : Predicate} {l matched : List (Key × Bytes)}
    (h : Cluster.select p l = .ok matched) (e : Key × Bytes) :
    e ∈ matched ↔ e ∈ l ∧ ∃ v, Value.decode e.2 = .ok v ∧ p.holds v = true := by
  induction l generalizing matched with
  | nil =>
    cases h
    simp
  | cons first l ih =>
    unfold Cluster.select at h
    split at h
    · contradiction
    · next v hv =>
      split at h
      · contradiction
      · next rest hrest =>
        have hmem := ih hrest
        cases h
        by_cases hholds : p.holds v = true
        · rw [if_pos hholds, List.mem_cons, List.mem_cons, hmem, or_and_right]
          refine or_congr_left ⟨fun he => ⟨he, v, ?_, hholds⟩, And.left⟩
          rw [he]
          exact hv
        · rw [if_neg hholds, List.mem_cons, hmem]
          refine and_congr_left ?_
          rintro ⟨w, hw, hw'⟩
          refine ⟨Or.inr, fun he => he.resolve_left fun he => hholds ?_⟩
          rw [he, hv] at hw
          cases hw
          exact hw'

namespace MapHandle

/-- Decoding leaves the keys as they are and every key with the value of its bytes. -/
theorem decodeEntries_eq_ok {l : List (Key × Bytes)} {found : List (Key × Value)}
    (h : decodeEntries l = .ok found) :
    found.map Prod.fst = l.map Prod.fst ∧
      ∀ key v, (key, v) ∈ found ↔ ∃ bytes, (key, bytes) ∈ l ∧ Value.decode bytes = .ok v := by
  induction l generalizing found with
  | nil =>
    cases h
    simp
  | cons e l ih =>
    obtain ⟨key, bytes⟩ := e
    obtain ⟨v, hv, h⟩ := bind_eq_ok h
    obtain ⟨rest, hrest, hok⟩ := bind_eq_ok h
    obtain ⟨hkeys, hmem⟩ := ih hrest
    cases hok
    refine ⟨by rw [List.map_cons, List.map_cons, hkeys], fun key' v' => ?_⟩
    rw [decode_eq_ok_iff] at hv
    rw [List.mem_cons, hmem, Prod.mk.injEq]
    constructor
    · rintro (⟨rfl, rfl⟩ | ⟨bytes', hbytes, hv'⟩)
      · exact ⟨bytes, List.mem_cons_self, hv⟩
      · exact ⟨bytes', List.mem_cons_of_mem _ hbytes, hv'⟩
    · rintro ⟨bytes', hbytes, hv'⟩
      obtain hfirst | hbytes := List.mem_cons.1 hbytes
      · cases hfirst
        exact .inl ⟨rfl, Except.ok.inj (hv'.symm.trans hv)⟩
      · exact .inr ⟨bytes', hbytes, hv'⟩

end MapHandle

/-! ## Entries that can be read -/

namespace Cluster

/-- Whether the bytes of every entry of a map are those of a value. -/
def Legible (c : Cluster) (map : String) : Prop :=
  ∀ key bytes, c.store.get map key = some bytes → ∃ v, Value.decode bytes = .ok v

/-- Whether an entry cannot be read, and why, while all entries before it can. -/
structure FirstIllegible (c : Cluster) (map : String) (key : Key) (fault : CodecError) : Prop where
  illegible : ∃ bytes, c.store.get map key = some bytes ∧ Value.decode bytes = .error fault
  earlier : ∀ key' bytes, key'.text < key.text → c.store.get map key' = some bytes →
    ∃ v, Value.decode bytes = .ok v

end Cluster

/-- Decoding does not fail if the bytes are those of a value. -/
theorem failure?_decode_eq_none_iff {b : Bytes} :
    failure? (MapHandle.decode b) = none ↔ ∃ v, Value.decode b = .ok v := by
  unfold MapHandle.decode
  cases Value.decode b <;> simp [failure?]

/-- Decoding fails with the fault that the codec finds. -/
theorem failure?_decode_eq_some_iff {b : Bytes} {e : Error} :
    failure? (MapHandle.decode b) = some e ↔
      ∃ fault : CodecError, Value.decode b = .error fault ∧ e = .serialization fault.message := by
  unfold MapHandle.decode
  cases Value.decode b <;> simp [failure?, eq_comm]

/-- There is no fault where every entry can be read. -/
theorem readingFault?_entries_eq_none_iff {c : Cluster} {map : String} :
    readingFault? ((c.store.entries map).map Prod.snd) = none ↔ c.Legible map := by
  rw [readingFault?, List.findSome?_eq_none_iff]
  simp only [List.forall_mem_map, failure?_decode_eq_none_iff]
  constructor
  · intro h key bytes hheld
    have hmem : (key, bytes) ∈ c.store.entries map := Store.mem_entries_iff.2 hheld
    exact h (key, bytes) hmem
  · intro h e he
    have hheld : c.store.get map e.1 = some e.2 := Store.mem_entries_iff.1 he
    exact h e.1 e.2 hheld

/-- The fault is that of the first entry that cannot be read. -/
theorem readingFault?_entries_eq_some_iff {c : Cluster} {map : String} {e : Error} :
    readingFault? ((c.store.entries map).map Prod.snd) = some e ↔
      ∃ key fault, c.FirstIllegible map key fault ∧ e = .serialization fault.message := by
  have horder := c.store.inKeyOrder_entries map
  rw [readingFault?, List.findSome?_map, List.findSome?_eq_some_iff]
  constructor
  · rintro ⟨before, ⟨key, bytes⟩, after, hsplit, hfault, hbefore⟩
    obtain ⟨fault, hdecode, he⟩ := failure?_decode_eq_some_iff.1 hfault
    have hheld : c.store.get map key = some bytes := by
      rw [← Store.mem_entries_iff, hsplit]
      exact List.mem_append_right before List.mem_cons_self
    refine ⟨key, fault, ⟨⟨bytes, hheld, hdecode⟩, fun key' bytes' hlt hheld' => ?_⟩, he⟩
    -- an entry under a smaller key stands before this one, the order being strict
    rw [← Store.mem_entries_iff, hsplit, List.mem_append, List.mem_cons] at hheld'
    rw [hsplit] at horder
    obtain ⟨-, hafter, -⟩ := List.pairwise_append.1 horder
    obtain hmem | heq | hmem := hheld'
    · exact failure?_decode_eq_none_iff.1 (hbefore _ hmem)
    · cases heq
      exact absurd hlt (String.lt_irrefl _)
    · obtain ⟨hbehind, -⟩ := List.pairwise_cons.1 hafter
      exact absurd hlt (String.lt_asymm (hbehind _ hmem))
  · rintro ⟨key, fault, ⟨⟨bytes, hheld, hdecode⟩, hearlier⟩, he⟩
    obtain ⟨before, after, hsplit⟩ := List.append_of_mem (Store.mem_entries_iff.2 hheld)
    have hfault : failure? (MapHandle.decode bytes) = some e :=
      failure?_decode_eq_some_iff.2 ⟨fault, hdecode, he⟩
    refine ⟨before, (key, bytes), after, hsplit, hfault, fun e' he' => ?_⟩
    have hlt : e'.1.text < key.text := by
      rw [hsplit] at horder
      obtain ⟨-, -, hacross⟩ := List.pairwise_append.1 horder
      exact hacross e' he' _ List.mem_cons_self
    have hheld' : c.store.get map e'.1 = some e'.2 := by
      rw [← Store.mem_entries_iff, hsplit]
      exact List.mem_append_left _ he'
    exact failure?_decode_eq_none_iff.2 (hearlier e'.1 e'.2 hlt hheld')

/-! ## Queries -/

namespace MapHandle

variable {κ : Type} {m : MapHandle κ} {c : Cluster} {p : Predicate} {found : List (Key × Value)}

/-- What a predicate finds are the entries whose values meet it, in the order of the keys. -/
theorem queryCompiled_eq_ok (hc : c.reachable = true) (h : m.queryCompiled c p = .ok found) :
    InKeyOrder found ∧
      ∀ key v, (key, v) ∈ found ↔
        ∃ bytes, c.store.get m.name key = some bytes ∧ Value.decode bytes = .ok v ∧
          p.holds v = true := by
  obtain ⟨matched, hselect, hdecode⟩ := bind_eq_ok h
  rw [Cluster.query_of_reachable hc] at hselect
  obtain ⟨hkeys, hmem⟩ := decodeEntries_eq_ok hdecode
  have hmatched : InKeyOrder matched :=
    (c.store.inKeyOrder_entries m.name).sublist (sublist_of_select hselect)
  refine ⟨inKeyOrder_of_map_fst hkeys hmatched, fun key v => ?_⟩
  simp only [hmem, Cluster.mem_select_iff hselect, Store.mem_entries_iff]
  constructor
  · rintro ⟨bytes, ⟨hheld, w, hw, hholds⟩, hv⟩
    rw [hv] at hw
    cases hw
    exact ⟨bytes, hheld, hv, hholds⟩
  · rintro ⟨bytes, hheld, hv, hholds⟩
    exact ⟨bytes, ⟨hheld, v, hv, hholds⟩, hv⟩

/-- Criteria find something, be it nothing at all, just if they compile and the cluster can be
reached, and every entry of the map can be read. -/
theorem exists_query_eq_ok_iff {criteria : Criteria} :
    (∃ found, m.query c criteria = .ok found) ↔
      (∃ p, criteria.compile = .ok p) ∧ c.reachable = true ∧ c.Legible m.name := by
  have hsome : ∀ {α : Type} {x : Except Error α}, (∃ a, x = .ok a) ↔ failure? x = none :=
    fun {_ x} => by
    cases x <;> simp [failure?]
  rw [hsome]
  cases hp : criteria.compile with
  | error e => simp [query, compile, hp, failure?, bind, Except.bind]
  | ok p =>
    have hquery : m.query c criteria = m.queryCompiled c p := by
      simp only [query, compile, hp, bind, Except.bind]
    rw [hquery]
    cases hc : c.reachable with
    | false =>
      simp [queryCompiled, Cluster.query_eq_error_of_unreachable hc, failure?, bind, Except.bind]
    | true =>
      rw [Operation.failure?_queryCompiled hc, readingFault?_entries_eq_none_iff]
      exact ⟨fun h => ⟨⟨p, rfl⟩, rfl, h⟩, fun h => h.2.2⟩

end MapHandle

variable {κ : Type} [CustomKey κ]

/-- Criteria are answered just if they compile, the cluster can be reached and every entry of the
map can be read, those that do not match too. The answer is the entries whose values meet the
predicate, each under its key with the value of its bytes, in strictly ascending order of the keys;
the keys and the values alone are its two halves. If an entry cannot be read, the failure is that of
the first one that cannot, whatever the predicate. What the cluster has selected is always decoded,
and the cluster stays as it was. -/
theorem query_finds_matching (m : MapHandle κ) (c : Cluster) (criteria : Criteria) :
    ((∃ found, m.query c criteria = .ok found) ↔
      (∃ p, criteria.compile = .ok p) ∧ c.reachable = true ∧ c.Legible m.name) ∧
    (∀ p found, criteria.compile = .ok p → m.query c criteria = .ok found →
      found.Pairwise (fun e f => e.1.text < f.1.text) ∧
      ∀ key v, (key, v) ∈ found ↔
        ∃ bytes, c.store.get m.name key = some bytes ∧ Value.decode bytes = .ok v ∧
          p.holds v = true) ∧
    m.keys c criteria = (m.query c criteria).map (·.map Prod.fst) ∧
    m.values c criteria = (m.query c criteria).map (·.map Prod.snd) ∧
    (∀ p, criteria.compile = .ok p → c.reachable = true → ¬c.Legible m.name →
      ∃ key fault, c.FirstIllegible m.name key fault ∧
        m.query c criteria = .error (.serialization fault.message)) ∧
    (∀ p matched, c.query m.name p = .ok matched →
      ∃ found, MapHandle.decodeEntries matched = .ok found) ∧
    ∀ op : Operation κ, op = .query criteria ∨ op = .keys criteria ∨ op = .values criteria →
      (op.perform m c).2 = c := by
  have hcompiled : ∀ {p}, criteria.compile = .ok p → m.query c criteria = m.queryCompiled c p :=
    fun hp => by
    simp only [MapHandle.query, MapHandle.compile, hp, bind, Except.bind]
  refine ⟨MapHandle.exists_query_eq_ok_iff, ?_, ?_, ?_, ?_, ?_, ?_⟩
  · intro p found hp hfound
    obtain ⟨-, hc, -⟩ := MapHandle.exists_query_eq_ok_iff.1 ⟨found, hfound⟩
    exact MapHandle.queryCompiled_eq_ok hc (hcompiled hp ▸ hfound)
  · rw [MapHandle.keys]
    cases m.query c criteria <;> rfl
  · rw [MapHandle.values]
    cases m.query c criteria <;> rfl
  · intro p hp hc hillegible
    rw [← readingFault?_entries_eq_none_iff, ← ne_eq, Option.ne_none_iff_exists'] at hillegible
    obtain ⟨e, he⟩ := hillegible
    obtain ⟨key, fault, hfirst, rfl⟩ := readingFault?_entries_eq_some_iff.1 he
    refine ⟨key, fault, hfirst, ?_⟩
    rw [hcompiled hp, ← failure?_eq_some_iff, Operation.failure?_queryCompiled hc, he]
  · intro p matched hmatched
    rw [Cluster.query] at hmatched
    obtain ⟨-, -, hselect⟩ := bind_eq_ok hmatched
    have hnone := failure?_decodeEntries_of_select hselect
    cases hdecode : MapHandle.decodeEntries matched with
    | ok found => exact ⟨found, rfl⟩
    | error e =>
      rw [hdecode] at hnone
      contradiction
  · rintro op (rfl | rfl | rfl) <;> rfl

end ClusterMap
