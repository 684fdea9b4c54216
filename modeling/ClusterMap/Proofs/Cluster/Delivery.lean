import ClusterMap.Proofs.Cluster.Ledger

/-!
# What a subscriber gets

The report about a change goes into one queue, that of the partition of its entry, and from there to
every subscriber; whatever the order in which partitions work, a subscriber gets the reports about
one entry in the order of the changes. Main statements: `subscriber_run`, a subscriber is what its
own dealings make of it; `due_run`, what it got about an entry and what it is still to get are
together what it was to get before and the reports about the changes since.
-/

namespace ClusterMap

/-! ## Reports about an entry -/

/-- Whether a batch has a notification about the entry under a key of a map. -/
def Batch.concerns (map : String) (key : Key) (b : Batch) : Bool :=
  b.any fun n => n.map = map && n.key = key

namespace Change

/-- The report about a change concerns the entry that was changed and no other. -/
theorem concerns_batch (map : String) (key : Key) (c : Change) :
    c.batch.concerns map key = c.isOf map key := by
  obtain ⟨map', key', m⟩ := c
  cases m <;> simp [batch, Mutation.sweep, Mutation.rows, Batch.concerns, isOf]

/-- The batches that concern an entry are those of its changes. -/
theorem filter_map_batch (map : String) (key : Key) (cs : List Change) :
    (cs.map batch).filter (Batch.concerns map key) = (cs.filter (isOf map key)).map batch := by
  rw [List.filter_map]
  congr 2
  funext c
  exact concerns_batch map key c

end Change

namespace Relay

variable {σ τ : Type}

/-! ## Queues -/

@[simp] theorem queue_withCluster (r : Relay σ) (c : Cluster) (p : Nat) :
    (r.withCluster c).queue p = (c.queues[p]?).getD [] := rfl

@[simp] theorem carried_withCluster (r : Relay σ) (c : Cluster) :
    (r.withCluster c).carried = r.carried := rfl

/-- A queue with a batch is one of the queues of the cluster. -/
theorem getElem?_of_queue_eq_cons {r : Relay σ} {p : Nat} {batch : Batch} {rest : List Batch}
    (h : r.queue p = batch :: rest) : r.grid.cluster.queues[p]? = some (batch :: rest) := by
  unfold queue at h
  cases hq : r.grid.cluster.queues[p]? with
  | none => rw [hq] at h; contradiction
  | some batches => rw [hq, Option.getD_some] at h; rw [h]

/-- A partition that carries something or has nothing in its queue takes nothing. -/
theorem take_eq_self {r : Relay σ} {p : Nat} (h : r.carried p ≠ [] ∨ r.queue p = []) :
    r.take p = r := by
  unfold take
  split
  · next hc hq =>
    obtain h | h := h
    · exact absurd hc h
    · rw [hq] at h; contradiction
  · rfl

/-- A partition that carries nothing takes its next batch once for every subscriber. -/
theorem take_eq {r : Relay σ} {p : Nat} {batch : Batch} {rest : List Batch} (hc : r.carried p = [])
    (hq : r.queue p = batch :: rest) :
    r.take p =
      ⟨⟨{ r.grid.cluster with queues := r.grid.cluster.queues.set p rest }, r.grid.subscribers⟩,
        fun q =>
        if q = p then (List.range r.grid.subscribers.length).map fun i => (i, batch)
          else r.carried q⟩ := by
  simp only [take, hc, hq]

/-- A partition leaves everything as it is, or carries nothing and takes the first batch of its
queue. -/
theorem take_cases (r : Relay σ) (p : Nat) :
    r.take p = r ∨ ∃ batch rest, r.carried p = [] ∧ r.queue p = batch :: rest := by
  cases hc : r.carried p with
  | cons e carried =>
    exact .inl (take_eq_self (.inl (by rw [hc]; exact List.cons_ne_nil e carried)))
  | nil =>
    cases hq : r.queue p with
    | nil => exact .inl (take_eq_self (.inr hq))
    | cons batch rest => exact .inr ⟨batch, rest, rfl, rfl⟩

/-- A partition that takes a batch takes it out of its own queue. -/
theorem queue_take {r : Relay σ} {p : Nat} {batch : Batch} {rest : List Batch}
    (hc : r.carried p = []) (hq : r.queue p = batch :: rest) (q : Nat) :
    (r.take p).queue q = if q = p then rest else r.queue q := by
  have hlt : p < r.grid.cluster.queues.length :=
    (List.getElem?_eq_some_iff.1 (getElem?_of_queue_eq_cons hq)).1
  rw [take_eq hc hq]
  show ((r.grid.cluster.queues.set p rest)[q]?).getD [] = _
  rw [List.getElem?_set]
  by_cases hqp : p = q
  · subst hqp
    simp [hlt]
  · rw [if_neg hqp, if_neg (Ne.symm hqp)]
    rfl

/-- The report about a change is put into the queue of the partition of its entry. -/
theorem queue_enqueue {r : Relay σ} {n : Nat} (hlength : r.grid.cluster.queues.length = n)
    (hn : 0 < n) (store : Store) (c : Change) (p : Nat) :
    (r.withCluster ({ r.grid.cluster with store }.enqueue c.map c.key c.mutation)).queue p =
      r.queue p ++ if p = partitionOf n c.map c.key then [c.batch] else [] := by
  have hlt : partitionOf n c.map c.key < r.grid.cluster.queues.length := by
    rw [hlength]
    exact partitionOf_lt hn c.map c.key
  have hpartition : ({ r.grid.cluster with store } : Cluster).partitionFor c.map c.key =
      partitionOf n c.map c.key := by rw [← hlength]; rfl
  rw [queue_withCluster, Cluster.enqueue, hpartition, List.getElem?_modify, queue]
  by_cases hp : partitionOf n c.map c.key = p
  · subst hp
    rw [List.getElem?_eq_getElem hlt, if_pos rfl]
    simp [Change.batch]
  · simp [hp, Ne.symm hp]

/-! ## What is still to come -/

/-- The batches of a partition that a subscriber is still to get, in order. -/
def due (r : Relay σ) (i p : Nat) : List Batch :=
  ((r.carried p).filter fun e => e.1 = i).map Prod.snd ++ r.queue p

/-- The reports about an entry that a subscriber is still to get, in order. -/
def dueOf (r : Relay σ) (n i : Nat) (map : String) (key : Key) : List Batch :=
  (r.due i (partitionOf n map key)).filter (Batch.concerns map key)

/-- A relay that is idle owes nobody anything. -/
theorem dueOf_of_idle {r : Relay σ} (h : r.Idle) (n i : Nat) (map : String) (key : Key) :
    r.dueOf n i map key = [] := by
  simp [dueOf, due, (h _).1, (h _).2]

/-- A new relay is idle. -/
theorem idle_start (n : Nat) : (start n : Relay σ).Idle := by
  intro p
  refine ⟨?_, rfl⟩
  simp only [start, queue, Cluster.ofPartitions, List.getElem?_replicate]
  split <;> rfl

/-- A batch that a partition takes is due to those who are subscribed, and lost to those who come
later. -/
theorem due_take (r : Relay σ) (i p q : Nat) :
    ∃ gone, gone ++ (r.take p).due i q = r.due i q ∧
      (i < r.grid.subscribers.length → gone = []) := by
  obtain hself | ⟨batch, rest, hc, hq⟩ := take_cases r p
  · rw [hself]
    exact ⟨[], rfl, fun _ => rfl⟩
  have hcarried : (r.take p).carried q =
      if q = p then (List.range r.grid.subscribers.length).map fun i => (i, batch)
        else r.carried q := by
    rw [take_eq hc hq]
  unfold due
  rw [queue_take hc hq, hcarried]
  by_cases hqp : q = p
  · subst hqp
    have hfilter : (((List.range r.grid.subscribers.length).map fun j => (j, batch)).filter
        fun e => e.1 = i).map Prod.snd = if i < r.grid.subscribers.length then [batch] else [] := by
      rw [List.filter_map, List.map_map]
      split
      · next hi => simp [Function.comp_def, List.filter_eq, List.count_range, hi]
      · next hi => simp [Function.comp_def, List.filter_eq, List.count_range, hi]
    rw [if_pos rfl, if_pos rfl, hfilter, hc, hq]
    split
    · exact ⟨[], rfl, fun _ => rfl⟩
    · next hi => exact ⟨[batch], rfl, fun h => absurd h hi⟩
  · rw [if_neg hqp, if_neg hqp]
    exact ⟨[], rfl, fun _ => rfl⟩

/-- Two relays in which the same batches wait at the same places. -/
structure SameWaiting (r' r : Relay σ) : Prop where
  length : r'.grid.cluster.queues.length = r.grid.cluster.queues.length
  queue : ∀ p, r'.queue p = r.queue p
  carried : r'.carried = r.carried

/-- What is due to a subscriber is decided by what waits. -/
theorem SameWaiting.dueOf {r r' : Relay σ} (h : SameWaiting r' r) (n i : Nat) (map : String)
    (key : Key) :
    r'.dueOf n i map key = r.dueOf n i map key := by
  simp only [Relay.dueOf, due, h.queue, h.carried]

/-! ## Order in the queues -/

/-- Whether a relay has `n` partitions and every batch is where the entries that it concerns
belong. -/
structure Orderly (n : Nat) (r : Relay σ) : Prop where
  length : r.grid.cluster.queues.length = n
  queued : ∀ p, ∀ b ∈ r.queue p, ∀ map key, b.concerns map key = true → partitionOf n map key = p
  carried : ∀ p, ∀ e ∈ r.carried p, ∀ map key, e.2.concerns map key = true →
    partitionOf n map key = p
  beyond : ∀ p, n ≤ p → r.carried p = []

/-- Where nothing waits at the partitions that there are nothing waits at all. -/
theorem Orderly.idle {n : Nat} {r : Relay σ} (h : Orderly n r)
    (hempty : ∀ p < n, r.queue p = [] ∧ r.carried p = []) : r.Idle := by
  intro p
  by_cases hp : p < n
  · exact hempty p hp
  · have hlength : r.grid.cluster.queues.length ≤ p := h.length ▸ Nat.le_of_not_lt hp
    refine ⟨?_, h.beyond p (Nat.le_of_not_lt hp)⟩
    rw [queue, List.getElem?_eq_none hlength, Option.getD_none]

/-- A new relay is orderly. -/
theorem orderly_start (n : Nat) : Orderly n (start n : Relay σ) where
  length := List.length_replicate
  queued p b hb := by
    rw [(idle_start n p).1] at hb
    contradiction
  carried p e he := by contradiction
  beyond p hp := rfl

/-- Whether a relay is orderly is decided by what waits. -/
theorem Orderly.of_same {n : Nat} {r r' : Relay σ} (h : Orderly n r) (hs : SameWaiting r' r) :
    Orderly n r' where
  length := hs.length.trans h.length
  queued p b hb := h.queued p b (hs.queue p ▸ hb)
  carried p e he := h.carried p e (hs.carried ▸ he)
  beyond p hp := hs.carried ▸ h.beyond p hp

/-- Taking a batch keeps a relay orderly. -/
theorem orderly_take {n : Nat} {r : Relay σ} (h : Orderly n r) (p : Nat) :
    Orderly n (r.take p) := by
  obtain hself | ⟨batch, rest, hc, hq⟩ := take_cases r p
  · rw [hself]
    exact h
  have hlength : (r.take p).grid.cluster.queues.length = n := by
    rw [take_eq hc hq]
    exact List.length_set.trans h.length
  have hqueued : ∀ q, ∀ b ∈ (r.take p).queue q, ∀ map key, b.concerns map key = true →
      partitionOf n map key = q := by
    intro q b hb
    rw [queue_take hc hq] at hb
    split at hb
    · next hqp =>
      subst hqp
      exact h.queued q b (hq ▸ List.mem_cons_of_mem batch hb)
    · exact h.queued q b hb
  have hcarried : ∀ q, ∀ e ∈ (r.take p).carried q, ∀ map key, e.2.concerns map key = true →
      partitionOf n map key = q := by
    intro q e he
    rw [take_eq hc hq] at he
    simp only at he
    split at he
    · next hqp =>
      subst hqp
      obtain ⟨i, -, rfl⟩ := List.mem_map.1 he
      exact h.queued q batch (hq ▸ List.mem_cons_self)
    · exact h.carried q e he
  have hbeyond : ∀ q, n ≤ q → (r.take p).carried q = [] := by
    intro q hle
    have hlt : p < n := h.length ▸ (List.getElem?_eq_some_iff.1 (getElem?_of_queue_eq_cons hq)).1
    have hqp : q ≠ p := by omega
    rw [take_eq hc hq]
    exact (if_neg hqp).trans (h.beyond q hle)
  exact ⟨hlength, hqueued, hcarried, hbeyond⟩

/-- Changing one subscriber changes no other one. -/
theorem getElem?_modifySubscriber (g : Grid σ) (i j : Nat) (f : σ → σ) :
    (g.modifySubscriber j f).subscribers[i]? =
      (g.subscribers[i]?).map fun s => if j = i then f s else s :=
  List.getElem?_modify _ _ _ _

variable [Subscriber σ]

/-- A partition that carries nothing passes nothing on. -/
theorem pass_eq_self {r : Relay σ} {p : Nat} (h : r.carried p = []) : r.pass p = r := by
  simp only [pass, h]

/-- A partition passes the first batch that it carries to its subscriber. -/
theorem pass_eq {r : Relay σ} {p i : Nat} {batch : Batch} {rest : List (Nat × Batch)}
    (h : r.carried p = (i, batch) :: rest) :
    r.pass p = ⟨r.grid.modifySubscriber i fun s => Subscriber.receive s batch, fun q =>
      if q = p then rest else r.carried q⟩ := by
  simp only [pass, h]

@[simp] theorem queue_pass (r : Relay σ) (p q : Nat) : (r.pass p).queue q = r.queue q := by
  unfold pass
  split <;> rfl

/-- Passing a batch on keeps a relay orderly. -/
theorem orderly_pass {n : Nat} {r : Relay σ} (h : Orderly n r) (p : Nat) :
    Orderly n (r.pass p) := by
  cases hc : r.carried p with
  | nil => rw [pass_eq_self hc]; exact h
  | cons e rest =>
    obtain ⟨i, batch⟩ := e
    have hlength : (r.pass p).grid.cluster.queues.length = n := by
      rw [pass_eq hc]
      exact h.length
    have hcarried : ∀ q, ∀ e ∈ (r.pass p).carried q, ∀ map key, e.2.concerns map key = true →
        partitionOf n map key = q := by
      intro q e he
      rw [pass_eq hc] at he
      simp only at he
      split at he
      · next hqp =>
        subst hqp
        exact h.carried q e (hc ▸ List.mem_cons_of_mem _ he)
      · exact h.carried q e he
    have hbeyond : ∀ q, n ≤ q → (r.pass p).carried q = [] := by
      intro q hq
      have hqp : q ≠ p := fun hqp => by
        rw [← hqp, h.beyond q hq] at hc
        contradiction
      rw [pass_eq hc]
      exact (if_neg hqp).trans (h.beyond q hq)
    exact ⟨hlength, fun q b hb => h.queued q b (queue_pass r p q ▸ hb), hcarried, hbeyond⟩

/-! ## Dealings of a subscriber -/

/-- What happens to a subscriber: it gets a batch, or does something on its own. -/
inductive Dealing (τ : Type) where
  | get (batch : Batch)
  | act (step : τ)

/-- What happens to the subscriber of a number in a turn. -/
def dealing (r : Relay σ) (i : Nat) : Turn τ → List (Dealing τ)
  | .pass p =>
    match r.carried p with
    | (j, batch) :: _ => if j = i then [.get batch] else []
    | [] => []
  | .act j step => if j = i then [.act step] else []
  | _ => []

/-- The batches that were got. -/
def received (ds : List (Dealing τ)) : List Batch :=
  ds.filterMap fun
    | .get batch => some batch
    | .act _ => none

/-- What was received in two parts of a history was received in the parts. -/
theorem received_append (ds ds' : List (Dealing τ)) :
    received (ds ++ ds') = received ds ++ received ds' :=
  List.filterMap_append

/-- What a partition passes on is due no more. -/
theorem due_pass (r : Relay σ) (i p q : Nat) :
    (if q = p then received (r.dealing i (.pass p : Turn τ)) else []) ++ (r.pass p).due i q =
      r.due i q := by
  unfold due
  rw [queue_pass]
  cases hp : r.carried p with
  | nil => simp [dealing, hp, pass_eq_self hp, received]
  | cons e rest =>
    obtain ⟨j, batch⟩ := e
    rw [pass_eq hp]
    by_cases hqp : q = p
    · subst hqp
      by_cases hj : j = i
      · simp [dealing, hp, hj, received]
      · simp [dealing, hp, hj, received]
    · simp [hqp]

/-! ## Turns -/

variable [Inhabited σ] (act : σ → τ → σ)

/-- What a turn may do to the batches that wait: queue the report about a change, have a partition
take a batch or pass one on, or leave them alone. -/
theorem waiting_turn (r : Relay σ) (t : Turn τ) :
    (∃ c, r.ledger.change? t = some c ∧ ∃ store : Store, r.turn act t =
        r.withCluster ({ r.grid.cluster with store }.enqueue c.map c.key c.mutation)) ∨
      (∃ p, t = .take p) ∨ (∃ p, t = .pass p) ∨
      (r.ledger.change? t = none ∧ (∀ i, received (r.dealing i t) = []) ∧
        SameWaiting (r.turn act t) r) := by
  cases hc : r.ledger.change? t with
  | some c =>
    obtain ⟨store, hturn, -⟩ := turn_of_change? act hc
    exact .inl ⟨c, rfl, store, hturn⟩
  | none =>
    cases t with
    | take p => exact .inr (.inl ⟨p, rfl⟩)
    | pass p => exact .inr (.inr (.inl ⟨p, rfl⟩))
    | mutate map key value action =>
      refine .inr (.inr (.inr ⟨rfl, fun i => rfl, ?_⟩))
      rw [turn_of_change?_eq_none act hc]
      exact ⟨rfl, fun p => rfl, rfl⟩
    | clear map =>
      refine .inr (.inr (.inr ⟨rfl, fun i => rfl, ?_⟩))
      cases hr : r.grid.cluster.reachable with
      | true =>
        simp only [turn, Cluster.clear_of_reachable hr]
        exact ⟨rfl, fun p => rfl, rfl⟩
      | false =>
        simp only [turn, Cluster.clear_eq_error_of_unreachable hr]
        exact ⟨rfl, fun p => rfl, rfl⟩
    | setReachable reachable => exact .inr (.inr (.inr ⟨rfl, fun i => rfl, rfl, fun p => rfl, rfl⟩))
    | connect => exact .inr (.inr (.inr ⟨rfl, fun i => rfl, rfl, fun p => rfl, rfl⟩))
    | act j step =>
      refine .inr (.inr (.inr ⟨rfl, fun i => ?_, rfl, fun p => rfl, rfl⟩))
      simp only [dealing]
      split <;> rfl

/-- Every turn keeps a relay orderly. -/
theorem orderly_turn {n : Nat} (hn : 0 < n) {r : Relay σ} (h : Orderly n r) (t : Turn τ) :
    Orderly n (r.turn act t) := by
  obtain ⟨c, -, store, hturn⟩ | ⟨p, rfl⟩ | ⟨p, rfl⟩ | ⟨-, -, hsame⟩ := waiting_turn act r t
  · rw [hturn]
    refine ⟨(List.length_modify _ _ _).trans h.length, ?_, h.carried, h.beyond⟩
    intro p b hb map key hb'
    rw [queue_enqueue h.length hn, List.mem_append] at hb
    obtain hb | hb := hb
    · exact h.queued p b hb map key hb'
    · split at hb
      · next hp =>
        rw [List.mem_singleton.1 hb, Change.concerns_batch] at hb'
        simp only [Change.isOf, Bool.and_eq_true, decide_eq_true_eq] at hb'
        rw [hp, hb'.1, hb'.2]
      · contradiction
  · exact orderly_take h p
  · exact orderly_pass h p
  · exact h.of_same hsame

/-- Every run keeps a relay orderly. -/
theorem orderly_run {n : Nat} (hn : 0 < n) {r : Relay σ} (h : Orderly n r) (turns : List (Turn τ)) :
    Orderly n (r.run act turns) := by
  induction turns generalizing r with
  | nil => exact h
  | cons t turns ih => exact ih (orderly_turn act hn h t)

/-- What happens to the subscriber of a number in a run. -/
def dealings (act : σ → τ → σ) (i : Nat) (r : Relay σ) : List (Turn τ) → List (Dealing τ)
  | [] => []
  | t :: turns => r.dealing i t ++ (r.turn act t).dealings act i turns

/-- What a dealing makes of a subscriber. -/
def deal (act : σ → τ → σ) (s : σ) : Dealing τ → σ
  | .get batch => Subscriber.receive s batch
  | .act step => act s step

/-- A turn does to a subscriber what is dealt to it, and nothing else. -/
theorem subscriber_turn {r : Relay σ} {i : Nat} {s : σ} (h : r.grid.subscribers[i]? = some s)
    (t : Turn τ) :
    (r.turn act t).grid.subscribers[i]? = some ((r.dealing i t).foldl (deal act) s) := by
  cases hc : r.ledger.change? t with
  | some c =>
    obtain ⟨value, action, rfl, -⟩ := Ledger.eq_mutate_of_change? hc
    obtain ⟨store, hturn, -⟩ := turn_of_change? act hc
    rw [hturn]
    exact h
  | none =>
    cases t with
    | mutate map key value action => rw [turn_of_change?_eq_none act hc]; exact h
    | clear map =>
      simp only [turn]
      split <;> exact h
    | setReachable reachable => exact h
    | connect =>
      show (r.grid.subscribers ++ [default])[i]? = some s
      rw [List.getElem?_append_left (List.getElem?_eq_some_iff.1 h).1, h]
    | take p =>
      simp only [turn, take]
      split <;> exact h
    | pass p =>
      simp only [turn, dealing]
      cases hp : r.carried p with
      | nil => rw [pass_eq_self hp]; exact h
      | cons e rest =>
        obtain ⟨j, batch⟩ := e
        rw [pass_eq hp, getElem?_modifySubscriber, h, Option.map_some]
        by_cases hj : j = i
        · simp [hj, deal]
        · simp [hj]
    | act j step =>
      simp only [turn, dealing]
      rw [getElem?_modifySubscriber, h, Option.map_some]
      by_cases hj : j = i
      · simp [hj, deal]
      · simp [hj]

/-- A subscriber is what its own dealings make of it, whatever happens elsewhere. -/
theorem subscriber_run {r : Relay σ} {i : Nat} {s : σ} (h : r.grid.subscribers[i]? = some s)
    (turns : List (Turn τ)) :
    (r.run act turns).grid.subscribers[i]? =
      some ((r.dealings act i turns).foldl (deal act) s) := by
  induction turns generalizing r s with
  | nil => exact h
  | cons t turns ih =>
    rw [run_cons, ih (subscriber_turn act h t), dealings, List.foldl_append]

/-- What holds of a new subscriber and is kept by what is dealt in a turn holds of every subscriber
after it. -/
theorem forall_subscribers_turn {P : σ → Prop} (hnew : P default) {r : Relay σ} {t : Turn τ}
    (hdeal : ∀ s i, ∀ d ∈ r.dealing i t, P s → P (deal act s d))
    (h : ∀ s ∈ r.grid.subscribers, P s) :
    ∀ s ∈ (r.turn act t).grid.subscribers, P s := by
  have hmodify : ∀ (i : Nat) (d : Dealing τ), d ∈ r.dealing i t →
      ∀ s ∈ (r.grid.modifySubscriber i fun s => deal act s d).subscribers, P s := by
    intro i d hd s hs
    obtain ⟨j, hj⟩ := List.mem_iff_getElem?.1 hs
    rw [getElem?_modifySubscriber] at hj
    obtain ⟨s', hs', rfl⟩ := Option.map_eq_some_iff.1 hj
    have hP := h s' (List.mem_of_getElem? hs')
    split
    · exact hdeal s' i d hd hP
    · exact hP
  cases t with
  | mutate map key value action =>
    simp only [turn]
    split <;> exact h
  | clear map =>
    simp only [turn]
    split <;> exact h
  | setReachable reachable => exact h
  | connect =>
    intro s hs
    obtain hs | hs := List.mem_append.1 hs
    · exact h s hs
    · rw [List.mem_singleton.1 hs]
      exact hnew
  | take p =>
    simp only [turn, take]
    split <;> exact h
  | pass p =>
    simp only [turn]
    cases hp : r.carried p with
    | nil => rw [pass_eq_self hp]; exact h
    | cons e rest =>
      rw [pass_eq hp]
      exact hmodify e.1 (.get e.2) (by simp [dealing, hp])
  | act j step => exact hmodify j (.act step) (by simp [dealing])

/-- One turn on the way of the reports about an entry: a change sends one more, and what is gone the
subscriber has got, if it was there. -/
theorem due_turn {n : Nat} (hn : 0 < n) {r : Relay σ} (h : Orderly n r) (i : Nat)
    (map : String) (key : Key) (t : Turn τ) :
    ∃ gone, gone ++ (r.turn act t).dueOf n i map key =
        r.dueOf n i map key ++ ((r.ledger.change? t).toList.filter (Change.isOf map key)).map
          Change.batch ∧
      (i < r.grid.subscribers.length →
        gone = (received (r.dealing i t)).filter (Batch.concerns map key)) := by
  obtain ⟨c, hc, store, hturn⟩ | ⟨p, rfl⟩ | ⟨p, rfl⟩ | ⟨hc, hreceived, hsame⟩ :=
    waiting_turn act r t
  · obtain ⟨value, action, rfl, -⟩ := Ledger.eq_mutate_of_change? hc
    refine ⟨[], ?_, fun _ => rfl⟩
    have hqueued :
        (if partitionOf n map key = partitionOf n c.map c.key then [c.batch] else []).filter
        (Batch.concerns map key) = ([c].filter (Change.isOf map key)).map Change.batch := by
      by_cases hof : c.isOf map key = true
      · have hentry := hof
        simp only [Change.isOf, Bool.and_eq_true, decide_eq_true_eq] at hentry
        simp [hentry.1, hentry.2, ← Change.filter_map_batch]
      · split <;> simp [Change.concerns_batch, hof]
    rw [List.nil_append, hturn, hc, Option.toList_some, ← hqueued, dueOf, dueOf,
      ← List.filter_append, due, due, queue_enqueue h.length hn, List.append_assoc,
      carried_withCluster]
  · obtain ⟨gone, hdue, hgone⟩ := due_take r i p (partitionOf n map key)
    refine ⟨gone.filter (Batch.concerns map key), ?_, fun hi => by rw [hgone hi]; rfl⟩
    simp only [Ledger.change?, Option.toList_none, List.filter_nil, List.map_nil, List.append_nil]
    rw [dueOf, dueOf, ← hdue, List.filter_append]
    rfl
  · obtain ⟨passed, hpassed⟩ : ∃ passed, passed = received (r.dealing i (.pass p : Turn τ)) :=
      ⟨_, rfl⟩
    refine ⟨passed.filter (Batch.concerns map key), ?_, fun _ => by rw [hpassed]⟩
    rw [hpassed]
    have hdue := @due_pass σ τ _ r i p (partitionOf n map key)
    simp only [Ledger.change?, Option.toList_none, List.filter_nil, List.map_nil, List.append_nil]
    rw [dueOf, dueOf, ← hdue, List.filter_append]
    by_cases hp : partitionOf n map key = p
    · rw [if_pos hp]
      rfl
    -- a batch from another partition has no report about this entry
    · have hnone :
          (received (r.dealing i (.pass p : Turn τ))).filter (Batch.concerns map key) = [] := by
        rw [List.filter_eq_nil_iff]
        intro b hb hconcerns
        cases hcarried : r.carried p with
        | nil => simp [dealing, hcarried, received] at hb
        | cons e rest =>
          obtain ⟨j, batch⟩ := e
          have hbatch : b = batch := by
            simp only [dealing, hcarried] at hb
            split at hb
            · simpa [received] using hb
            · simp [received] at hb
          subst hbatch
          exact hp (h.carried p (j, b) (hcarried ▸ List.mem_cons_self) map key hconcerns)
      rw [if_neg hp, hnone]
      rfl
  · refine ⟨[], ?_, fun _ => by rw [hreceived]; rfl⟩
    rw [hsame.dueOf, hc]
    simp

/-- What a subscriber got about an entry and what it is still to get are together what it was to get
before and the reports about the changes since. Who was not there yet may have lost some of the
earlier ones. -/
theorem due_run {n : Nat} (hn : 0 < n) {r : Relay σ} (h : Orderly n r) (i : Nat)
    (map : String) (key : Key) (turns : List (Turn τ)) :
    ∃ gone, gone ++ (r.run act turns).dueOf n i map key =
        r.dueOf n i map key ++
          ((r.ledger.changes turns).filter (Change.isOf map key)).map Change.batch ∧
      (i < r.grid.subscribers.length →
        gone = (received (r.dealings act i turns)).filter (Batch.concerns map key)) := by
  induction turns generalizing r with
  | nil => exact ⟨[], by simp [Ledger.changes], fun _ => rfl⟩
  | cons t turns ih =>
    obtain ⟨gone, hgone, hgot⟩ := due_turn act hn h i map key t
    obtain ⟨gone', hgone', hgot'⟩ := ih (orderly_turn act hn h t)
    refine ⟨gone ++ gone', ?_, fun hi => ?_⟩
    · rw [run_cons, List.append_assoc, hgone', ← List.append_assoc, hgone, ledger_turn,
        Ledger.changes, List.filter_append, List.map_append, List.append_assoc]
    · have hi' : i < (r.turn act t).grid.subscribers.length :=
        (List.getElem?_eq_some_iff.1 (subscriber_turn act (List.getElem?_eq_getElem hi) t)).1
      rw [hgot hi, hgot' hi', dealings, received_append, List.filter_append]

/-- What a subscriber has got about an entry since some moment and what it is still to get are
together the last of the reports about all changes, and all of them if there was no change before
that moment. -/
theorem received_since {n : Nat} (hn : 0 < n) (before turns : List (Turn τ)) {i : Nat}
    (hi : i < ((start n).run act before).grid.subscribers.length) (map : String) (key : Key) :
    ∃ gone, gone ++ ((received (((start n).run act before).dealings act i turns)).filter
          (Batch.concerns map key) ++ ((start n).run act (before ++ turns)).dueOf n i map key) =
        ((Ledger.opening.changes (before ++ turns)).filter (Change.isOf map key)).map Change.batch ∧
      (Ledger.opening.changes before = [] → gone = []) := by
  have horderly := orderly_run act hn (orderly_start n) before
  have hledger : (start n : Relay σ).ledger = Ledger.opening := rfl
  obtain ⟨gone, hgone, -⟩ := due_run act hn (orderly_start n) i map key before
  obtain ⟨got, hgot, hreceived⟩ := due_run act hn horderly i map key turns
  rw [dueOf_of_idle (idle_start n), List.nil_append, hledger] at hgone
  rw [ledger_run, hledger] at hgot
  refine ⟨gone, ?_, fun hnone => ?_⟩
  · rw [run_append, ← hreceived hi, hgot, ← List.append_assoc, hgone, ← List.map_append,
      ← List.filter_append, Ledger.changes_append]
  · rw [hnone, List.filter_nil, List.map_nil, List.append_eq_nil_iff] at hgone
    exact hgone.1

end Relay

end ClusterMap
