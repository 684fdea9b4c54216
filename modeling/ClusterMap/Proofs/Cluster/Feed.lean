import ClusterMap.Proofs.Cluster.Delivery

/-!
# What the feed tells about the store

A sink that was subscribed from the start records the batches of a cluster. The last of them about
an entry tells what the cluster holds, unless the map was cleared since, which no batch tells; and
every batch alone tells which change it reports. Main statements: `held_after`, what is held after
turns that do not change the entry; `feed_determines_store`.
-/

namespace ClusterMap

open Relay (Turn)

/-! ## Reading a batch -/

namespace Batch

/-- The value of the row that reports the update. -/
def updated? (b : Batch) : Option Bytes :=
  (b.find? fun n => n.category = .updated).bind Notification.value

/-- The change that a batch reports. -/
def mutation? (b : Batch) : Option Mutation :=
  match (b.map fun n => (n.category, n.value) : List (Category × Option Bytes)) with
  | [(.added, some value), _, _, _] => some (.inserted value)
  | [(.updated, some value), _] => some (.overwritten value)
  | [(.removed, some previous), _, _] => some (.removed previous)
  | [(.evicted, none)] => some .evicted
  | _ => none

end Batch

namespace Change

/-- A batch tells which change it reports. -/
theorem mutation?_batch (c : Change) : c.batch.mutation? = some c.mutation := by
  obtain ⟨map, key, m⟩ := c
  cases m <;> rfl

/-- The row of the update carries what the change leaves under the key. -/
theorem updated?_batch (c : Change) : c.batch.updated? = c.mutation.result := by
  obtain ⟨map, key, m⟩ := c
  cases m <;> rfl

end Change

/-- Only an entry that is absent is reported as added. -/
theorem Ledger.added_mem_batch_iff {τ : Type} {l : Ledger} {t : Turn τ} {c : Change}
    (h : l.change? t = some c) :
    .added ∈ c.batch.map Notification.category ↔ l.held c.map c.key = none := by
  obtain ⟨value, action, -, -, hm⟩ := eq_mutate_of_change? h
  generalize l.held c.map c.key = held at hm
  rw [Change.batch]
  generalize c.mutation = m at hm
  cases action <;> cases value <;> cases held <;> cases hm <;> simp [Mutation.sweep, Mutation.rows]

/-! ## What is held between changes -/

namespace Ledger

variable {τ : Type}

/-- Whether a turn clears a map. -/
def clearsIn (l : Ledger) (map : String) : Turn τ → Bool
  | .clear other => l.reachable && other = map
  | _ => false

/-- Whether a map is cleared in the course of a list of turns. -/
def clears (l : Ledger) (map : String) : List (Turn τ) → Bool
  | [] => false
  | t :: turns => l.clearsIn map t || (l.enter t).clears map turns

/-- What a turn leaves under a key that it does not change. -/
theorem held_enter {l : Ledger} {t : Turn τ} {map : String} {key : Key}
    (h : ∀ c, l.change? t = some c → c.isOf map key = false) :
    (l.enter t).held map key = if l.clearsIn map t then none else l.held map key := by
  cases hc : l.change? t with
  | some c =>
    obtain ⟨value, action, rfl, -⟩ := eq_mutate_of_change? hc
    have hother : ¬(map = c.map ∧ key = c.key) := by
      rintro ⟨rfl, rfl⟩
      simpa [Change.isOf] using h c hc
    rw [enter_of_change? hc, record]
    simp only [if_neg hother, clearsIn, Bool.false_eq_true, if_false]
  | none =>
    cases t with
    | clear other =>
      simp only [enter, hc, clearsIn]
      by_cases hr : l.reachable = true
      · have heq : map = other ↔ other = map := eq_comm
        simp [hr, erase, heq]
      · simp [hr]
    | _ =>
      simp only [enter, hc, clearsIn, Bool.false_eq_true, if_false]

/-- What is held under a key after turns that do not change it. -/
theorem held_after {l : Ledger} {turns : List (Turn τ)} {map : String} {key : Key}
    (h : ∀ c ∈ l.changes turns, c.isOf map key = false) :
    (l.after turns).held map key = if l.clears map turns then none else l.held map key := by
  induction turns generalizing l with
  | nil => rfl
  | cons t turns ih =>
    have hfirst : ∀ c, l.change? t = some c → c.isOf map key = false := fun c hc =>
      h c (List.mem_append_left _ (by rw [hc]; exact List.mem_singleton_self c))
    have hrest : (l.after (t :: turns)).held map key =
        if (l.enter t).clears map turns then none else (l.enter t).held map key :=
      ih fun c hc => h c (List.mem_append_right _ hc)
    rw [hrest, held_enter hfirst, clears]
    cases l.clearsIn map t <;> simp

/-- A history that changes an entry has a last turn that does. -/
theorem exists_last_change {l : Ledger} {turns : List (Turn τ)} {p : Change → Bool} {c : Change}
    (h : ((l.changes turns).filter p).getLast? = some c) :
    ∃ pre t post, turns = pre ++ t :: post ∧ (l.after pre).change? t = some c ∧ p c = true ∧
      ∀ c' ∈ ((l.after pre).enter t).changes post, p c' = false := by
  induction turns generalizing l with
  | nil => contradiction
  | cons t turns ih =>
    rw [changes, List.filter_append, List.getLast?_append] at h
    cases hrest : (((l.enter t).changes turns).filter p).getLast? with
    | some c' =>
      rw [hrest, Option.some_or] at h
      obtain ⟨pre, t', post, rfl, hchange, hp, hlast⟩ := ih (hrest.trans h)
      exact ⟨t :: pre, t', post, rfl, hchange, hp, hlast⟩
    | none =>
      rw [hrest, Option.none_or] at h
      have hmem := List.mem_of_getLast? h
      rw [List.mem_filter, Option.mem_toList] at hmem
      refine ⟨[], t, turns, rfl, hmem.1, hmem.2, fun c' hc' => ?_⟩
      simpa using List.filter_eq_nil_iff.1 (List.getLast?_eq_none_iff.1 hrest) c' hc'

/-- Under a key that no turn changed is what was there, unless its map was cleared. -/
theorem held_after_of_getLast?_eq_none {l : Ledger} {turns : List (Turn τ)}
    {map : String} {key : Key}
    (h : ((l.changes turns).filter (Change.isOf map key)).getLast? = none) :
    (l.after turns).held map key = if l.clears map turns then none else l.held map key := by
  refine held_after fun c hc => ?_
  simpa using List.filter_eq_nil_iff.1 (List.getLast?_eq_none_iff.1 h) c hc

/-- Under a key is what the last change of it left there, unless its map was cleared since. -/
theorem held_after_of_getLast? {l : Ledger} {turns : List (Turn τ)} {map : String} {key : Key}
    {c : Change} (h : ((l.changes turns).filter (Change.isOf map key)).getLast? = some c) :
    ∃ pre t post m, c = ⟨map, key, m⟩ ∧ turns = pre ++ t :: post ∧
      (l.after pre).change? t = some c ∧
      (∀ c' ∈ (l.after (pre ++ [t])).changes post, c'.isOf map key = false) ∧
      (l.after turns).held map key = if (l.after (pre ++ [t])).clears map post then none
        else m.result := by
  obtain ⟨pre, t, post, rfl, hc, hof, hpost⟩ := exists_last_change h
  obtain ⟨map, key, m⟩ := c
  simp only [Change.isOf, Bool.and_eq_true, decide_eq_true_eq] at hof
  obtain ⟨rfl, rfl⟩ := hof
  have hthen : l.after (pre ++ [t]) = (l.after pre).enter t := after_append l pre [t]
  have hresult : ((l.after pre).enter t).held map key = m.result := by
    rw [enter_of_change? hc, record]
    exact if_pos ⟨rfl, rfl⟩
  refine ⟨pre, t, post, m, rfl, rfl, hc, hthen ▸ hpost, ?_⟩
  rw [List.append_cons, after_append, hthen, held_after hpost, hresult]

end Ledger

/-! ## Sinks -/

namespace Relay

/-- A sink does nothing on its own. -/
def still (_ : List Batch) (step : Empty) : List Batch := nomatch step

/-- A feed keeps every batch that it receives, in order. -/
theorem foldl_deal_still (feed : List Batch) (ds : List (Dealing Empty)) :
    ds.foldl (deal still) feed = feed ++ received ds := by
  induction ds generalizing feed with
  | nil => exact (List.append_nil feed).symm
  | cons d ds ih =>
    cases d with
    | act step => exact nomatch step
    | get batch =>
      have hrest : received (.get batch :: ds) = batch :: received ds := rfl
      rw [List.foldl_cons, ih, hrest, List.append_cons]
      rfl

section Idle

variable {σ τ : Type} [Subscriber σ]

omit [Subscriber σ] in
/-- Nobody receives anything from a relay that is idle. -/
theorem get_notMem_dealing {r : Relay σ} (h : r.Idle) (i : Nat) (t : Turn τ) (batch : Batch) :
    .get batch ∉ r.dealing i t := by
  cases t with
  | pass p => simp [dealing, (h p).2]
  | act j step =>
    simp only [dealing]
    split <;> simp
  | _ => simp [dealing]

/-- Where nothing waits nothing comes to wait but for a change. -/
theorem idle_turn [Inhabited σ] {act : σ → τ → σ} {r : Relay σ} (h : r.Idle) {t : Turn τ}
    (hc : r.ledger.change? t = none) : (r.turn act t).Idle := by
  obtain ⟨c, hc', -⟩ | ⟨p, rfl⟩ | ⟨p, rfl⟩ | ⟨-, -, hsame⟩ := waiting_turn act r t
  · rw [hc] at hc'
    contradiction
  · have hstay : r.turn act (.take p : Turn τ) = r := take_eq_self (.inr (h p).1)
    rw [hstay]
    exact h
  · have hstay : r.turn act (.pass p : Turn τ) = r := pass_eq_self (h p).2
    rw [hstay]
    exact h
  · intro p
    rw [hsame.queue, hsame.carried]
    exact h p

end Idle

/-- Clearing a map leaves what waits and what was got alone. -/
theorem sameWaiting_clear {σ τ : Type} [Subscriber σ] [Inhabited σ] (act : σ → τ → σ) (r : Relay σ)
    (map : String) :
    SameWaiting (r.turn act (.clear map)) r ∧
      (r.turn act (.clear map)).grid.subscribers = r.grid.subscribers := by
  constructor
  · obtain ⟨c, hc, -⟩ | ⟨p, hp⟩ | ⟨p, hp⟩ | ⟨-, -, hsame⟩ := waiting_turn act r (.clear map)
    · contradiction
    · contradiction
    · contradiction
    · exact hsame
  · simp only [turn]
    split <;> rfl

/-- Before the first change a sink has got nothing. -/
theorem feed_eq_nil {turns : List (Turn Empty)} {r : Relay (List Batch)} (hidle : r.Idle)
    (hfeeds : ∀ feed ∈ r.grid.subscribers, feed = []) (h : r.ledger.changes turns = []) :
    ∀ feed ∈ (r.run still turns).grid.subscribers, feed = [] := by
  induction turns generalizing r with
  | nil => exact hfeeds
  | cons t turns ih =>
    obtain ⟨hfirst, hrest⟩ := List.append_eq_nil_iff.1 h
    have hc : r.ledger.change? t = none := Option.toList_eq_nil_iff.1 hfirst
    refine ih (idle_turn hidle hc) ?_ (by rw [ledger_turn]; exact hrest)
    refine forall_subscribers_turn still (P := fun feed => feed = []) rfl
      (fun feed i d hd hfeed => ?_) hfeeds
    cases d with
    | act step => exact nomatch step
    | get batch => exact absurd hd (get_notMem_dealing hidle i t batch)

/-- What a sink that was subscribed before the first change got about an entry are the reports about
all its changes, once nothing is on its way any more. -/
theorem feed_eq_reports {n : Nat} (hn : 0 < n) {before turns : List (Turn Empty)} {i : Nat}
    (hbefore : Ledger.opening.changes before = [])
    (hi : i < ((start n).run still before).grid.subscribers.length)
    (hidle : ((start n).run still (before ++ turns)).Idle) (map : String) (key : Key) :
    ∃ feed, ((start n).run still (before ++ turns)).grid.subscribers[i]? = some feed ∧
      feed.filter (Batch.concerns map key) =
        ((Ledger.opening.changes (before ++ turns)).filter (Change.isOf map key)).map
          Change.batch := by
  have hnone : ∀ feed ∈ ((start n).run still before).grid.subscribers, feed = [] :=
    feed_eq_nil (idle_start n) (fun feed hfeed => by contradiction) hbefore
  have hsink : ((start n).run still before).grid.subscribers[i]? = some [] := by
    rw [List.getElem?_eq_getElem hi, hnone _ (List.getElem_mem hi)]
  obtain ⟨gone, hstory, hgone⟩ := received_since still hn before turns hi map key
  rw [hgone hbefore, List.nil_append, dueOf_of_idle hidle, List.append_nil] at hstory
  have hfeed := subscriber_run still hsink turns
  rw [foldl_deal_still, List.nil_append, ← run_append] at hfeed
  exact ⟨_, hfeed, hstory⟩

/-! ## The feed and the store -/

/-- The feed of a sink that was subscribed before the first change, once nothing is on its way any
more. What it got about an entry are the reports about all changes of the entry. If there is none,
nothing is held; if there is one, the last of them carries in the row of the update what is held,
unless a clearing came behind the change that it reports: then nothing is held. Every report tells
its change, and calls the entry added just if it was absent; clearing a map reports nothing. -/
theorem feed_determines_store {n : Nat} (hn : 0 < n) (before turns : List (Turn Empty)) {i : Nat}
    (hbefore : Ledger.opening.changes before = [])
    (hi : i < ((start n).run still before).grid.subscribers.length)
    (hidle : ((start n).run still (before ++ turns)).Idle) (map : String) (key : Key) :
    let state (turns : List (Turn Empty)) : Relay (List Batch) := (start n).run still turns
    let all := before ++ turns
    let cluster := (state all).grid.cluster
    let held := cluster.store.get map key
    (cluster.reachable = true → cluster.get map key = .ok held) ∧
      (∃ feed, (state all).grid.subscribers[i]? = some feed ∧
        feed.filter (Batch.concerns map key) =
          ((Ledger.opening.changes all).filter (Change.isOf map key)).map Change.batch ∧
        match (feed.filter (Batch.concerns map key)).getLast? with
        | none => held = none
        | some batch => ∃ pre t post m, all = pre ++ t :: post ∧
            (state pre).ledger.change? t = some ⟨map, key, m⟩ ∧ batch = m.sweep map key ∧
            (∀ c ∈ (state (pre ++ [t])).ledger.changes post, c.isOf map key = false) ∧
            held = if (state (pre ++ [t])).ledger.clears map post then none else batch.updated?) ∧
      (∀ pre t post c, all = pre ++ t :: post → (state pre).ledger.change? t = some c →
        c.batch.mutation? = some c.mutation ∧
        (.added ∈ c.batch.map Notification.category ↔
          (state pre).grid.cluster.store.get c.map c.key = none)) ∧
      ∀ pre other post, all = pre ++ .clear other :: post →
        SameWaiting (state (pre ++ [.clear other])) (state pre) ∧
        (state (pre ++ [.clear other])).grid.subscribers = (state pre).grid.subscribers := by
  intro state all cluster held
  have hledger : ∀ turns, (state turns).ledger = Ledger.opening.after turns := fun turns =>
    ledger_run still (start n) turns
  have hheld : held = (Ledger.opening.after all).held map key := by rw [← hledger]; rfl
  obtain ⟨feed, hfeed, hreports⟩ := feed_eq_reports hn hbefore hi hidle map key
  refine ⟨fun hr => ?_, ⟨feed, hfeed, hreports, ?_⟩, fun pre t post c _ hc =>
    ?_, fun pre other post _ => ?_⟩
  · exact Cluster.get_of_reachable hr map key
  · rw [hreports, List.getLast?_map]
    cases hlast : ((Ledger.opening.changes all).filter (Change.isOf map key)).getLast? with
    | none =>
      show held = none
      rw [hheld, Ledger.held_after_of_getLast?_eq_none hlast]
      split <;> rfl
    | some c =>
      obtain ⟨pre, t, post, m, rfl, hsplit, hc, hpost, hlater⟩ :=
        Ledger.held_after_of_getLast? hlast
      refine ⟨pre, t, post, m,
        hsplit, by rw [hledger]; exact hc, rfl, by rw [hledger]; exact hpost, ?_⟩
      rw [hheld, hlater, hledger, Change.updated?_batch]
  · exact ⟨c.mutation?_batch, Ledger.added_mem_batch_iff hc⟩
  · have hclear := sameWaiting_clear still (state pre) other
    have hstate : state (pre ++ [.clear other]) = (state pre).turn still (.clear other) :=
      run_append still (start n) pre [.clear other]
    rw [hstate]
    exact hclear

/-- An entry is stored and reported, and its map is cleared: the report stays the last one. -/
theorem feed_determines_store_of_clear :
    let turns : List (Turn Empty) :=
      [.mutate "m" ⟨"k"⟩ (some [1]) .put, .take 0, .pass 0, .clear "m"]
    ((start 1).run still ([.connect] ++ turns)).grid.cluster.get "m" ⟨"k"⟩ = .ok none ∧
      ∃ feed, ((start 1).run still ([.connect] ++ turns)).grid.subscribers[0]? = some feed ∧
        feed.filter (Batch.concerns "m" ⟨"k"⟩) = [(Mutation.inserted [1]).sweep "m" ⟨"k"⟩] := by
  intro turns
  obtain ⟨all, hall⟩ : ∃ all, all = [.connect] ++ turns := ⟨_, rfl⟩
  have hcluster : (((start 1).run still all).grid.cluster.reachable,
      ((start 1).run still all).grid.cluster.store.get "m" ⟨"k"⟩) = (true, none) := by
    rw [hall]
    decide +kernel
  obtain ⟨hreachable, hstored⟩ : _ ∧ _ := by simpa only [Prod.mk.injEq] using hcluster
  have hidle : ((start 1).run still all).Idle := by
    refine (orderly_run still (by decide) (orderly_start 1) all).idle ?_
    rw [hall]
    decide +kernel
  obtain ⟨hget, ⟨feed, hfeed, hreports, -⟩, -⟩ :=
    feed_determines_store (n := 1) (by decide) [.connect]
    turns (i := 0) rfl (by decide) (hall ▸ hidle) "m" ⟨"k"⟩
  dsimp only at hget hfeed hreports
  rw [← hall] at hget hfeed hreports ⊢
  refine ⟨?_, feed, hfeed, ?_⟩
  · rw [hget hreachable, hstored]
  · rw [hreports, hall]
    decide +kernel

end Relay

end ClusterMap
