import ClusterMap.Cluster.History

/-!
# The ledger of a cluster

What someone can tell who only follows the calls: which bytes are held under every key, whether the
cluster can be reached, and so which change each call makes. No queue and no table of entries is
needed for it. Main statements: `ledger_turn` and `ledger_run`, the cluster holds what its ledger
says; `turn_of_change?`, a call that changes an entry stores the result and queues one report;
`turn_of_change?_eq_none`, another one does nothing.
-/

namespace ClusterMap

/-! ## Changes -/

namespace Mutation

/-- The bytes that a change leaves under its key. -/
def result : Mutation → Option Bytes
  | inserted value => some value
  | overwritten value => some value
  | removed _ => none
  | evicted => none

/-- The change that an action makes where these bytes are held, if there is anything to act on. -/
def of? (action : Action) (value held : Option Bytes) : Option Mutation :=
  match action, value, held with
  | .put, some value, none => some (inserted value)
  | .put, some value, some _ => some (overwritten value)
  | .remove, _, some previous => some (removed previous)
  | .evict, _, some _ => some evicted
  | _, _, _ => none

/-- A put inserts an entry that is not held and overwrites one that is. -/
theorem of?_put_some (value : Bytes) (held : Option Bytes) :
    of? .put (some value) held = some (if held.isSome then overwritten value
      else inserted value) := by
  cases held <;> rfl

/-- A removal removes what is held. -/
theorem of?_remove (value held : Option Bytes) : of? .remove value held = held.map removed := by
  cases value <;> cases held <;> rfl

/-- An eviction evicts what is held. -/
theorem of?_evict (value held : Option Bytes) :
    of? .evict value held = held.map fun _ => evicted := by
  cases value <;> cases held <;> rfl

end Mutation

/-- A change of the entry under a key of a map. -/
structure Change where
  map : String
  key : Key
  mutation : Mutation
  deriving DecidableEq

namespace Change

/-- The report about a change. -/
def batch (c : Change) : Batch := c.mutation.sweep c.map c.key

/-- Whether a change is one of the entry under a key of a map. -/
def isOf (map : String) (key : Key) (c : Change) : Bool := c.map = map && c.key = key

end Change

/-! ## The ledger -/

/-- What can be told of a cluster from the calls. -/
structure Ledger where
  /-- The bytes under a key of a map. -/
  held : String → Key → Option Bytes
  reachable : Bool

namespace Ledger

open Relay (Turn)

variable {τ : Type}

/-- The ledger of an empty cluster. -/
def opening : Ledger := ⟨fun _ _ => none, true⟩

/-- The change that a turn makes. -/
def change? (l : Ledger) : Turn τ → Option Change
  | .mutate map key value action =>
    if l.reachable then (Mutation.of? action value (l.held map key)).map fun m =>
      ⟨map, key, m⟩ else none
  | _ => none

/-- The ledger with a change entered. -/
def record (l : Ledger) (c : Change) : Ledger :=
  { l with held := fun map key => if map = c.map ∧ key = c.key then c.mutation.result
    else l.held map key }

/-- The ledger without the entries of a map. -/
def erase (l : Ledger) (map : String) : Ledger :=
  { l with held := fun other key => if other = map then none else l.held other key }

/-- The ledger after a turn. -/
def enter (l : Ledger) (t : Turn τ) : Ledger :=
  match l.change? t, t with
  | some c, _ => l.record c
  | none, .clear map => if l.reachable then l.erase map else l
  | none, .setReachable reachable => { l with reachable }
  | none, _ => l

/-- The ledger after a list of turns. -/
def after (l : Ledger) (turns : List (Turn τ)) : Ledger := turns.foldl enter l

/-- The changes that a list of turns makes, in order. -/
def changes (l : Ledger) : List (Turn τ) → List Change
  | [] => []
  | t :: turns => (l.change? t).toList ++ (l.enter t).changes turns

/-- A list of turns may be entered in two parts. -/
theorem after_append (l : Ledger) (turns turns' : List (Turn τ)) :
    l.after (turns ++ turns') = (l.after turns).after turns' := List.foldl_append

/-- The changes of a list are those of its parts. -/
theorem changes_append (l : Ledger) (turns turns' : List (Turn τ)) :
    l.changes (turns ++ turns') = l.changes turns ++ (l.after turns).changes turns' := by
  induction turns generalizing l with
  | nil => rfl
  | cons t turns ih =>
    simp only [List.cons_append, changes, ih, List.append_assoc]
    rfl

/-- A turn that changes an entry is recorded. -/
theorem enter_of_change? {l : Ledger} {t : Turn τ} {c : Change} (h : l.change? t = some c) :
    l.enter t = l.record c := by
  simp only [enter, h]

/-- Only a call to change an entry changes one. -/
theorem eq_mutate_of_change? {l : Ledger} {t : Turn τ} {c : Change} (h : l.change? t = some c) :
    ∃ value action, t = .mutate c.map c.key value action ∧ l.reachable = true ∧
      Mutation.of? action value (l.held c.map c.key) = some c.mutation := by
  cases t with
  | mutate map key value action =>
    simp only [change?] at h
    split at h
    · next hr =>
      obtain ⟨m, hm, rfl⟩ := Option.map_eq_some_iff.1 h
      exact ⟨value, action, rfl, hr, hm⟩
    · contradiction
  | _ => contradiction

end Ledger

/-! ## What the calls do -/

namespace Cluster

/-- What can be told of a cluster from outside. -/
def ledger (c : Cluster) : Ledger := ⟨c.store.get, c.reachable⟩

/-- An entry that is held is dropped, reported and given back. -/
theorem drop_of_some {c : Cluster} {map : String} {key : Key} {previous : Bytes}
    (h : c.store.get map key = some previous) (report : Bytes → Mutation) :
    c.drop map key report = (⟨some previous, true⟩,
      { c with store := (c.store.remove map key).2 }.enqueue map key (report previous)) := by
  have hfst := c.store.remove_fst map key
  unfold drop
  cases hremove : c.store.remove map key with
  | mk held store =>
    rw [hremove, h] at hfst
    cases hfst
    rfl

/-- An entry that is not held is not dropped, and nothing is reported. -/
theorem drop_of_none {c : Cluster} {map : String} {key : Key} (h : c.store.get map key = none)
    (report : Bytes → Mutation) : c.drop map key report = (⟨none, false⟩, c) := by
  have hfst := c.store.remove_fst map key
  unfold drop
  cases hremove : c.store.remove map key with
  | mk held store =>
    rw [hremove, h] at hfst
    cases hfst
    rfl

/-- Dropping an entry that is held queues the report and leaves nothing under its key. -/
theorem drop_of_map_eq_some {c : Cluster} {map : String} {key : Key} {report : Bytes → Mutation}
    {m : Mutation} (h : (c.store.get map key).map report = some m)
    (hreport : ∀ bytes, (report bytes).result = none) :
    ∃ store : Store, c.drop map key report =
        (⟨c.store.get map key, true⟩, { c with store }.enqueue map key m) ∧
      ∀ other key', store.get other key' =
        if other = map ∧ key' = key then m.result else c.store.get other key' := by
  obtain ⟨previous, hheld, rfl⟩ := Option.map_eq_some_iff.1 h
  have hdrop : c.drop map key report = (⟨c.store.get map key, true⟩,
      { c with store := (c.store.remove map key).2 }.enqueue map key (report previous)) := by
    rw [drop_of_some hheld, hheld]
  refine ⟨(c.store.remove map key).2, hdrop, fun other key' => ?_⟩
  rw [hreport, c.store.get_remove map other key key']

/-- A call that finds something to act on stores the result and queues the report. -/
theorem mutate_of_some {c : Cluster} {map : String} {key : Key} {value : Option Bytes}
    {action : Action} {m : Mutation} (hr : c.reachable = true)
    (h : Mutation.of? action value (c.store.get map key) = some m) :
    ∃ store : Store, c.mutate map key value action =
        .ok (⟨c.store.get map key, true⟩, { c with store }.enqueue map key m) ∧
      ∀ other key', store.get other key' =
        if other = map ∧ key' = key then m.result else c.store.get other key' := by
  rw [mutate_of_reachable hr]
  cases action with
  | put =>
    obtain _ | value := value
    · contradiction
    rw [Mutation.of?_put_some] at h
    have hm := Option.some.inj h
    have hresult : m.result = some value := by
      rw [← hm]
      split <;> rfl
    have hput : c.put map key value = (⟨c.store.get map key, true⟩,
        { c with store := (c.store.put map key value).2 }.enqueue map key m) := by
      rw [← hm]
      rfl
    refine ⟨(c.store.put map key value).2, congrArg Except.ok hput, fun other key' => ?_⟩
    rw [Store.get_put, hresult]
  | remove =>
    rw [Mutation.of?_remove] at h
    obtain ⟨store, hdrop, hget⟩ := drop_of_map_eq_some h fun _ => rfl
    exact ⟨store, congrArg Except.ok hdrop, hget⟩
  | evict =>
    rw [Mutation.of?_evict] at h
    obtain ⟨store, hdrop, hget⟩ := drop_of_map_eq_some h fun _ => rfl
    exact ⟨store, congrArg Except.ok hdrop, hget⟩

/-- A call that finds nothing to act on fails or answers so, and leaves the cluster alone. -/
theorem mutate_of_none {c : Cluster} {map : String} {key : Key} {value : Option Bytes}
    {action : Action} (hr : c.reachable = true)
    (h : Mutation.of? action value (c.store.get map key) = none) :
    (∃ e, c.mutate map key value action = .error e) ∨
      c.mutate map key value action = .ok (⟨none, false⟩, c) := by
  rw [mutate_of_reachable hr]
  cases action with
  | put =>
    cases value with
    | none => exact .inl ⟨_, rfl⟩
    | some value => rw [Mutation.of?_put_some] at h; contradiction
  | remove =>
    rw [Mutation.of?_remove, Option.map_eq_none_iff] at h
    exact .inr (congrArg Except.ok (drop_of_none h _))
  | evict =>
    rw [Mutation.of?_evict, Option.map_eq_none_iff] at h
    exact .inr (congrArg Except.ok (drop_of_none h _))

end Cluster

/-! ## Turns and the ledger -/

namespace Relay

variable {σ τ : Type} [Subscriber σ] [Inhabited σ] (act : σ → τ → σ)

/-- What can be told of the cluster of a relay from outside. -/
def ledger (r : Relay σ) : Ledger := r.grid.cluster.ledger

/-- A turn that changes an entry stores the result and queues one report. -/
theorem turn_of_change? {r : Relay σ} {t : Turn τ} {c : Change} (h : r.ledger.change? t = some c) :
    ∃ store : Store, r.turn act t =
        r.withCluster ({ r.grid.cluster with store }.enqueue c.map c.key c.mutation) ∧
      store.get = (r.ledger.record c).held := by
  obtain ⟨value, action, rfl, hr, hm⟩ := Ledger.eq_mutate_of_change? h
  obtain ⟨store, hmutate, hget⟩ := Cluster.mutate_of_some hr hm
  refine ⟨store, by simp only [turn, hmutate], ?_⟩
  funext other key'
  exact hget other key'

/-- A call that changes no entry leaves everything as it was. -/
theorem turn_of_change?_eq_none {r : Relay σ} {map : String} {key : Key} {value : Option Bytes}
    {action : Action}
    (h : r.ledger.change? (.mutate map key value action : Turn τ) = none) :
    r.turn act (.mutate map key value action) = r := by
  simp only [Ledger.change?] at h
  split at h
  · next hr =>
    obtain ⟨e, he⟩ | hsame := Cluster.mutate_of_none hr (Option.map_eq_none_iff.1 h)
    · simp only [turn, he]
    · simp only [turn, hsame]
      rfl
  · next hr =>
    have hr' : r.grid.cluster.reachable = false := by simpa [ledger, Cluster.ledger] using hr
    simp only [turn, Cluster.mutate_eq_error_of_unreachable hr' map key value action]

/-- A cluster holds what its ledger says. -/
theorem ledger_turn (r : Relay σ) (t : Turn τ) : (r.turn act t).ledger = r.ledger.enter t := by
  cases hc : r.ledger.change? t with
  | some c =>
    obtain ⟨store, hturn, hget⟩ := turn_of_change? act hc
    have hledger : (r.turn act t).ledger = ⟨store.get, r.grid.cluster.reachable⟩ := by
      rw [hturn]; rfl
    rw [hledger, hget, Ledger.enter_of_change? hc]
    rfl
  | none =>
    cases t with
    | mutate map key value action => simp only [turn_of_change?_eq_none act hc, Ledger.enter, hc]
    | clear map =>
      cases hr : r.grid.cluster.reachable with
      | true =>
        have hheld : (r.grid.cluster.store.clear map).2.get = (r.ledger.erase map).held := by
          funext other key
          exact r.grid.cluster.store.get_clear map other key
        have hledger : (r.turn act (.clear map)).ledger = ⟨(r.ledger.erase map).held, true⟩ := by
          simp only [turn, Cluster.clear_of_reachable hr, withCluster, ledger,
            Cluster.ledger, hheld]
          exact congrArg _ hr
        have hr' : r.ledger.reachable = true := hr
        simp only [hledger, Ledger.enter, hc, hr', if_true, Ledger.erase]
      | false =>
        have hr' : r.ledger.reachable = false := hr
        simp only [turn, Cluster.clear_eq_error_of_unreachable hr, Ledger.enter, hc, hr',
          Bool.false_eq_true, if_false]
    | setReachable reachable => rfl
    | connect => rfl
    | take partition =>
      simp only [turn, take, Ledger.enter, hc]
      split <;> rfl
    | pass partition =>
      simp only [turn, pass, Ledger.enter, hc]
      split <;> rfl
    | act subscriber step => rfl

/-- The ledger after a run is what the turns make of the one before. -/
theorem ledger_run (r : Relay σ) (turns : List (Turn τ)) :
    (r.run act turns).ledger = r.ledger.after turns := by
  induction turns generalizing r with
  | nil => rfl
  | cons t turns ih => rw [run_cons, ih, ledger_turn]; rfl

end Relay

end ClusterMap
