import ClusterMap.Proofs.Client.Failure
import ClusterMap.Proofs.Cluster.Feed
import Mathlib.Logic.Relation

/-!
# Calls about different entries

Two calls that have no entry in common do not see each other, so it does not matter which of them
comes first. All that a history shows is told by its ledger, where this is a matter of one entry at
a time. Main statements: `held_enter_congr`, what a turn leaves under a key depends on what was
there; `enter_comm`, such calls may change places; `reply?_eq_ledger`, what the cluster replies;
`rearranged_calls_agree`.
-/

namespace ClusterMap

open Relay (Turn)

variable {ι σ τ : Type}

/-! ## Calls and entries -/

namespace Relay.Turn

/-- Whether a turn is a call, to change an entry or to clear a map. -/
def isCall : Turn τ → Bool
  | mutate _ _ _ _ | clear _ => true
  | _ => false

/-- Whether a turn may change the entry under a key of a map. -/
def Touches (map : String) (key : Key) : Turn τ → Prop
  | mutate map' key' _ _ => map' = map ∧ key' = key
  | clear map' => map' = map
  | _ => False

/-- Two calls that have no entry in common. -/
structure Independent (a b : Turn τ) : Prop where
  left : a.isCall = true
  right : b.isCall = true
  apart : ∀ map key, ¬(a.Touches map key ∧ b.Touches map key)

/-- Whether a turn leaves it to itself whether the cluster can be reached. -/
def IsSteady : Turn τ → Prop
  | setReachable _ => False
  | _ => True

/-- Whether a turn gives a map its name, if the map has none yet. -/
def Names (map : String) : Turn τ → Prop
  | mutate map' _ (some _) .put => map' = map
  | _ => False

variable {a b : Turn τ}

/-- Independence does not depend on the order. -/
theorem Independent.symm (h : a.Independent b) : b.Independent a :=
  ⟨h.right, h.left, fun map key hboth => h.apart map key hboth.symm⟩

/-- No entry is touched by both of two independent turns. -/
theorem Independent.not_touches (h : a.Independent b) (map : String) (key : Key) :
    ¬a.Touches map key ∨ ¬b.Touches map key := Classical.not_and_iff_not_or_not.1 (h.apart map key)

/-- A call leaves the cluster within reach. -/
theorem isSteady_of_isCall (h : a.isCall = true) : a.IsSteady := by
  cases a with
  | setReachable reachable => contradiction
  | _ => trivial

/-- Changes are independent if they are about two entries. -/
theorem independent_mutate_mutate {map map' : String} {key key' : Key} {value value' : Option Bytes}
    {action action' : Action} :
    (mutate map key value action : Turn τ).Independent (mutate map' key' value' action') ↔
      (map, key) ≠ (map', key') := by
  refine ⟨fun h heq => ?_, fun h => ⟨rfl, rfl, fun other other' => ?_⟩⟩
  · cases heq
    exact h.apart map key ⟨⟨rfl, rfl⟩, rfl, rfl⟩
  · rintro ⟨⟨rfl, rfl⟩, rfl, rfl⟩
    exact h rfl

/-- Clearing a map is independent of the changes of other maps. -/
theorem independent_clear_mutate {map map' : String} {key : Key} {value : Option Bytes}
    {action : Action} :
    (clear map : Turn τ).Independent (mutate map' key value action) ↔ map ≠ map' := by
  refine ⟨fun h heq => ?_, fun h => ⟨rfl, rfl, fun other other' => ?_⟩⟩
  · cases heq
    exact h.apart map key ⟨rfl, rfl, rfl⟩
  · rintro ⟨rfl, rfl, rfl⟩
    exact h rfl

/-- A turn that names a map is a call. -/
theorem isCall_of_names {map : String} (h : a.Names map) : a.isCall = true := by
  cases a with
  | mutate => rfl
  | _ => exact absurd h id

end Relay.Turn

/-! ## The ledger, one entry at a time -/

namespace Ledger

variable {l l' : Ledger} {t a b : Turn τ} {map : String} {key : Key}

/-- Two ledgers that agree about an entry and about whether the cluster can be reached. -/
structure Agree (map : String) (key : Key) (l l' : Ledger) : Prop where
  held : l.held map key = l'.held map key
  reachable : l.reachable = l'.reachable

/-- A call to change an entry makes the same change wherever the same is held. -/
theorem change?_congr {value : Option Bytes} {action : Action} (h : Agree map key l l') :
    l.change? (.mutate map key value action : Turn τ) =
      l'.change? (.mutate map key value action : Turn τ) := by
  simp only [change?, h.held, h.reachable]

/-- A steady turn changes nothing about the reach of a ledger. -/
theorem reachable_enter (ht : t.IsSteady) : (l.enter t).reachable = l.reachable := by
  unfold enter
  split
  · rfl
  · split <;> rfl
  · exact absurd ht id
  · rfl

/-- A turn leaves what it does not touch. -/
theorem held_enter_of_not_touches (ht : ¬t.Touches map key) :
    (l.enter t).held map key = l.held map key := by
  cases hc : l.change? t with
  | some c =>
    obtain ⟨value, action, rfl, -, -⟩ := eq_mutate_of_change? hc
    rw [enter_of_change? hc, record]
    exact if_neg fun h => ht ⟨h.1.symm, h.2.symm⟩
  | none =>
    cases t with
    | clear other =>
      simp only [enter, hc]
      split
      · exact if_neg fun h => ht h.symm
      · rfl
    | _ => simp only [enter, hc]

/-- What a turn leaves under a key depends on what was held there, and on whether the cluster can be
reached. -/
theorem held_enter_congr (h : Agree map key l l') :
    (l.enter t).held map key = (l'.enter t).held map key := by
  by_cases ht : t.Touches map key
  · cases t with
    | mutate map' key' value action =>
      obtain ⟨rfl, rfl⟩ := ht
      have hsame : l.change? (.mutate map' key' value action : Turn τ) =
          l'.change? (.mutate map' key' value action : Turn τ) := change?_congr h
      cases hc : l.change? (.mutate map' key' value action : Turn τ) with
      | some c =>
        obtain ⟨_, _, heq, -⟩ := eq_mutate_of_change? hc
        cases heq
        rw [enter_of_change? hc, enter_of_change? (hsame ▸ hc)]
        simp only [record, and_self, if_true]
      | none => simpa only [enter, hc, hsame ▸ hc] using h.held
    | clear map' =>
      cases ht
      simp only [enter, change?, h.reachable]
      split
      · simp only [erase, if_true]
      · exact h.held
    | _ => contradiction
  · rw [held_enter_of_not_touches ht, held_enter_of_not_touches ht, h.held]

/-- A call tells of an independent one nothing. -/
theorem agree_enter (ht : t.IsSteady) (hnot : ¬t.Touches map key) : Agree map key (l.enter t) l :=
  ⟨held_enter_of_not_touches hnot, reachable_enter ht⟩

/-- Independent calls leave the same whichever comes first. -/
theorem enter_comm (h : a.Independent b) : (l.enter a).enter b = (l.enter b).enter a := by
  have ha := Turn.isSteady_of_isCall h.left
  have hb := Turn.isSteady_of_isCall h.right
  have hheld : ((l.enter a).enter b).held = ((l.enter b).enter a).held := by
    funext map key
    obtain hnot | hnot := h.not_touches map key
    · rw [held_enter_of_not_touches (l := l.enter b) hnot, held_enter_congr (agree_enter ha hnot)]
    · rw [held_enter_of_not_touches (l := l.enter a) hnot, held_enter_congr (agree_enter hb hnot)]
  have hreachable : ((l.enter a).enter b).reachable = ((l.enter b).enter a).reachable := by
    rw [reachable_enter hb, reachable_enter ha, reachable_enter ha, reachable_enter hb]
  calc (l.enter a).enter b = ⟨((l.enter a).enter b).held, ((l.enter a).enter b).reachable⟩ := rfl
    _ = ⟨((l.enter b).enter a).held, ((l.enter b).enter a).reachable⟩ := by rw [hheld, hreachable]

/-- A call makes the same change before and after an independent one. -/
theorem change?_enter (h : a.Independent b) : (l.enter a).change? b = l.change? b := by
  cases b with
  | mutate map key value action =>
    have hnot : ¬a.Touches map key := (h.not_touches map key).resolve_right fun hb => hb ⟨rfl, rfl⟩
    exact change?_congr (agree_enter (Turn.isSteady_of_isCall h.left) hnot)
  | _ => rfl

/-- Of two independent calls at most one changes an entry, so the changes of an entry are the same
in both orders. -/
theorem filter_isOf_change?_comm (h : a.Independent b) (map : String) (key : Key) :
    ((l.change? a).toList ++ (l.change? b).toList).filter (Change.isOf map key) =
      ((l.change? b).toList ++ (l.change? a).toList).filter (Change.isOf map key) := by
  have hnone : ∀ {t : Turn τ}, ¬t.Touches map key →
      (l.change? t).toList.filter (Change.isOf map key) = [] := by
    intro t hnot
    rw [List.filter_eq_nil_iff]
    intro c hc
    rw [Option.mem_toList] at hc
    obtain ⟨value, action, rfl, -, -⟩ := eq_mutate_of_change? hc
    simpa [Change.isOf, Turn.Touches] using hnot
  rw [List.filter_append, List.filter_append]
  obtain hnot | hnot := h.not_touches map key
  · rw [hnone hnot, List.nil_append, List.append_nil]
  · rw [hnone hnot, List.nil_append, List.append_nil]

/-! ## Replies -/

/-- What the cluster replies to a call while it can be reached. -/
def reply? (l : Ledger) : Turn τ → Option (Except Error Cluster.Reply)
  | .mutate _ _ none .put => some (.error (.serialization "put requires a value"))
  | .mutate map key (some _) .put => some (.ok (.ack ⟨l.held map key, true⟩))
  | .mutate map key _ _ => some (.ok (.ack ⟨l.held map key, (l.held map key).isSome⟩))
  | .clear _ => some (.ok .done)
  | _ => none

/-- A call gets the same reply before and after an independent one. -/
theorem reply?_enter (h : a.Independent b) : (l.enter a).reply? b = l.reply? b := by
  cases b with
  | mutate map key value action =>
    have hnot : ¬a.Touches map key := (h.not_touches map key).resolve_right fun hb => hb ⟨rfl, rfl⟩
    cases action <;> cases value <;> simp only [reply?, held_enter_of_not_touches hnot]
  | _ => rfl

/-- The replies to the calls of a list of turns, each under the label of its call. -/
def replies (l : Ledger) : List (ι × Turn τ) → List (ι × Except Error Cluster.Reply)
  | [] => []
  | t :: turns => ((l.reply? t.2).map (t.1, ·)).toList ++ (l.enter t.2).replies turns

/-- The calls of a list are answered in two parts. -/
theorem replies_append (l : Ledger) (turns turns' : List (ι × Turn τ)) :
    l.replies (turns ++ turns') = l.replies turns ++
      (l.after (turns.map Prod.snd)).replies turns' := by
  induction turns generalizing l with
  | nil => rfl
  | cons t turns ih =>
    rw [List.cons_append, replies, ih, replies, List.append_assoc]
    rfl

end Ledger

/-! ## Rearranging -/

/-- Two neighbouring independent calls of a list have changed places. The labels go with the
calls. -/
inductive Swapped : List (ι × Turn τ) → List (ι × Turn τ) → Prop
  | intro (before : List (ι × Turn τ)) {a b : ι × Turn τ} (after : List (ι × Turn τ))
      (h : a.2.Independent b.2) :
      Swapped (before ++ a :: b :: after) (before ++ b :: a :: after)

/-- Neighbouring independent calls of a list have changed places, any number of times. -/
def Rearranged : List (ι × Turn τ) → List (ι × Turn τ) → Prop := Relation.ReflTransGen Swapped

/-- The calls of a list of turns. -/
def callsOf (turns : List (ι × Turn τ)) : List (ι × Turn τ) := turns.filter fun t => t.2.isCall

/-- Swapping two turns rearranges the list. -/
theorem Swapped.perm {turns turns' : List (ι × Turn τ)} (h : Swapped turns turns') :
    turns'.Perm turns := by
  obtain ⟨before, after, -⟩ := h
  exact (List.Perm.swap _ _ after).append_left before

/-- Swapping turns again and again rearranges the list. -/
theorem Rearranged.perm {turns turns' : List (ι × Turn τ)} (h : Rearranged turns turns') :
    turns'.Perm turns := by
  induction h with
  | refl => exact .refl _
  | tail _ hswap ih => exact hswap.perm.trans ih

namespace Ledger

variable {turns turns' : List (ι × Turn τ)}

/-- What all of a rearranged history shows in the ledger: what is held in the end, the replies, and
the changes of every entry in order. -/
structure Alike (l : Ledger) (turns turns' : List (ι × Turn τ)) : Prop where
  after : l.after (turns'.map Prod.snd) = l.after (turns.map Prod.snd)
  replies : (l.replies turns').Perm (l.replies turns)
  changes : ∀ map key, (l.changes (turns'.map Prod.snd)).filter (Change.isOf map key) =
    (l.changes (turns.map Prod.snd)).filter (Change.isOf map key)

/-- Swapping two independent turns is not seen. -/
theorem alike_of_swapped (l : Ledger) (h : Swapped turns turns') : l.Alike turns turns' := by
  obtain @⟨before, a, b, after, hindep⟩ := h
  obtain ⟨m, hm⟩ : ∃ m, m = l.after (before.map Prod.snd) := ⟨_, rfl⟩
  refine ⟨?_, ?_, fun map key => ?_⟩
  · simp only [List.map_append, List.map_cons, after_append, ← hm]
    show ((m.enter b.2).enter a.2).after _ = ((m.enter a.2).enter b.2).after _
    rw [enter_comm hindep]
  · simp only [replies_append, ← hm, replies, reply?_enter hindep, reply?_enter hindep.symm,
      enter_comm hindep]
    refine List.Perm.append_left _ ?_
    rw [← List.append_assoc, ← List.append_assoc]
    exact List.perm_append_comm.append_right _
  · simp only [List.map_append, List.map_cons, changes_append, ← hm, changes, change?_enter hindep,
      change?_enter hindep.symm, enter_comm hindep, List.filter_append]
    have hcomm := filter_isOf_change?_comm (l := m) hindep map key
    rw [List.filter_append, List.filter_append] at hcomm
    rw [← List.append_assoc (List.filter _ (m.change? b.2).toList), ← hcomm, List.append_assoc]

/-- Swapping independent turns again and again is not seen. -/
theorem alike_of_rearranged (l : Ledger) (h : Rearranged turns turns') : l.Alike turns turns' := by
  induction h with
  | refl => exact ⟨rfl, .refl _, fun _ _ => rfl⟩
  | @tail middle last _ hswap ih =>
    have hstep : l.Alike middle last := l.alike_of_swapped hswap
    refine ⟨hstep.after.trans ih.after, hstep.replies.trans ih.replies, fun map key => ?_⟩
    exact (hstep.changes map key).trans (ih.changes map key)

/-- A turn that is no call is not noticed, unless it changes whether the cluster can be reached. -/
theorem enter_of_not_isCall {l : Ledger} {t : Turn τ} (ht : t.isCall = false)
    (hsteady : t.IsSteady) :
    l.enter t = l ∧ l.change? t = none ∧ l.reply? t = none := by
  cases t with
  | mutate map key value action => contradiction
  | clear map => contradiction
  | setReachable reachable => exact absurd hsteady id
  | _ => exact ⟨rfl, rfl, rfl⟩

/-- The calls are all of a history that is noticed. -/
theorem alike_callsOf (l : Ledger) (hsteady : ∀ t ∈ turns, t.2.IsSteady) :
    l.Alike turns (callsOf turns) := by
  induction turns generalizing l with
  | nil => exact ⟨rfl, .refl _, fun _ _ => rfl⟩
  | cons t turns ih =>
    have hrest := ih (l.enter t.2) fun t' ht' => hsteady t' (List.mem_cons_of_mem t ht')
    cases ht : t.2.isCall with
    | true =>
      have hcalls : callsOf (t :: turns) = t :: callsOf turns := List.filter_cons_of_pos ht
      rw [hcalls]
      refine ⟨hrest.after, hrest.replies.append_left _, fun map key => ?_⟩
      simp only [List.map_cons, Ledger.changes, List.filter_append, hrest.changes]
    | false =>
      have hcalls : callsOf (t :: turns) = callsOf turns :=
        List.filter_cons_of_neg (by rw [ht]; exact Bool.false_ne_true)
      obtain ⟨henter, hchange, hreply⟩ :=
        enter_of_not_isCall (l := l) ht (hsteady t List.mem_cons_self)
      rw [henter] at hrest
      rw [hcalls]
      refine ⟨?_, ?_, fun map key => ?_⟩
      · rw [List.map_cons, hrest.after]
        show _ = (l.enter t.2).after _
        rw [henter]
      · rw [Ledger.replies, hreply, henter]
        exact hrest.replies
      · rw [hrest.changes, List.map_cons, Ledger.changes, hchange, henter]
        rfl

/-- What looks alike one way round does so the other way round. -/
theorem Alike.symm {l : Ledger} (h : l.Alike turns turns') : l.Alike turns' turns :=
  ⟨h.after.symm, h.replies.symm, fun map key => (h.changes map key).symm⟩

/-- What looks alike in two steps does so in one. -/
theorem Alike.trans {l : Ledger} {turns'' : List (ι × Turn τ)} (h : l.Alike turns turns')
    (h' : l.Alike turns' turns'') : l.Alike turns turns'' :=
  ⟨h'.after.trans h.after, h'.replies.trans h.replies,
    fun map key => (h'.changes map key).trans (h.changes map key)⟩

end Ledger

/-! ## The store -/

/-- A store is the names of its maps and what is held under their keys. -/
theorem Store.eq_of_get {s s' : Store} (hnames : s.mapNames = s'.mapNames)
    (hget : ∀ map key, s.get map key = s'.get map key) : s = s' := by
  have hmaps : s.maps = s'.maps := by
    refine Table.ext_get? fun map => ?_
    have hiff : (s.maps.get? map).isSome = true ↔ (s'.maps.get? map).isSome = true := by
      rw [← Table.mem_names_iff, ← Table.mem_names_iff]
      exact iff_of_eq (congrArg (map ∈ ·) hnames)
    cases ht : s.maps.get? map with
    | none => cases ht' : s'.maps.get? map <;> simp_all
    | some t =>
      cases ht' : s'.maps.get? map with
      | none => simp_all
      | some t' =>
        refine congrArg some (Table.ext_get? fun name => ?_)
        have hname := hget map ⟨name⟩
        simpa only [Store.get, entriesOf, ht, ht', Option.getD_some] using hname
  calc s = ⟨s.maps⟩ := rfl
    _ = ⟨s'.maps⟩ := by rw [hmaps]

namespace Relay

variable [Subscriber σ] [Inhabited σ] (act : σ → τ → σ)

/-- A steady turn leaves the cluster within reach. -/
theorem reachable_turn {r : Relay σ} (hr : r.grid.cluster.reachable = true) {t : Turn τ}
    (ht : t.IsSteady) :
    (r.turn act t).grid.cluster.reachable = true := by
  have hledger := congrArg Ledger.reachable (ledger_turn act r t)
  exact hledger.trans ((Ledger.reachable_enter ht).trans hr)

/-- A map has its name from an earlier turn or from this one. -/
theorem mem_mapNames_turn {r : Relay σ} (hr : r.grid.cluster.reachable = true) (t : Turn τ)
    (map : String) :
    map ∈ (r.turn act t).grid.cluster.store.mapNames ↔
    t.Names map ∨ map ∈ r.grid.cluster.store.mapNames := by
  have hdrop : ∀ map' key (report : Bytes → Mutation),
      (r.grid.cluster.drop map' key report).2.store.mapNames = r.grid.cluster.store.mapNames := by
    intro map' key report
    cases hheld : r.grid.cluster.store.get map' key with
    | none => rw [Cluster.drop_of_none hheld]
    | some previous =>
      rw [Cluster.drop_of_some hheld]
      exact Store.mapNames_remove _ _ _
  cases t with
  | mutate map' key value action =>
    simp only [turn, Cluster.mutate_of_reachable hr]
    cases action with
    | put =>
      cases value with
      | none => simp [Turn.Names]
      | some value =>
        have hput : map ∈ (r.grid.cluster.store.put map' key value).2.mapNames ↔
            map = map' ∨ map ∈ r.grid.cluster.store.mapNames := Store.mem_mapNames_put
        rw [eq_comm (a := map)] at hput
        exact hput
    | remove => simp only [Turn.Names, withCluster, hdrop, false_or]
    | evict => simp only [Turn.Names, withCluster, hdrop, false_or]
  | clear map' =>
    simp only [turn, Cluster.clear_of_reachable hr, Turn.Names, withCluster,
      Store.mapNames_clear, false_or]
  | take p =>
    simp only [turn, take, Turn.Names, false_or]
    split <;> rfl
  | pass p =>
    simp only [turn, pass, Turn.Names, false_or]
    split <;> rfl
  | _ => exact (false_or _).symm.to_iff

/-- The maps that have a name after a history had it before or got it from one of the turns. -/
theorem mem_mapNames_run {r : Relay σ} (hr : r.grid.cluster.reachable = true)
    {turns : List (Turn τ)} (hsteady : ∀ t ∈ turns, t.IsSteady) (map : String) :
    map ∈ (r.run act turns).grid.cluster.store.mapNames ↔
      (∃ t ∈ turns, t.Names map) ∨ map ∈ r.grid.cluster.store.mapNames := by
  induction turns generalizing r with
  | nil => simp
  | cons t turns ih =>
    have hr' : (r.turn act t).grid.cluster.reachable = true :=
      reachable_turn act hr (hsteady t List.mem_cons_self)
    rw [run_cons, ih hr' fun t' ht' => hsteady t' (List.mem_cons_of_mem t ht'),
      mem_mapNames_turn act hr]
    simp only [List.mem_cons, exists_eq_or_imp, or_assoc, or_left_comm]

/-! ## Replies -/

/-- What the cluster replies to a turn that is a call. -/
def reply? (r : Relay σ) : Turn τ → Option (Except Error Cluster.Reply)
  | .mutate map key value action => some (r.respond (.mutate map key value action)).1
  | .clear map => some (r.respond (.clear map)).1
  | _ => none

/-- What the cluster replies to the calls of a list of turns, each reply under the label of its
call. -/
def replies (r : Relay σ) : List (ι × Turn τ) → List (ι × Except Error Cluster.Reply)
  | [] => []
  | t :: turns => ((r.reply? t.2).map (t.1, ·)).toList ++ (r.turn act t.2).replies turns

omit [Subscriber σ] [Inhabited σ] in
/-- The reply to a call is told by the ledger. -/
theorem reply?_eq_ledger {r : Relay σ} (hr : r.grid.cluster.reachable = true) (t : Turn τ) :
    r.reply? t = r.ledger.reply? t := by
  have hdrop : ∀ map key (report : Bytes → Mutation), (r.grid.cluster.drop map key report).1 =
      ⟨r.ledger.held map key, (r.ledger.held map key).isSome⟩ := by
    intro map key report
    show _ = Ack.mk (r.grid.cluster.store.get map key) (r.grid.cluster.store.get map key).isSome
    cases hheld : r.grid.cluster.store.get map key with
    | none => rw [Cluster.drop_of_none hheld]; rfl
    | some previous => rw [Cluster.drop_of_some hheld]; rfl
  cases t with
  | mutate map key value action =>
    simp only [reply?, respond, Cluster.respond, Cluster.mutate_of_reachable hr]
    cases action with
    | put => cases value <;> rfl
    | remove => simp only [Ledger.reply?, hdrop]
    | evict => simp only [Ledger.reply?, hdrop]
  | clear map =>
    simp only [reply?, respond, Cluster.respond, Cluster.clear_of_reachable hr]
    rfl
  | _ => rfl

/-- A cluster within reach answers as its ledger. -/
theorem replies_eq_ledger {r : Relay σ} (hr : r.grid.cluster.reachable = true)
    {turns : List (ι × Turn τ)} (hsteady : ∀ t ∈ turns, t.2.IsSteady) :
    r.replies act turns = r.ledger.replies turns := by
  induction turns generalizing r with
  | nil => rfl
  | cons t turns ih =>
    have hr' : (r.turn act t.2).grid.cluster.reachable = true :=
      reachable_turn act hr (hsteady t List.mem_cons_self)
    rw [replies, reply?_eq_ledger hr, ih hr' fun t' ht' => hsteady t' (List.mem_cons_of_mem t ht'),
      ledger_turn]
    rfl

/-! ## Rearranged histories -/

/-- Histories in which the same is held in the end, and in which the same maps got their names, end
with the same store. -/
theorem store_run_eq {r : Relay σ} (hr : r.grid.cluster.reachable = true)
    {turns turns' : List (ι × Turn τ)} (hsteady : ∀ t ∈ turns ++ turns', t.2.IsSteady)
    (halike : r.ledger.Alike turns turns') (hperm : (callsOf turns').Perm (callsOf turns)) :
    (r.run act (turns'.map Prod.snd)).grid.cluster.store =
      (r.run act (turns.map Prod.snd)).grid.cluster.store := by
  have hnames : ∀ (l : List (ι × Turn τ)) map,
      (∃ t ∈ l.map Prod.snd, t.Names map) ↔ ∃ t ∈ callsOf l, t.2.Names map := by
    intro l map
    constructor
    · rintro ⟨_, hmem, hname⟩
      obtain ⟨t, ht, rfl⟩ := List.mem_map.1 hmem
      exact ⟨t, List.mem_filter.2 ⟨ht, Turn.isCall_of_names hname⟩, hname⟩
    · rintro ⟨t, ht, hname⟩
      exact ⟨t.2, List.mem_map_of_mem (List.mem_filter.1 ht).1, hname⟩
  refine Store.eq_of_get (Table.names_eq_of_mem_iff fun map => ?_) fun map key => ?_
  · have hsteady' : ∀ t ∈ turns'.map Prod.snd, t.IsSteady := List.forall_mem_map.2 fun t ht =>
      hsteady t (List.mem_append_right _ ht)
    have hsteady : ∀ t ∈ turns.map Prod.snd, t.IsSteady := List.forall_mem_map.2 fun t ht =>
      hsteady t (List.mem_append_left _ ht)
    show map ∈ Store.mapNames _ ↔ map ∈ Store.mapNames _
    rw [mem_mapNames_run act hr hsteady', mem_mapNames_run act hr hsteady, hnames, hnames]
    simp only [hperm.mem_iff]
  · have hledger := (ledger_run act r (turns'.map Prod.snd)).trans
      (halike.after.trans (ledger_run act r (turns.map Prod.snd)).symm)
    exact congrFun (congrFun (congrArg Ledger.held hledger) map) key

/-- Calls about different entries may change places. Take two histories from the same moment on in
which the cluster can be reached, partitions and subscribers work in whatever order, and the calls
of one are those of the other but for neighbouring independent calls that changed places, any number
of times. Every call gets the same reply in both, the entries of every map and the names of the maps
are the same in the end, and the reports about every entry are the same in the same order: those
that are made, and those that a subscriber has got or is still to get. -/
theorem rearranged_calls_agree {n : Nat} (hn : 0 < n) (before : List (Turn τ))
    {turns turns' : List (ι × Turn τ)}
    (hr : ((start n).run act before).grid.cluster.reachable = true)
    (hsteady : ∀ t ∈ turns ++ turns', t.2.IsSteady)
    (hcalls : Rearranged (callsOf turns) (callsOf turns')) :
    let r := (start n).run act before
    let after (turns : List (ι × Turn τ)) : Relay σ := r.run act (turns.map Prod.snd)
    let reports (turns : List (ι × Turn τ)) (map : String) (key : Key) : List Batch :=
      ((r.ledger.changes (turns.map Prod.snd)).filter (Change.isOf map key)).map Change.batch
    let sent (turns : List (ι × Turn τ)) (i : Nat) (map : String) (key : Key) : List Batch :=
      (received (r.dealings act i (turns.map Prod.snd))).filter (Batch.concerns map key) ++
        (after turns).dueOf n i map key
    (r.replies act turns').Perm (r.replies act turns) ∧
      (∀ map, (after turns').grid.cluster.store.entries map =
        (after turns).grid.cluster.store.entries map) ∧
      (after turns').grid.cluster.mapNames = (after turns).grid.cluster.mapNames ∧
      ∀ map key, reports turns' map key = reports turns map key ∧
        ∀ i < r.grid.subscribers.length, sent turns' i map key = sent turns i map key := by
  intro r after reports sent
  have hsteady' : ∀ t ∈ turns', t.2.IsSteady := fun t ht => hsteady t (List.mem_append_right _ ht)
  have hsteady₁ : ∀ t ∈ turns, t.2.IsSteady := fun t ht => hsteady t (List.mem_append_left _ ht)
  have halike : r.ledger.Alike turns turns' := (r.ledger.alike_callsOf hsteady₁).trans
    ((r.ledger.alike_of_rearranged hcalls).trans (r.ledger.alike_callsOf hsteady').symm)
  have hstore : (after turns').grid.cluster.store = (after turns).grid.cluster.store :=
    store_run_eq act hr hsteady halike hcalls.perm
  have hreports : ∀ map key, reports turns' map key = reports turns map key := fun map key =>
    congrArg (List.map Change.batch) (halike.changes map key)
  have hsent : ∀ turns i map key, i < r.grid.subscribers.length →
      sent turns i map key = r.dueOf n i map key ++ reports turns map key := by
    intro turns i map key hi
    have horderly : Orderly n r := orderly_run act hn (orderly_start n) before
    obtain ⟨gone, hgone, hgot⟩ := due_run act hn horderly i map key (turns.map Prod.snd)
    rw [← hgone, hgot hi]
  have hreplies : (r.replies act turns').Perm (r.replies act turns) := by
    rw [replies_eq_ledger act hr hsteady', replies_eq_ledger act hr hsteady₁]
    exact halike.replies
  have hentries : ∀ map, (after turns').grid.cluster.store.entries map =
      (after turns).grid.cluster.store.entries map := fun map => congrArg (·.entries map) hstore
  refine ⟨hreplies, hentries, congrArg Store.mapNames hstore, fun map key => ?_⟩
  refine ⟨hreports map key, fun i hi => ?_⟩
  rw [hsent turns' i map key hi, hsent turns i map key hi, hreports]

/-- Of three calls the last comes first, and a partition takes a batch in between. -/
theorem rearranged_calls_agree_of_put :
    let turns : List (Nat × Turn Empty) :=
      [(0, .mutate "m" ⟨"k"⟩ (some [1]) .put), (1, .clear "n"),
        (2, .mutate "m" ⟨"j"⟩ (some [2]) .put)]
    let turns' : List (Nat × Turn Empty) :=
      [(2, .mutate "m" ⟨"j"⟩ (some [2]) .put), (3, .take 0), (0, .mutate "m" ⟨"k"⟩ (some [1]) .put),
        (1, .clear "n")]
    let r : Relay (List Batch) := (start 1).run still [.connect]
    (r.replies still turns').Perm (r.replies still turns) ∧
      (r.run still (turns'.map Prod.snd)).grid.cluster.store.entries "m" =
        (r.run still (turns.map Prod.snd)).grid.cluster.store.entries "m" ∧
      (received (r.dealings still 0 (turns'.map Prod.snd))).filter (Batch.concerns "m" ⟨"k"⟩) ++
          (r.run still (turns'.map Prod.snd)).dueOf 1 0 "m" ⟨"k"⟩ =
        (received (r.dealings still 0 (turns.map Prod.snd))).filter (Batch.concerns "m" ⟨"k"⟩) ++
          (r.run still (turns.map Prod.snd)).dueOf 1 0 "m" ⟨"k"⟩ := by
  intro turns turns' r
  have hcalls : Rearranged (callsOf turns) (callsOf turns') := by
    have hclear : (Turn.clear "n" : Turn Empty).Independent (.mutate "m" ⟨"j"⟩ (some [2]) .put) :=
      Turn.independent_clear_mutate.2 (by decide)
    have hput : (Turn.mutate "m" ⟨"k"⟩ (some [1]) .put : Turn Empty).Independent
        (.mutate "m" ⟨"j"⟩ (some [2]) .put) := Turn.independent_mutate_mutate.2 (by decide)
    have hfirst : Swapped turns [turns[0], turns[2], turns[1]] :=
      .intro [turns[0]] (a := turns[1]) (b := turns[2]) [] hclear
    have hsecond : Swapped [turns[0], turns[2], turns[1]] (callsOf turns') :=
      .intro [] (a := turns[0]) (b := turns[2]) [turns[1]] hput
    exact (Relation.ReflTransGen.single hfirst).tail hsecond
  have hsteady : ∀ t ∈ turns ++ turns', t.2.IsSteady := by
    simp [turns, turns', Turn.IsSteady]
  obtain ⟨hreplies, hentries, -, hkeys⟩ :=
    rearranged_calls_agree still (n := 1) (by decide) [.connect] rfl hsteady
    hcalls
  have hsubscribed : 0 < r.grid.subscribers.length := by decide
  clear_value turns turns'
  dsimp only at hreplies hentries hkeys
  exact ⟨hreplies, hentries "m", (hkeys "m" ⟨"k"⟩).2 0 hsubscribed⟩

end Relay

end ClusterMap
