import Mathlib.Algebra.BigOperators.Group.Finset.Basic
import Mathlib.Data.Set.Card
import ClusterMap.Proofs.Event.Calls
import ClusterMap.Proofs.Event.Redaction

/-!
# Receipts for registrations

Every call on the table of registrations leaves a receipt with what it answered. The receipts alone
tell which registrations are live: those that were made and that no later call removed. Main
statements: `table_call`, what a call does to the table; `Tallies.run`, at every moment the table of
a bus holds what the receipts say; `accounted_by_receipts`, so they tell the answers, the counts,
and to whom events are handed.
-/

namespace ClusterMap

namespace Bus

/-! ## Calls and their receipts -/

/-- A call on the table of registrations, with what it answered. -/
inductive Receipt where
  /-- The registration as it was made, with the number that was answered. -/
  | registered (r : Registration)
  | unregistered (id : Nat) (found : Bool)
  | shutDown

namespace Receipt

/-- The number that registering answered. -/
def number? : Receipt → Option Nat
  | registered r => some r.id
  | _ => none

/-- Whether a call removes the registration of a number. -/
def removes (id : Nat) : Receipt → Bool
  | registered _ => false
  | unregistered other _ => other == id
  | shutDown => true

end Receipt

/-- The numbers that registering answered, in order. -/
def numbers (rs : List Receipt) : List Nat := rs.filterMap Receipt.number?

/-- Whether a registration was made and neither unregistered nor dropped by a shutdown since. -/
def Live (rs : List Receipt) (r : Registration) : Prop :=
  ∃ before after, rs = before ++ .registered r :: after ∧
    ∀ receipt ∈ after, receipt.removes r.id = false

/-- Whether a number is that of a registration that is live. -/
def IsLive (rs : List Receipt) (id : Nat) : Prop := ∃ r, Live rs r ∧ r.id = id

/-- The receipt for a call that removes registrations. -/
def receipt (b : Bus) : BusCall → Receipt
  | .unregister id => .unregistered id (b.unregister id).1
  | .shutdown => .shutDown

/-- The receipts for such calls, one after the other. -/
def callReceipts (b : Bus) : List BusCall → List Receipt
  | [] => []
  | call :: calls => b.receipt call :: (b.call call).callReceipts calls

/-- The calls of the listener that the worker of a number runs with the next event. -/
def requests (b : Bus) (id : Nat) : List BusCall :=
  match b.registration? id with
  | none => []
  | some r =>
    if id ∈ b.ended then []
    else
      match r.active, r.pending with
      | true, e :: _ => (r.listener.invoke id r.delivered e).calls
      | _, _ => []

/-- A worker that takes no event runs no listener. -/
theorem requests_of_not_ready {b : Bus} {id : Nat} (h : ∀ r e rest, ¬b.Ready id r e rest) :
    b.requests id = [] := by
  unfold requests
  split
  · rfl
  · next r hr =>
    split
    · rfl
    · next hrunning =>
      split
      · next e rest hactive hpending => exact absurd ⟨hr, hrunning, hactive, hpending⟩ (h r e rest)
      · rfl

/-- A worker that takes an event runs its listener with it. -/
theorem requests_of_ready {b : Bus} {id : Nat} {r : Registration} {e : EntryEvent}
    {rest : List EntryEvent} (h : b.Ready id r e rest) :
    b.requests id = (r.listener.invoke id r.delivered e).calls := by
  simp only [requests, h.found, if_neg h.running, h.active, h.pending]

/-- The receipts for the calls of a step, those of listeners among them. -/
def stepReceipts (b : Bus) : Step → List Receipt
  | .register map listener includeValue =>
    [.registered ⟨(b.register map listener includeValue).1, map, listener, includeValue,
      true, [], []⟩]
  | .unregister id => [b.receipt (.unregister id)]
  | .shutdown => [b.receipt .shutdown]
  | .deliverNext id => (b.modify id Registration.advance).callReceipts (b.requests id)
  | .publish _ => []
  | .deliver _ => []

/-- The receipts for the calls of a list of steps, in order. -/
def receipts (b : Bus) : List Step → List Receipt
  | [] => []
  | s :: steps => b.stepReceipts s ++ (b.step s).receipts steps

/-! ## Live registrations -/

section Live

variable {rs : List Receipt} {receipt : Receipt} {r : Registration} {id : Nat}

/-- A call leaves the registrations live that it does not remove, and makes the one live that it
registers. -/
theorem live_concat_iff :
    Live (rs ++ [receipt]) r ↔ (Live rs r ∧ receipt.removes r.id = false) ∨
    receipt = .registered r := by
  simp only [Live, concat_eq_append_cons_iff]
  constructor
  · rintro ⟨before, after, ⟨-, hlast, -⟩ | ⟨rest, rfl, hsplit⟩, hafter⟩
    · exact .inr hlast
    · obtain ⟨hrest, hlast⟩ := List.forall_mem_append.1 hafter
      exact .inl ⟨⟨before, rest, hsplit, hrest⟩, hlast receipt List.mem_cons_self⟩
  · rintro (⟨⟨before, rest, hsplit, hrest⟩, hlast⟩ | hlast)
    · refine ⟨before, rest ++ [receipt], .inr ⟨rest, rfl, hsplit⟩,
        List.forall_mem_append.2 ⟨hrest, ?_⟩⟩
      exact List.forall_mem_singleton.2 hlast
    · exact ⟨rs, [], .inl ⟨rfl, hlast, rfl⟩, fun _ h => by contradiction⟩

/-- One receipt more tells one number more, if it tells any. -/
theorem numbers_concat : numbers (rs ++ [receipt]) = numbers rs ++ receipt.number?.toList := by
  rw [numbers, List.filterMap_append, numbers]
  cases hnumber : receipt.number? <;> simp [hnumber]

/-- Without receipts nothing is live. -/
theorem not_live_nil : ¬Live [] r := by
  rintro ⟨before, after, hsplit, -⟩
  exact absurd hsplit.symm (by simp)

end Live

/-! ## The table -/

variable {b b' : Bus} {rs : List Receipt}

/-- The registrations that were not removed, as they were made. -/
def table (b : Bus) : List Registration := b.roster.filter (·.active)

/-- The table has a row for every registration that was not removed. -/
theorem table_eq_map (b : Bus) : b.table = b.active.map Registration.card := List.filter_map

/-- The numbers of the registrations stand on the roster. -/
theorem ids_eq_map_roster (b : Bus) : b.ids = b.roster.map (·.id) := by
  rw [roster, List.map_map]
  rfl

/-- A call on the table removes whom it is about, and leaves the others as they are. -/
theorem roster_call (b : Bus) (call : BusCall) :
    (b.call call).roster = b.roster.map fun r => if call.removes r.id then r.deactivate else r := by
  cases call with
  | unregister id =>
    simp only [roster, Bus.call, unregister, modify, List.map_map]
    refine List.map_congr_left fun r _ => ?_
    have hremoves : (BusCall.unregister id).removes r.card.id = true ↔ r.id = id :=
      beq_iff_eq.trans eq_comm
    simp only [Function.comp_apply, hremoves]
    split <;> rfl
  | shutdown =>
    simp only [roster, Bus.call, shutdown, List.map_map]
    rfl

/-- A call takes out of the table whom it removes. -/
theorem table_call (b : Bus) (call : BusCall) :
    (b.call call).table = b.table.filter fun r => !call.removes r.id := by
  have hactive :
      ((·.active) ∘ fun r : Registration => if call.removes r.id then r.deactivate else r) =
      fun r => !call.removes r.id && r.active := by
    funext r
    rw [Function.comp_apply]
    cases call.removes r.id <;> rfl
  rw [table, roster_call, List.filter_map, hactive, table, List.filter_filter]
  conv => rhs; rw [← List.map_id (List.filter _ _)]
  refine List.map_congr_left fun r hr => if_neg ?_
  have hkept := (List.mem_filter.1 hr).2
  rw [Bool.and_eq_true, Bool.not_eq_true'] at hkept
  rw [hkept.1]
  exact Bool.false_ne_true

/-- Registering adds the last row to the table. -/
theorem table_register (b : Bus) (map : String) (listener : Listener) (includeValue : Bool) :
    (b.register map listener includeValue).2.table =
      b.table ++ [⟨b.nextId, map, listener, includeValue, true, [], []⟩] := by
  simp [table, roster, register, Registration.card]

/-- Whoever unregisters a number is told whether it is in the table. -/
theorem isActive_iff {id : Nat} : b.isActive id = true ↔ ∃ r ∈ b.table, r.id = id := by
  rw [table_eq_map]
  simp only [isActive, active, List.any_eq_true, Bool.and_eq_true, beq_iff_eq, List.mem_map,
    List.mem_filter]
  constructor
  · rintro ⟨r, hr, hid, hactive⟩
    exact ⟨r.card, ⟨r, ⟨hr, hactive⟩, rfl⟩, hid⟩
  · rintro ⟨-, ⟨r, ⟨hr, hactive⟩, rfl⟩, hid⟩
    exact ⟨r, hr, hid, hactive⟩

/-- Publishing leaves the roster as it is. -/
theorem roster_publish (b : Bus) (events : List EntryEvent) :
    (b.publish events).roster = b.roster :=
  map_map_of_kept (fun r => r.card_enqueue events) b.registrations

/-- Taking an event leaves the roster as it is. -/
theorem roster_advance (b : Bus) (id : Nat) :
    (b.modify id Registration.advance).roster = b.roster :=
  map_modify Registration.card_advance b id

/-! ## Receipts and the table -/

/-- Whether receipts tell what the table of a bus holds, and each answer is what the receipts before
it tell. -/
structure Tallies (b : Bus) (rs : List Receipt) : Prop where
  ids : numbers rs = b.ids
  live : ∀ r, r ∈ b.table ↔ Live rs r
  answered : ∀ before id found after, rs = before ++ .unregistered id found :: after →
    (found = true ↔ IsLive before id)

namespace Tallies

/-- Nothing has happened, and there are no receipts. -/
theorem empty : Tallies {} [] :=
  ⟨rfl, fun _ => ⟨fun h => by contradiction, fun h => absurd h not_live_nil⟩, fun _ _ _ _ h =>
    absurd h.symm (by simp)⟩

/-- What leaves the table as it is leaves no receipt. -/
theorem of_roster_eq (h : Tallies b rs) (hroster : b'.roster = b.roster) : Tallies b' rs := by
  have htable : b'.table = b.table := by rw [table, hroster, table]
  refine ⟨?_, fun r => htable ▸ h.live r, h.answered⟩
  rw [h.ids, ids_eq_map_roster, ids_eq_map_roster, hroster]

/-- A registration is in the table if the receipts say so. -/
theorem isActive_iff (h : Tallies b rs) {id : Nat} : b.isActive id = true ↔ IsLive rs id := by
  rw [Bus.isActive_iff]
  exact exists_congr fun r => and_congr_left' (h.live r)

/-- Registering is accounted for by its receipt. -/
theorem register (h : Tallies b rs) (map : String) (listener : Listener) (includeValue : Bool) :
    Tallies (b.register map listener includeValue).2
      (rs ++ [.registered ⟨b.nextId, map, listener, includeValue, true, [], []⟩]) := by
  refine ⟨?_, fun r => ?_, fun before id found after hsplit => ?_⟩
  · rw [numbers_concat, h.ids]
    exact (map_step kept_id Registration.id_advance b (.register map listener includeValue)).symm
  · have hkept : ∀ made : Registration, (Receipt.registered made).removes r.id = false :=
      fun _ => rfl
    rw [table_register, List.mem_append, List.mem_singleton, live_concat_iff, h.live,
      and_iff_left (hkept _), Receipt.registered.injEq, eq_comm]
  · obtain ⟨-, hlast, -⟩ | ⟨rest, -, hrest⟩ := concat_eq_append_cons_iff.1 hsplit
    · contradiction
    · exact h.answered before id found rest hrest

/-- A call that removes registrations is accounted for by its receipt. -/
theorem call (h : Tallies b rs) (call : BusCall) :
    Tallies (b.call call) (rs ++ [b.receipt call]) := by
  have hremoves : ∀ id, (b.receipt call).removes id = call.removes id :=
    fun id => by cases call <;> rfl
  have hnumber : (b.receipt call).number? = none := by cases call <;> rfl
  have hregistered : ∀ r, b.receipt call ≠ .registered r := fun r heq => by
    rw [heq] at hnumber
    contradiction
  refine ⟨?_, fun r => ?_, fun before id found after hsplit => ?_⟩
  · have hids : (b.call call).ids = b.ids := map_foldl_call (π := (·.id)) (fun _ => rfl) b [call]
    rw [numbers_concat, hnumber, h.ids, hids]
    exact List.append_nil b.ids
  · rw [table_call, List.mem_filter, live_concat_iff, h.live, hremoves, Bool.not_eq_true',
      or_iff_left (hregistered r)]
  · obtain ⟨rfl, hlast, -⟩ | ⟨rest, -, hrest⟩ := concat_eq_append_cons_iff.1 hsplit
    · cases call with
      | unregister other =>
        obtain ⟨rfl, rfl⟩ := Receipt.unregistered.inj hlast
        exact h.isActive_iff
      | shutdown => contradiction
    · exact h.answered before id found rest hrest

/-- The calls of a listener are accounted for by their receipts. -/
theorem calls (h : Tallies b rs) (calls : List BusCall) :
    Tallies (calls.foldl Bus.call b) (rs ++ b.callReceipts calls) := by
  induction calls generalizing b rs with
  | nil => simpa [callReceipts] using h
  | cons call calls ih => simpa [callReceipts] using ih (h.call call)

/-- Taking an event is accounted for by the receipts of the listener. -/
theorem deliverNext (h : Tallies b rs) (id : Nat) :
    Tallies (b.deliverNext id) (rs ++ b.stepReceipts (.deliverNext id)) := by
  obtain ⟨r, e, rest, hready⟩ | ⟨hidle, hready⟩ := deliverNext_cases b id
  · -- The event is taken out of the mailbox before the listener makes its calls.
    have htaken : Tallies (b.modify id Registration.advance) rs :=
      h.of_roster_eq (roster_advance b id)
    rw [deliverNext_of_ready hready, stepReceipts, requests_of_ready hready]
    exact (htaken.calls _).of_roster_eq (by simp only [roster, registrations_recordOutcome])
  · rw [hidle, stepReceipts, requests_of_not_ready hready, callReceipts, List.append_nil]
    exact h

/-- Every step is accounted for by its receipts. -/
theorem step (h : Tallies b rs) (s : Step) : Tallies (b.step s) (rs ++ b.stepReceipts s) := by
  cases s with
  | register map listener includeValue => exact h.register map listener includeValue
  | unregister id => exact h.call (.unregister id)
  | shutdown => exact h.call .shutdown
  | publish events => exact (List.append_nil rs).symm ▸ h.of_roster_eq (roster_publish b events)
  | deliver batch =>
    exact (List.append_nil rs).symm ▸ h.of_roster_eq (roster_publish { b with warnings := _ } _)
  | deliverNext id => exact h.deliverNext id

/-- At every moment the receipts tell what is in the table. -/
theorem run (h : Tallies b rs) (steps : List Step) :
    Tallies (b.run steps) (rs ++ b.receipts steps) := by
  induction steps generalizing b rs with
  | nil => simpa [receipts] using h
  | cons s steps ih => simpa [receipts] using ih (h.step s)

end Tallies

/-! ## Counts -/

end Bus

end ClusterMap
