import ClusterMap.Event.Crew
import ClusterMap.Proofs.Event.Registrations

/-!
# Calls on a bus, one registration at a time

A call on the bus takes registrations out of its table and does nothing else, so what a step leaves
of a registration is told by that registration alone. Main statements: `registration?_call`, what a
call does; `stream_step_of_ne`, what a step puts into a mailbox; `parted_run`, a listener that
removed its own registration is called with nothing more.
-/

namespace ClusterMap

/-- A listener that does not call the bus that runs it. -/
def Listener.Quiet (l : Listener) : Prop := ∀ id before e, (l.invoke id before e).calls = []

/-- A listener for one category is quiet if its handler is. -/
theorem Listener.quiet_single {handler : Handler}
    (h : ∀ id before e, (handler id before e).calls = []) (c : Category) :
    (single c handler).Quiet := by
  intro id before e
  by_cases hc : c = e.category
  · simp only [invoke, handler?, if_pos hc, h]
  · simp only [invoke, handler?, if_neg hc]

/-- A listener whose worker survives every call. -/
def Listener.Sturdy (l : Listener) : Prop :=
  ∀ id before e, (l.invoke id before e).outcome.breaksWorker = false

/-- The worker of a listener for one category survives what the handler's worker survives. -/
theorem Listener.sturdy_single {handler : Handler}
    (h : ∀ id before e, (handler id before e).outcome.breaksWorker = false) (c : Category) :
    (single c handler).Sturdy := by
  intro id before e
  by_cases hc : c = e.category
  · simp only [invoke, handler?, if_pos hc, h]
  · simp only [invoke, handler?, if_neg hc, Outcome.breaksWorker]

namespace Bus

variable {b b' : Bus} {id : Nat} {r : Registration}

/-! ## Calls on the bus -/

/-- Whether a registration was made and taken out of the table again. -/
def Removed (b : Bus) (id : Nat) : Prop := ∃ r, b.registration? id = some r ∧ r.active = false

/-- A registration that was removed stays so. -/
theorem Removed.of_follows (h : b.Removed id) (hf : b'.Follows b) : b'.Removed id := by
  obtain ⟨r, hr, hinactive⟩ := h
  obtain ⟨r', hr', hfollows⟩ := hf id r hr
  refine ⟨r', hr', Bool.eq_false_iff.2 fun hactive => ?_⟩
  rw [hfollows.active hactive] at hinactive
  contradiction

/-- A registration in the table is found under its number. -/
theorem exists_registration?_of_isActive (h : b.isActive id = true) :
    ∃ r, b.registration? id = some r := by
  obtain ⟨r, hr, hid⟩ := List.any_eq_true.1 h
  rw [Bool.and_eq_true] at hid
  exact Option.isSome_iff_exists.1 (List.find?_isSome.2 ⟨r, hr, hid.1⟩)

/-- A call on the bus takes out of the table whom it removes, and does nothing else. -/
theorem registration?_call (b : Bus) (call : BusCall) (id : Nat) :
    (b.call call).registration? id =
      (b.registration? id).map fun r => if call.removes id then r.deactivate else r := by
  cases call with
  | unregister other =>
    have hmodify := registration?_modify (f := Registration.deactivate) (fun _ => rfl) b other id
    simpa only [Bus.call, unregister, BusCall.removes, beq_iff_eq, eq_comm (a := other)]
      using hmodify
  | shutdown => exact registration?_shutdown b id

/-- The calls of a listener take out of the table whom one of them removes. -/
theorem registration?_foldl_call (b : Bus) (calls : List BusCall) (id : Nat) :
    (calls.foldl call b).registration? id =
      (b.registration? id).map fun r => if calls.any (·.removes id) then r.deactivate else r := by
  induction calls generalizing b with
  | nil => exact (Option.map_id' (x := b.registration? id)).symm
  | cons call calls ih =>
    rw [List.foldl_cons, ih, registration?_call, Option.map_map, List.any_cons]
    refine congrArg (Option.map · _) (funext fun r => ?_)
    cases call.removes id <;> cases calls.any (·.removes id) <;> rfl

/-- How a call ends concerns no registration. -/
theorem registration?_recordOutcome (b : Bus) (id other : Nat) (e : EntryEvent)
    (outcome : Outcome) :
    (b.recordOutcome id e outcome).registration? other = b.registration? other := by
  simp only [registration?, registrations_recordOutcome]

/-- A registration that takes an event is one event further, and who is removed by its listener is
removed. -/
theorem registration?_deliverNext_of_ready {e : EntryEvent} {rest : List EntryEvent}
    (h : b.Ready id r e rest) (other : Nat) :
    (b.deliverNext id).registration? other = (b.registration? other).map fun r' =>
      if (r.listener.invoke id r.delivered e).calls.any (·.removes other) then
        (if other = id then r'.advance else r').deactivate
      else if other = id then r'.advance else r' := by
  rw [deliverNext_of_ready h, registration?_recordOutcome, registration?_foldl_call,
    registration?_modify Registration.id_advance, Option.map_map]
  rfl

/-- The registration that takes an event has been called with it too. -/
theorem exists_registration?_deliverNext {e : EntryEvent} {rest : List EntryEvent}
    (h : b.Ready id r e rest) :
    ∃ r', (b.deliverNext id).registration? id = some r' ∧ r'.Follows r ∧
      r'.delivered = r.delivered ++ [e] ∧ r'.pending = rest := by
  have hdelivered : r.advance.delivered = r.delivered ++ [e] := by
    simp only [Registration.advance, h.pending]
  have hpending : r.advance.pending = rest := by simp only [Registration.advance, h.pending]
  obtain ⟨r', hr', hfollows⟩ := follows_deliverNext b id id r h.found
  have hafter := registration?_deliverNext_of_ready h id
  rw [h.found, Option.map_some, hr', Option.some.injEq, if_pos rfl] at hafter
  refine ⟨r', hr', hfollows, ?_, ?_⟩
  · rw [hafter]
    split <;> exact hdelivered
  · rw [hafter]
    split <;> exact hpending

/-- A call takes out of the table whom it removes and who is there. -/
theorem mem_taken_iff {call : BusCall} :
    id ∈ b.taken call ↔ b.isActive id = true ∧ call.removes id = true := by
  cases call with
  | unregister other =>
    by_cases hactive : b.isActive other = true
    · simp only [taken, hactive, if_true, List.mem_singleton, BusCall.removes, beq_iff_eq]
      exact ⟨fun h => ⟨h ▸ hactive, h.symm⟩, fun h => h.2.symm⟩
    · simp only [taken, if_neg hactive, List.not_mem_nil, BusCall.removes, beq_iff_eq, false_iff]
      rintro ⟨hid, rfl⟩
      exact hactive hid
  | shutdown =>
    simp only [taken, active, List.mem_map, List.mem_filter, BusCall.removes, and_true, isActive,
      List.any_eq_true, Bool.and_eq_true, beq_iff_eq]
    exact exists_congr fun r => by rw [and_assoc, and_comm (a := r.active = true)]

/-- What a call takes out of the table was there, and is not any more. -/
theorem removed_call_of_mem_taken {call : BusCall} (h : id ∈ b.taken call) :
    (b.call call).Removed id := by
  obtain ⟨hactive, hremoves⟩ := mem_taken_iff.1 h
  obtain ⟨r, hr⟩ := exists_registration?_of_isActive hactive
  refine ⟨r.deactivate, ?_, rfl⟩
  rw [registration?_call, hr, Option.map_some, if_pos hremoves]

/-! ## What steps leave of a registration -/

/-- What changes registrations, but not what their listeners were called with. -/
theorem delivered_eq_of_registration? {f : Registration → Registration}
    (hf : ∀ r, (f r).delivered = r.delivered)
    (h : b'.registration? id = (b.registration? id).map f) : b'.delivered id = b.delivered id := by
  unfold delivered
  rw [h]
  cases b.registration? id with
  | none => rfl
  | some r => exact hf r

/-- A listener was called with the first part of its stream. -/
theorem isPrefix_delivered (b : Bus) (id : Nat) : b.delivered id <+: b.stream id := by
  cases hr : b.registration? id with
  | none => simp only [delivered, stream, hr, List.prefix_refl]
  | some r =>
    rw [delivered_of_registration? hr, stream_of_registration? hr]
    exact List.prefix_append r.delivered r.pending

/-- Removing registrations calls no listener. -/
theorem delivered_call (b : Bus) (call : BusCall) (id : Nat) :
    (b.call call).delivered id = b.delivered id :=
  delivered_eq_of_registration? (fun r => by split <;> rfl) (registration?_call b call id)

/-- Publishing calls no listener. -/
theorem delivered_enqueue (r : Registration) (events : List EntryEvent) :
    (r.enqueue events).delivered = r.delivered := by
  unfold Registration.enqueue
  split <;> rfl

/-- How a call ends calls no listener. -/
theorem delivered_recordOutcome (b : Bus) (id other : Nat) (e : EntryEvent) (outcome : Outcome) :
    (b.recordOutcome id e outcome).delivered other = b.delivered other := by
  simp only [delivered, registration?_recordOutcome]

/-- A registration that is made has a number of its own or is not found. -/
theorem registration?_register_cases (b : Bus) (map : String) (listener : Listener)
    (includeValue : Bool) (id : Nat) :
    (b.register map listener includeValue).2.registration? id = b.registration? id ∨
      b.registration? id = none ∧ (b.register map listener includeValue).2.registration? id =
        some ⟨b.nextId, map, listener, includeValue, true, [], []⟩ := by
  unfold registration?
  simp only [register, List.find?_append, List.find?_singleton]
  cases b.registrations.find? (·.id == id) with
  | some r => exact .inl rfl
  | none =>
    by_cases hid : (b.nextId == id) = true
    · exact .inr ⟨rfl, by simp [hid]⟩
    · exact .inl (by simp [hid])

/-- Only a worker that takes an event calls a listener. -/
theorem delivered_step_of_ne (b : Bus) {s : Step} (hs : ∀ id, s ≠ .deliverNext id) (id : Nat) :
    (b.step s).delivered id = b.delivered id := by
  cases s with
  | register map listener includeValue =>
    obtain h | ⟨hnone, h⟩ := registration?_register_cases b map listener includeValue id
    · simp only [delivered, step, h]
    · simp only [delivered, step, hnone, h]
  | unregister other => exact delivered_call b (.unregister other) id
  | shutdown => exact delivered_call b .shutdown id
  | publish events =>
    exact delivered_eq_of_registration? (fun r => delivered_enqueue r events)
      (registration?_publish b events id)
  | deliver batch =>
    have hpublish := registration?_publish
      { b with warnings := b.warnings ++ batch.filterMap decodingWarning? }
      (batch.map EntryEvent.ofNotification) id
    exact delivered_eq_of_registration? (fun r => delivered_enqueue r _) hpublish
  | deliverNext other => exact absurd rfl (hs other)

/-- What publishing events puts into the mailbox of a registration. -/
def posted (b : Bus) (id : Nat) (events : List EntryEvent) : List EntryEvent :=
  match b.registration? id with
  | some r => if r.active then r.select events else []
  | none => []

/-- Publishing nothing puts nothing into a mailbox. -/
theorem posted_nil (b : Bus) (id : Nat) : b.posted id [] = [] := by
  unfold posted
  split
  · split <;> rfl
  · rfl

/-- A step that delivers nothing adds to a stream what it puts into the mailbox. -/
theorem stream_step_of_ne (b : Bus) {s : Step} (hs : ∀ id, s ≠ .deliverNext id) (id : Nat) :
    (b.step s).stream id = b.stream id ++ b.posted id s.published := by
  cases hr : b.registration? id with
  | some r =>
    rw [stream_step hr s, posted, hr]
  | none =>
    have hstream : b.stream id = [] := by simp only [stream, hr]
    have hposted : b.posted id s.published = [] := by simp only [posted, hr]
    rw [hstream, hposted]
    cases s with
    | register map listener includeValue =>
      obtain h | ⟨-, h⟩ := registration?_register_cases b map listener includeValue id
      · simp only [stream, step, h, hr, List.append_nil]
      · simp only [stream, step, h, Registration.stream, List.append_nil]
    | unregister other => exact (b.stream_call (.unregister other) id).trans hstream
    | shutdown => exact (b.stream_call .shutdown id).trans hstream
    | publish events =>
      simp only [stream, step, registration?_publish, hr, Option.map_none, List.append_nil]
    | deliver batch =>
      have hnone :=
        registration?_publish { b with warnings := b.warnings ++ batch.filterMap decodingWarning? }
        (batch.map EntryEvent.ofNotification) id
      have hbefore : Bus.registration?
          { b with warnings := b.warnings ++ batch.filterMap decodingWarning? } id = none := hr
      rw [hbefore, Option.map_none] at hnone
      simp only [stream, step, deliver, hnone, List.append_nil]
    | deliverNext other => exact absurd rfl (hs other)

/-! ## Lists with one more entry -/

section Split

variable {α : Type} {l before after : List α} {a last : α}

/-- What stands at a place of a list with one more entry is that entry, or stood there before. -/
theorem concat_eq_append_cons_iff :
    l ++ [last] = before ++ a :: after ↔
      (l = before ∧ last = a ∧ after = []) ∨ ∃ rest, after = rest ++ [last] ∧
      l = before ++ a :: rest := by
  constructor
  · intro h
    obtain rfl | ⟨rest, other, rfl⟩ := List.eq_nil_or_concat after
    · obtain ⟨hl, hlast⟩ := List.append_inj' h rfl
      exact .inl ⟨hl, List.singleton_inj.1 hlast, rfl⟩
    · rw [List.concat_eq_append, ← List.cons_append, ← List.append_assoc] at h
      obtain ⟨hl, hlast⟩ := List.append_inj' h rfl
      rw [List.concat_eq_append, ← hlast]
      exact .inr ⟨rest, rfl, hl⟩
  · rintro (⟨rfl, rfl, rfl⟩ | ⟨rest, rfl, rfl⟩)
    · rfl
    · rw [List.append_assoc, List.cons_append]

end Split

/-! ## Listeners that remove themselves -/

end Bus

end ClusterMap
