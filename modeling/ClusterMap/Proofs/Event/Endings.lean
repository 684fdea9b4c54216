import ClusterMap.Proofs.Event.Calls

/-!
# How calls of listeners end

A call of a listener that does not end well is reported and counted, or its worker panics over what
the listener left behind and ends. So a listener is called with the events of its mailbox up to the
first call that its worker does not survive. Main statements: `accounted_run`, what a bus has
counted; `halting_run`, whose workers have ended; `delivered_eq_of_rest`, what a listener was called
with once its worker has come to rest.
-/

namespace ClusterMap

/-! ## Calls of a listener -/

namespace Listener

variable (l : Listener) (id : Nat) (before events later : List EntryEvent) (e : EntryEvent)

/-- How the calls of a listener with a list of events end, one event after the other, when it was
called with `before` already. -/
def outcomes (l : Listener) (id : Nat) (before : List EntryEvent) : List EntryEvent → List Outcome
  | [] => []
  | e :: rest => (l.invoke id before e).outcome :: l.outcomes id (before ++ [e]) rest

/-- The call with one more event ends last. -/
theorem outcomes_concat :
    l.outcomes id before (events ++ [e]) =
      l.outcomes id before events ++ [(l.invoke id (before ++ events) e).outcome] := by
  induction events generalizing before with
  | nil => simp [outcomes]
  | cons e' events ih => simp [outcomes, ih]

/-- Whether the worker does not survive one of the calls with a list of events. -/
def breaks : Bool := (l.outcomes id before events).any Outcome.breaksWorker

/-- The worker survives the calls with one more event if it survives those before and the last
one. -/
theorem breaks_concat :
    l.breaks id before (events ++ [e]) =
      (l.breaks id before events || (l.invoke id (before ++ events) e).outcome.breaksWorker) := by
  simp only [breaks, outcomes_concat, List.any_append, List.any_cons, List.any_nil, Bool.or_false]

/-- The events of a list up to the first one that the worker does not survive. -/
def untilBroken (l : Listener) (id : Nat) (before : List EntryEvent) :
    List EntryEvent → List EntryEvent
  | [] => []
  | e :: rest =>
    if (l.invoke id before e).outcome.breaksWorker then [e]
    else e :: l.untilBroken id (before ++ [e]) rest

/-- They are a first part of the list. -/
theorem untilBroken_isPrefix : l.untilBroken id before events <+: events := by
  induction events generalizing before with
  | nil => exact List.prefix_refl []
  | cons e rest ih =>
    unfold untilBroken
    split
    · exact ⟨rest, rfl⟩
    · exact (List.prefix_cons_inj e).2 (ih (before ++ [e]))

/-- What follows a list counts if the worker survives the list. -/
theorem untilBroken_append :
    l.untilBroken id before (events ++ later) =
      if l.breaks id before events then l.untilBroken id before events
      else events ++ l.untilBroken id (before ++ events) later := by
  induction events generalizing before with
  | nil => simp [breaks, outcomes]
  | cons e rest ih =>
    have hbreaks : l.breaks id before (e :: rest) =
        ((l.invoke id before e).outcome.breaksWorker || l.breaks id (before ++ [e]) rest) := rfl
    rw [List.cons_append, untilBroken, untilBroken, ih, hbreaks, List.append_assoc,
      List.singleton_append]
    cases (l.invoke id before e).outcome.breaksWorker with
    | true => rfl
    | false => cases l.breaks id (before ++ [e]) rest <;> rfl

/-- A list is handed over as a whole if the worker survives every call but the last. -/
theorem untilBroken_eq_self_iff :
    l.untilBroken id before events = events ↔ l.breaks id before events.dropLast = false := by
  obtain rfl | ⟨init, last, rfl⟩ := List.eq_nil_or_concat events
  · exact ⟨fun _ => rfl, fun _ => rfl⟩
  have hlast : l.untilBroken id (before ++ init) [last] = [last] := by
    simp only [untilBroken, ite_self]
  rw [List.concat_eq_append, List.dropLast_concat, untilBroken_append]
  cases hbreaks : l.breaks id before init with
  | true =>
    have hshort : (l.untilBroken id before init).length ≤ init.length :=
      (l.untilBroken_isPrefix id before init).length_le
    refine ⟨fun h => ?_, fun h => by contradiction⟩
    rw [if_pos rfl] at h
    rw [h, List.length_append, List.length_singleton] at hshort
    omega
  | false => exact ⟨fun _ => rfl, fun _ => by rw [if_neg Bool.false_ne_true, hlast]⟩

/-- Which events are handed over is decided by the calls that the worker does not survive. -/
theorem untilBroken_congr {l l' : Listener} {id id' : Nat}
    (h : ∀ before e, (l'.invoke id' before e).outcome.breaksWorker =
      (l.invoke id before e).outcome.breaksWorker) (before events : List EntryEvent) :
    l'.untilBroken id' before events = l.untilBroken id before events := by
  induction events generalizing before with
  | nil => rfl
  | cons e rest ih => rw [untilBroken, untilBroken, h, ih]

end Listener

/-! ## The ends of all calls -/

/-- Every handler that did not end well is reported or takes its worker down, and none does both. -/
theorem countP_isFailure (outcomes : List Outcome) :
    outcomes.countP Outcome.isFailure =
      outcomes.countP (fun o => o.failure?.isSome) + outcomes.countP Outcome.breaksWorker := by
  induction outcomes with
  | nil => rfl
  | cons o outcomes ih =>
    simp only [List.countP_cons, ih, o.isFailure_eq]
    cases hbreaks : o.breaksWorker with
    | true =>
      simp only [Outcome.failure?_of_breaksWorker hbreaks, Option.isSome_none,
        Bool.or_true, if_true, if_neg Bool.false_ne_true]
      omega
    | false =>
      simp only [Bool.or_false, if_neg Bool.false_ne_true]
      omega

namespace Registration

/-- How the calls of the listener ended, oldest first. -/
def outcomes (r : Registration) : List Outcome := r.listener.outcomes r.id [] r.delivered

/-- How many calls of the listener ended in a certain way. -/
def endings (p : Outcome → Bool) (r : Registration) : Nat := r.outcomes.countP p

/-- How many calls of the listener did not end well. -/
def failures (r : Registration) : Nat := r.endings Outcome.isFailure

/-- Publishing calls no listener. -/
theorem endings_enqueue (p : Outcome → Bool) (r : Registration) (events : List EntryEvent) :
    (r.enqueue events).endings p = r.endings p := by
  unfold enqueue
  split <;> rfl

/-- The call with the next event counts if it ends in that way. -/
theorem endings_advance (p : Outcome → Bool) {r : Registration} {e : EntryEvent}
    {rest : List EntryEvent} (h : r.pending = e :: rest) :
    r.advance.endings p =
      r.endings p + if p (r.listener.invoke r.id r.delivered e).outcome then 1 else 0 := by
  have hadvance : r.advance = { r with delivered := r.delivered ++ [e], pending := rest } := by
    simp only [advance, h]
  have houtcomes : r.advance.outcomes =
      r.outcomes ++ [(r.listener.invoke r.id r.delivered e).outcome] := by
    rw [hadvance]
    exact r.listener.outcomes_concat r.id [] r.delivered e
  rw [endings, houtcomes, List.countP_append, List.countP_singleton]
  rfl

end Registration

namespace Bus

variable {b : Bus} {id : Nat} {r : Registration}

/-- How many calls of all listeners ended in a certain way. -/
def endings (p : Outcome → Bool) (b : Bus) : Nat :=
  (b.registrations.map (Registration.endings p)).sum

/-- Calls that did not end well were reported or took a worker down. -/
theorem endings_isFailure (b : Bus) :
    b.endings Outcome.isFailure =
      b.endings (fun o => o.failure?.isSome) + b.endings Outcome.breaksWorker := by
  unfold endings
  induction b.registrations with
  | nil => rfl
  | cons r rs ih =>
    have hcount := countP_isFailure r.outcomes
    simp only [List.map_cons, List.sum_cons, Registration.endings] at ih hcount ⊢
    omega

/-- A step that delivers nothing ends no call. -/
theorem endings_step_of_ne (p : Outcome → Bool) (b : Bus) {s : Step}
    (hs : ∀ id, s ≠ .deliverNext id) :
    (b.step s).endings p = b.endings p := by
  have hkept : Kept (Registration.endings p) := ⟨Registration.endings_enqueue p, fun _ => rfl⟩
  have hmade : ((b.made s).map (Registration.endings p)).sum = 0 := by cases s <;> rfl
  rw [endings, map_step_of_ne hkept b hs, List.sum_append, hmade]
  rfl

/-- Taking an event ends one call more. -/
theorem endings_deliverNext (p : Outcome → Bool) (hn : b.Numbered) {e : EntryEvent}
    {rest : List EntryEvent} (h : b.Ready id r e rest) :
    (b.deliverNext id).endings p =
      b.endings p + if p (r.listener.invoke id r.delivered e).outcome then 1 else 0 := by
  obtain ⟨earlier, later, hbefore, hafter⟩ := registrations_modify hn h.found Registration.advance
  have hid : r.id = id := by simpa using List.find?_some h.found
  have hcall := Registration.endings_advance p h.pending
  rw [hid] at hcall
  rw [endings, endings, deliverNext_of_ready h, registrations_recordOutcome,
    map_foldl_call fun _ => rfl, hafter, hbefore]
  simp only [List.map_append, List.map_cons, List.sum_append, List.sum_cons, hcall]
  omega

/-! ## The count of failures -/

/-- Whether a bus has counted the calls that were reported, in a word, and lists a worker for each
call that took one down. -/
structure Accounted (b : Bus) : Prop where
  reported : b.failureWord = .ofNat (b.endings fun o => o.failure?.isSome)
  ended : b.ended.length = b.endings Outcome.breaksWorker

/-- What listeners call on the bus counts nothing and ends nobody. -/
theorem counts_foldl_call (b : Bus) (calls : List BusCall) :
    (calls.foldl call b).failureWord = b.failureWord ∧ (calls.foldl call b).ended = b.ended := by
  induction calls generalizing b with
  | nil => exact ⟨rfl, rfl⟩
  | cons c calls ih =>
    obtain ⟨hword, hended⟩ := ih (b.call c)
    rw [List.foldl_cons, hword, hended]
    cases c <;> exact ⟨rfl, rfl⟩

/-- What is reported is counted. -/
theorem failureWord_recordOutcome (b : Bus) (id : Nat) (e : EntryEvent) (outcome : Outcome) :
    (b.recordOutcome id e outcome).failureWord =
      b.failureWord + .ofNat (if outcome.failure?.isSome then 1 else 0) := by
  unfold recordOutcome
  split
  · next hbreaks =>
    rw [Outcome.failure?_of_breaksWorker hbreaks]
    exact (UInt64.add_zero _).symm
  · split
    · next hnone =>
      rw [hnone]
      exact (UInt64.add_zero _).symm
    · next hsome =>
      rw [hsome]
      rfl

/-- A worker ends over what it does not survive. -/
theorem ended_recordOutcome (b : Bus) (id : Nat) (e : EntryEvent) (outcome : Outcome) :
    (b.recordOutcome id e outcome).ended = if outcome.breaksWorker then id :: b.ended
      else b.ended := by
  unfold recordOutcome
  split
  · rfl
  · split <;> rfl

/-- A worker that takes an event ends if it does not survive the call. -/
theorem ended_deliverNext {e : EntryEvent} {rest : List EntryEvent} (h : b.Ready id r e rest) :
    (b.deliverNext id).ended =
      if (r.listener.invoke id r.delivered e).outcome.breaksWorker then id :: b.ended
        else b.ended := by
  rw [deliverNext_of_ready h, ended_recordOutcome, (counts_foldl_call _ _).2]
  rfl

/-- Taking an event ends the worker that takes it, if it does not survive the call, and no other. -/
theorem mem_ended_deliverNext_iff {other : Nat} {e : EntryEvent} {rest : List EntryEvent}
    (h : b.Ready other r e rest) :
    id ∈ (b.deliverNext other).ended ↔
      id = other ∧ (r.listener.invoke other r.delivered e).outcome.breaksWorker = true ∨
        id ∈ b.ended := by
  rw [ended_deliverNext h]
  split
  · next hbreaks => simp only [List.mem_cons, hbreaks, and_true]
  · next hsurvives => exact (or_iff_right fun htaken => hsurvives htaken.2).symm

/-- A worker that has ended does not come back. -/
theorem mem_ended_deliverNext (hid : id ∈ b.ended) (other : Nat) :
    id ∈ (b.deliverNext other).ended := by
  obtain ⟨r, e, rest, hready⟩ | ⟨hidle, -⟩ := deliverNext_cases b other
  · exact (mem_ended_deliverNext_iff hready).2 (.inr hid)
  · rw [hidle]
    exact hid

/-- A step that delivers nothing counts nothing and ends nobody. -/
theorem counts_step_of_ne (b : Bus) {s : Step} (hs : ∀ id, s ≠ .deliverNext id) :
    (b.step s).failureWord = b.failureWord ∧ (b.step s).ended = b.ended := by
  cases s with
  | deliverNext id => exact absurd rfl (hs id)
  | _ => exact ⟨rfl, rfl⟩

/-- Taking an event keeps the account. -/
theorem accounted_deliverNext (hn : b.Numbered) (h : b.Accounted) (id : Nat) :
    (b.deliverNext id).Accounted := by
  obtain ⟨r, e, rest, hready⟩ | ⟨hidle, -⟩ := deliverNext_cases b id
  · constructor
    · have hword : (b.modify id Registration.advance).failureWord = b.failureWord := rfl
      rw [endings_deliverNext _ hn hready, UInt64.ofNat_add, ← h.reported,
        deliverNext_of_ready hready, failureWord_recordOutcome, (counts_foldl_call _ _).1, hword]
    · rw [endings_deliverNext _ hn hready, ← h.ended, ended_deliverNext hready]
      split <;> rfl
  · rw [hidle]
    exact h

/-- Every step keeps the account. -/
theorem accounted_step (hn : b.Numbered) (h : b.Accounted) (s : Step) : (b.step s).Accounted := by
  have hkept : (∀ id, s ≠ .deliverNext id) → (b.step s).Accounted := fun hs => by
    obtain ⟨hword, hended⟩ := counts_step_of_ne b hs
    constructor
    · rw [hword, endings_step_of_ne _ b hs]
      exact h.reported
    · rw [hended, endings_step_of_ne _ b hs]
      exact h.ended
  cases s with
  | deliverNext id => exact accounted_deliverNext hn h id
  | _ => exact hkept fun id hs => by contradiction

/-- In every run what was reported is counted, and what took a worker down is not. -/
theorem accounted_run (hn : b.Numbered) (h : b.Accounted) (steps : List Step) :
    (b.run steps).Accounted := by
  induction steps generalizing b with
  | nil => exact h
  | cons s steps ih => exact ih (numbered_step hn s) (accounted_step hn h s)

/-! ## Workers that have ended -/

/-- Whether the workers that have ended are those that did not survive a call, each with its last
event. -/
structure Halting (b : Bus) : Prop where
  known : ∀ id ∈ b.ended, ∃ r, b.registration? id = some r
  delivered : ∀ id r, b.registration? id = some r →
    r.listener.untilBroken id [] r.delivered = r.delivered
  ended : ∀ id r, b.registration? id = some r →
    (id ∈ b.ended ↔ r.listener.breaks id [] r.delivered = true)

/-- Nothing has happened yet. -/
theorem halting_empty : Halting {} :=
  ⟨fun _ h => by contradiction, fun _ _ h => by contradiction, fun _ _ h => by contradiction⟩

/-- After a step that delivers nothing a registration is what it was and was called with the same,
or it was just made. -/
theorem registration?_step_cases {s : Step} (hs : ∀ id, s ≠ .deliverNext id) {r' : Registration}
    (hr' : (b.step s).registration? id = some r') :
    (∃ r, b.registration? id = some r ∧ r'.listener = r.listener ∧ r'.delivered = r.delivered) ∨
      b.registration? id = none ∧ r'.delivered = [] := by
  have hdelivered := delivered_step_of_ne b hs id
  rw [delivered_of_registration? hr'] at hdelivered
  cases hr : b.registration? id with
  | some r =>
    obtain ⟨r'', hr'', hf⟩ := follows_step b s id r hr
    obtain rfl : r' = r'' := Option.some.inj (hr'.symm.trans hr'')
    rw [delivered_of_registration? hr] at hdelivered
    exact .inl ⟨r, rfl, hf.listener, hdelivered⟩
  | none =>
    rw [hdelivered]
    exact .inr ⟨rfl, by simp only [Bus.delivered, hr]⟩

/-- A step that delivers nothing ends no worker, and calls nobody. -/
theorem halting_step_of_ne (h : b.Halting) {s : Step} (hs : ∀ id, s ≠ .deliverNext id) :
    (b.step s).Halting := by
  have hended : (b.step s).ended = b.ended := (counts_step_of_ne b hs).2
  constructor
  · intro id hid
    rw [hended] at hid
    obtain ⟨r, hr⟩ := h.known id hid
    obtain ⟨r', hr', -⟩ := follows_step b s id r hr
    exact ⟨r', hr'⟩
  · intro id r' hr'
    obtain ⟨r, hr, hlistener, hdelivered⟩ | ⟨-, hnone⟩ := registration?_step_cases hs hr'
    · rw [hlistener, hdelivered]
      exact h.delivered id r hr
    · rw [hnone]
      rfl
  · intro id r' hr'
    rw [hended]
    obtain ⟨r, hr, hlistener, hdelivered⟩ | ⟨hnew, hnone⟩ := registration?_step_cases hs hr'
    · rw [hlistener, hdelivered]
      exact h.ended id r hr
    · have hrunning : id ∉ b.ended := fun hid => by
        obtain ⟨r, hr⟩ := h.known id hid
        rw [hnew] at hr
        contradiction
      rw [hnone]
      exact ⟨fun hid => absurd hid hrunning, fun hbreaks => by contradiction⟩

/-- Taking an event leaves the other registrations what they are and what they were called with. -/
theorem exists_registration?_deliverNext_of_ne {other : Nat} {e : EntryEvent}
    {rest : List EntryEvent} (h : b.Ready other r e rest) (hid : id ≠ other) {r' : Registration}
    (hr' : (b.deliverNext other).registration? id = some r') :
    ∃ r₀, b.registration? id = some r₀ ∧ r'.listener = r₀.listener ∧
      r'.delivered = r₀.delivered := by
  have hafter := registration?_deliverNext_of_ready h id
  rw [hr'] at hafter
  obtain ⟨r₀, hr₀, heq⟩ := Option.map_eq_some_iff.1 hafter.symm
  rw [if_neg hid] at heq
  refine ⟨r₀, hr₀, ?_, ?_⟩ <;> rw [← heq] <;> split <;> rfl

/-- A worker that takes an event was called with nothing that it did not survive. -/
theorem halting_deliverNext (h : b.Halting) (other : Nat) : (b.deliverNext other).Halting := by
  obtain ⟨hidle, -⟩ | ⟨r, e, rest, hready⟩ := (deliverNext_cases b other).symm
  · rw [hidle]
    exact h
  have hsurvived : r.listener.breaks other [] r.delivered = false :=
    Bool.eq_false_iff.2 fun hbreaks => hready.running ((h.ended other r hready.found).2 hbreaks)
  obtain ⟨rₑ, hrₑ, hfollows, hdelivered, -⟩ := exists_registration?_deliverNext hready
  have htaker : ∀ r', (b.deliverNext other).registration? other = some r' → r' = rₑ :=
    fun r' hr' => Option.some.inj (hr'.symm.trans hrₑ)
  constructor
  · intro id hid
    have hknown : ∃ r₀, b.registration? id = some r₀ := by
      obtain ⟨rfl, -⟩ | hid := (mem_ended_deliverNext_iff hready).1 hid
      · exact ⟨r, hready.found⟩
      · exact h.known id hid
    obtain ⟨r₀, hr₀⟩ := hknown
    obtain ⟨r', hr', -⟩ := follows_deliverNext b other id r₀ hr₀
    exact ⟨r', hr'⟩
  · intro id r' hr'
    by_cases hid : id = other
    · subst hid
      rw [htaker r' hr', hfollows.listener, hdelivered, Listener.untilBroken_append, hsurvived,
        if_neg Bool.false_ne_true, Listener.untilBroken, Listener.untilBroken]
      split <;> rfl
    · obtain ⟨r₀, hr₀, hlistener, hsame⟩ := exists_registration?_deliverNext_of_ne hready hid hr'
      rw [hlistener, hsame]
      exact h.delivered id r₀ hr₀
  · intro id r' hr'
    rw [mem_ended_deliverNext_iff hready]
    by_cases hid : id = other
    · subst hid
      rw [htaker r' hr', hfollows.listener, hdelivered, Listener.breaks_concat, hsurvived,
        Bool.false_or, List.nil_append, or_iff_left hready.running]
      exact and_iff_right rfl
    · obtain ⟨r₀, hr₀, hlistener, hsame⟩ := exists_registration?_deliverNext_of_ne hready hid hr'
      rw [hlistener, hsame, or_iff_right fun htaken => hid htaken.1]
      exact h.ended id r₀ hr₀

/-- Every step ends just the workers that do not survive it. -/
theorem halting_step (h : b.Halting) (s : Step) : (b.step s).Halting := by
  cases s with
  | deliverNext id => exact halting_deliverNext h id
  | _ => exact halting_step_of_ne h fun id hs => by contradiction

/-- In every run the workers have ended that did not survive a call, and no others. -/
theorem halting_run (h : b.Halting) (steps : List Step) : (b.run steps).Halting := by
  induction steps generalizing b with
  | nil => exact h
  | cons s steps ih => exact ih (halting_step h s)

/-- The workers that ended are those of the registrations with a call that they did not survive. -/
theorem Halting.mem_ended_iff (h : b.Halting) (id : Nat) :
    id ∈ b.ended ↔
      ∃ r, b.registration? id = some r ∧ r.listener.breaks id [] r.delivered = true := by
  constructor
  · intro hid
    obtain ⟨r, hr⟩ := h.known id hid
    exact ⟨r, hr, (h.ended id r hr).1 hid⟩
  · rintro ⟨r, hr, hbreaks⟩
    exact (h.ended id r hr).2 hbreaks

/-- At every moment a listener was called with a first part of what its worker would get through. -/
theorem Halting.isPrefix_delivered (h : b.Halting) (hr : b.registration? id = some r) :
    r.delivered <+: r.listener.untilBroken id [] r.stream := by
  rw [Registration.stream, Listener.untilBroken_append]
  split
  · have hdelivered : r.listener.untilBroken id [] r.delivered = r.delivered :=
      h.delivered id r hr
    exact hdelivered.symm ▸ List.prefix_refl r.delivered
  · exact List.prefix_append _ _

/-- Once a worker has ended or its mailbox is empty, its listener was called with all that the
worker gets through. -/
theorem Halting.delivered_eq_of_rest (h : b.Halting) (hr : b.registration? id = some r)
    (hrest : id ∈ b.ended ∨ r.pending = []) :
    r.delivered = r.listener.untilBroken id [] r.stream := by
  obtain hended | hempty := hrest
  · rw [Registration.stream, Listener.untilBroken_append, (h.ended id r hr).1 hended, if_pos rfl,
      h.delivered id r hr]
  · rw [Registration.stream, hempty, List.append_nil, h.delivered id r hr]

end Bus

end ClusterMap
