import ClusterMap.Proofs.Event.Endings
import Mathlib.Algebra.Ring.Nat

/-!
# Registrations on their own

A registration is called with what is published for it, as far as its worker survives the calls, and
nothing else decides about that: not the other registrations and not how their listeners end. A
listener that refuses or panics is counted, and its mailbox goes on, unless what it left behind
takes the worker down. Main statements: `registration?_deliverNext`, taking an event concerns one
registration; `isolated`, a registration that stays gets what is published for it up to the first
call that its worker does not survive.
-/

namespace ClusterMap

namespace Bus

/-! ## Quiet listeners -/

/-- Whether no listener calls the bus. -/
def Quiet (b : Bus) : Prop := ∀ l ∈ b.registrations.map (·.listener), l.Quiet

/-- Whether a step brings no listener that calls the bus. -/
def Step.Quiet : Step → Prop
  | .register _ listener _ => listener.Quiet
  | _ => True

/-- Whether a step removes the registration of a number. -/
def Step.Removes (id : Nat) : Step → Prop
  | .unregister other => other = id
  | .shutdown => True
  | _ => False

/-- A bus stays quiet if the step brings a quiet listener. -/
theorem quiet_step {b : Bus} (hb : b.Quiet) {s : Step} (hs : s.Quiet) : (b.step s).Quiet :=
  forall_listener_step hb fun map listener includeValue heq => by
    rw [heq] at hs
    exact hs

/-- A bus stays quiet in a run that brings quiet listeners. -/
theorem quiet_run {b : Bus} (hb : b.Quiet) {steps : List Step} (hsteps : ∀ s ∈ steps, s.Quiet) :
    (b.run steps).Quiet := by
  induction steps generalizing b with
  | nil => exact hb
  | cons s steps ih =>
    have hs : (b.step s).Quiet := quiet_step hb (hsteps s List.mem_cons_self)
    exact ih hs fun s' hs' => hsteps s' (List.mem_cons_of_mem s hs')

/-- Where listeners do not call the bus, taking an event concerns no registration but the one that
takes it, however the call ends. -/
theorem registration?_deliverNext {b : Bus} (hb : b.Quiet) (id other : Nat) :
    (b.deliverNext id).registration? other = (b.registration? other).map fun r =>
      if other = id ∧ r.active = true ∧ id ∉ b.ended then r.advance else r := by
  obtain ⟨r, e, rest, hready⟩ | ⟨hidle, hready⟩ := deliverNext_cases b id
  · have hquiet : (r.listener.invoke id r.delivered e).calls = [] :=
      hb r.listener (List.mem_map_of_mem (List.mem_of_find?_eq_some hready.found)) id r.delivered e
    rw [registration?_deliverNext_of_ready hready, hquiet]
    refine Option.map_congr fun r' hr' => ?_
    by_cases hother : other = id
    · obtain rfl : r = r' := by
        rw [hother, hready.found] at hr'
        exact Option.some.inj hr'
      simp [hother, hready.active, hready.running]
    · simp [hother]
  · rw [hidle]
    conv => lhs; rw [← Option.map_id' (x := b.registration? other)]
    refine Option.map_congr fun r hr => ?_
    split
    · next htakes =>
      obtain ⟨rfl, hactive, hrunning⟩ := htakes
      have hempty : r.pending = [] := by
        cases hpending : r.pending with
        | nil => rfl
        | cons e rest => exact absurd ⟨hr, hrunning, hactive, hpending⟩ (hready r e rest)
      simp only [Registration.advance, hempty]
    · rfl

/-- A registration that is not removed stays. -/
theorem exists_active_step {b : Bus} (hb : b.Quiet) {id : Nat} {r : Registration}
    (h : b.registration? id = some r) (hactive : r.active = true) {s : Step} (hs : ¬s.Removes id) :
    ∃ r', (b.step s).registration? id = some r' ∧ r'.active = true := by
  cases s with
  | register map listener includeValue =>
    refine ⟨r, ?_, hactive⟩
    unfold registration? at h ⊢
    simp [step, register, List.find?_append, h]
  | unregister other =>
    have hother : id ≠ other := fun heq => hs heq.symm
    have hmodify := registration?_modify (f := Registration.deactivate) (fun _ => rfl) b other id
    refine ⟨r, ?_, hactive⟩
    rw [h, Option.map_some, if_neg hother] at hmodify
    exact hmodify
  | shutdown => exact absurd trivial hs
  | publish events =>
    have hpublish := registration?_publish b events id
    rw [h, Option.map_some] at hpublish
    exact ⟨_, hpublish, (r.active_enqueue events).trans hactive⟩
  | deliver batch =>
    have hdeliver :=
      registration?_publish { b with warnings := b.warnings ++ batch.filterMap decodingWarning? }
      (batch.map EntryEvent.ofNotification) id
    have hbefore : Bus.registration?
        { b with warnings := b.warnings ++ batch.filterMap decodingWarning? } id = some r := h
    rw [hbefore, Option.map_some] at hdeliver
    exact ⟨_, hdeliver, (r.active_enqueue _).trans hactive⟩
  | deliverNext other =>
    have hnext := registration?_deliverNext hb other id
    rw [h, Option.map_some] at hnext
    refine ⟨_, hnext, ?_⟩
    split
    · exact r.active_advance.trans hactive
    · exact hactive

/-- A registration stays in a run that does not remove it. -/
theorem exists_active_run {b : Bus} (hb : b.Quiet) {id : Nat} {r : Registration}
    (h : b.registration? id = some r) (hactive : r.active = true) {steps : List Step}
    (hquiet : ∀ s ∈ steps, s.Quiet) (hkept : ∀ s ∈ steps, ¬s.Removes id) :
    ∃ r', (b.run steps).registration? id = some r' ∧ r'.active = true := by
  induction steps generalizing b r with
  | nil => exact ⟨r, h, hactive⟩
  | cons s steps ih =>
    obtain ⟨r', h', hactive'⟩ := exists_active_step hb h hactive (hkept s List.mem_cons_self)
    have hb' : (b.step s).Quiet := quiet_step hb (hquiet s List.mem_cons_self)
    have hquiet' : ∀ s' ∈ steps, s'.Quiet := fun s' hs' => hquiet s' (List.mem_cons_of_mem s hs')
    have hkept' : ∀ s' ∈ steps, ¬s'.Removes id :=
      fun s' hs' => hkept s' (List.mem_cons_of_mem s hs')
    exact ih hb' h' hactive' hquiet' hkept'

/-! ## Emptying a mailbox -/

/-- Turn after turn is a run. -/
theorem repeat_deliverNext (b : Bus) (id n : Nat) :
    Nat.repeat (fun b => b.deliverNext id) n b = b.run (List.replicate n (.deliverNext id)) := by
  induction n with
  | zero => rfl
  | succ n ih =>
    rw [Nat.repeat, ih, List.replicate_succ', run_append]
    rfl

/-- Turn after turn the worker takes the next event, until it ends. -/
theorem pending_run_deliverNext {b : Bus} (hb : b.Quiet) {id : Nat} {r : Registration}
    (h : b.registration? id = some r) (hactive : r.active = true) (n : Nat) :
    let b' := b.run (List.replicate n (.deliverNext id))
    id ∈ b'.ended ∨ ∃ r', b'.registration? id = some r' ∧ r'.pending = r.pending.drop n := by
  induction n with
  | zero => exact .inr ⟨r, h, rfl⟩
  | succ n ih =>
    obtain ⟨steps, hsteps⟩ : ∃ steps, steps = List.replicate n (Step.deliverNext id) := ⟨_, rfl⟩
    have hturn : ∀ s ∈ steps, s = .deliverNext id := fun s hs =>
      List.eq_of_mem_replicate (hsteps ▸ hs)
    have hquiet : (b.run steps).Quiet := quiet_run hb fun s hs => hturn s hs ▸ trivial
    obtain ⟨r', hr', hactive'⟩ := exists_active_run hb h hactive
      (fun s hs => hturn s hs ▸ trivial) fun s hs => hturn s hs ▸ not_false
    rw [← hsteps] at ih
    rw [List.replicate_succ', ← hsteps, run_append]
    obtain hended | ⟨r'', hr'', hpending⟩ := ih
    · exact .inl (mem_ended_deliverNext hended id)
    · obtain rfl : r' = r'' := Option.some.inj (hr'.symm.trans hr'')
      by_cases hended : id ∈ (b.run steps).ended
      · exact .inl (mem_ended_deliverNext hended id)
      · have hnext := registration?_deliverNext hquiet id id
        rw [hr', Option.map_some, if_pos ⟨rfl, hactive', hended⟩] at hnext
        refine .inr ⟨r'.advance, hnext, ?_⟩
        rw [Registration.pending_advance, hpending, List.tail_drop]

/-- A mailbox that was drained is empty, or its worker has ended. -/
theorem rest_drainRegistration {b : Bus} (hb : b.Quiet) {id : Nat} {r : Registration}
    (h : b.registration? id = some r) (hactive : r.active = true) :
    ∃ r', (b.drainRegistration id).registration? id = some r' ∧ r'.active = true ∧
      r'.listener = r.listener ∧ r'.stream = r.stream ∧
      (id ∈ (b.drainRegistration id).ended ∨ r'.pending = []) := by
  obtain ⟨steps, hsteps⟩ : ∃ steps, steps = List.replicate r.pending.length (Step.deliverNext id) :=
    ⟨_, rfl⟩
  have hdrained : b.drainRegistration id = b.run steps := by
    rw [drainRegistration, pendingCount_of_registration? h, repeat_deliverNext, hsteps]
  have hturn : ∀ s ∈ steps, s = .deliverNext id :=
    fun s hs => List.eq_of_mem_replicate (hsteps ▸ hs)
  obtain ⟨r', hr', hactive'⟩ := exists_active_run hb h hactive
    (fun s hs => hturn s hs ▸ trivial) fun s hs => hturn s hs ▸ not_false
  obtain ⟨r₁, hr₁, hfollows, hstream⟩ := stream_run h steps
  obtain rfl : r' = r₁ := Option.some.inj (hr'.symm.trans hr₁)
  have hnothing : steps.flatMap Step.published = [] :=
    List.flatMap_eq_nil_iff.2 fun s hs => hturn s hs ▸ rfl
  have hsame : r'.stream = r.stream := by
    rw [hstream hactive', hnothing, Registration.select_nil, List.append_nil]
  rw [hdrained]
  refine ⟨r', hr', hactive', hfollows.listener, hsame, ?_⟩
  have hpending := pending_run_deliverNext hb h hactive r.pending.length
  rw [← hsteps] at hpending
  refine hpending.imp_right fun ⟨r₂, hr₂, hdrop⟩ => ?_
  obtain rfl : r' = r₂ := Option.some.inj (hr'.symm.trans hr₂)
  rw [hdrop, List.drop_length]

/-! ## A registration that stays -/

/-- A run in which a registration is made that nothing removes, on a bus that its listeners do not
call. -/
structure Stay where
  /-- What happened to the bus before. -/
  before : List Step
  map : String
  listener : Listener
  includeValue : Bool
  /-- What happened since. -/
  after : List Step
  quiet : ∀ s ∈ before ++ .register map listener includeValue :: after, s.Quiet
  kept : ∀ s ∈ after, ¬s.Removes (run {} before).nextId

namespace Stay

/-- The number of the registration. -/
def id (s : Stay) : Nat := (run {} s.before).nextId

/-- The bus after the run. -/
def bus (s : Stay) : Bus :=
  run {} (s.before ++ .register s.map s.listener s.includeValue :: s.after)

/-- The events that were published since the registration was made, in order. -/
def published (s : Stay) : List EntryEvent := s.after.flatMap Step.published

/-- Those of them that are for the registration, as it gets them. -/
def events (s : Stay) : List EntryEvent :=
  (s.published.filter fun e => e.map = s.map && s.listener.accepts e.category).map fun e =>
    if s.includeValue then e else e.withoutValue

/-- No listener calls the bus. -/
theorem quiet_bus (s : Stay) : s.bus.Quiet := quiet_run (fun _ hl => by contradiction) s.quiet

/-- The first of these events, up to the one that the worker does not survive. -/
def heard (s : Stay) : List EntryEvent := s.listener.untilBroken s.id [] s.events

/-- The workers have ended that did not survive a call. -/
theorem halting_bus (s : Stay) : s.bus.Halting := halting_run halting_empty _

/-- The registration is still there, and what was put into its mailbox is what was published for
it. -/
theorem exists_registration (s : Stay) :
    ∃ r, s.bus.registration? s.id = some r ∧ r.active = true ∧ r.listener = s.listener ∧
      r.stream = s.events := by
  obtain ⟨start, hstart⟩ : ∃ b, b = run {} s.before := ⟨_, rfl⟩
  obtain ⟨registered, hregistered⟩ : ∃ b, b = (start.register s.map s.listener s.includeValue).2 :=
    ⟨_, rfl⟩
  have hid : s.id = start.nextId := by rw [hstart, id]
  have hbus : s.bus = registered.run s.after := by
    rw [hregistered, hstart, bus, run_append]
    rfl
  have hfound : registered.registration? s.id =
      some ⟨s.id, s.map, s.listener, s.includeValue, true, [], []⟩ := by
    rw [hregistered, hid]
    exact registration?_register (hstart ▸ numbered_run numbered_empty s.before) s.map s.listener
      s.includeValue
  have hquiet : registered.Quiet := by
    have hsteps : ∀ t ∈ s.before ++ [.register s.map s.listener s.includeValue], t.Quiet :=
      fun t ht => by
      refine s.quiet t ?_
      rw [← List.singleton_append, ← List.append_assoc]
      exact List.mem_append_left s.after ht
    have hrun := quiet_run (b := {}) (fun _ hl => by contradiction) hsteps
    rw [run_append, ← hstart] at hrun
    rw [hregistered]
    exact hrun
  have hafter : ∀ t ∈ s.after, t.Quiet := fun t ht =>
    s.quiet t (List.mem_append_right _ (List.mem_cons_of_mem _ ht))
  obtain ⟨r, hr, hactive⟩ := exists_active_run hquiet hfound rfl hafter s.kept
  obtain ⟨r', hr', hfollows, hstream⟩ := stream_run hfound s.after
  obtain rfl : r = r' := Option.some.inj (hr.symm.trans hr')
  rw [hbus]
  exact ⟨r, hr, hactive, hfollows.listener, hstream hactive⟩

/-- At every moment the listener was called with a first part of what its worker gets through. -/
theorem isPrefix_heard (s : Stay) : s.bus.delivered s.id <+: s.heard := by
  obtain ⟨r, hr, -, hlistener, hstream⟩ := s.exists_registration
  rw [delivered_of_registration? hr, heard, ← hlistener, ← hstream]
  exact s.halting_bus.isPrefix_delivered hr

/-- Once the mailbox is empty the listener was called with all that is for the registration. -/
theorem delivered_of_pendingCount (s : Stay) (h : s.bus.pendingCount s.id = 0) :
    s.bus.delivered s.id = s.events := by
  obtain ⟨r, hr, -, -, hstream⟩ := s.exists_registration
  rw [pendingCount_of_registration? hr, List.length_eq_zero_iff] at h
  rw [delivered_of_registration? hr, ← hstream, Registration.stream, h, List.append_nil]

/-- In the end the listener was called with what its worker gets through, and the rest is left. -/
theorem drained (s : Stay) :
    ∃ r, (s.bus.drainRegistration s.id).registration? s.id = some r ∧ r.delivered = s.heard ∧
      s.heard ++ r.pending = s.events := by
  obtain ⟨r, hr, hactive, hlistener, hstream⟩ := s.exists_registration
  obtain ⟨r', hr', -, hlistener', hstream', hrest⟩ := rest_drainRegistration s.quiet_bus hr hactive
  have hhalting : (s.bus.drainRegistration s.id).Halting := by
    rw [drainRegistration, repeat_deliverNext]
    exact halting_run s.halting_bus _
  have hdelivered : r'.delivered = s.heard := by
    rw [hhalting.delivered_eq_of_rest hr' hrest, hlistener', hlistener, hstream', hstream, heard]
  refine ⟨r', hr', hdelivered, ?_⟩
  rw [← hdelivered, ← hstream, ← hstream', Registration.stream]

/-- In the end the listener was called with what its worker gets through. -/
theorem delivered_drained (s : Stay) :
    (s.bus.drainRegistration s.id).delivered s.id = s.heard := by
  obtain ⟨r, hr, hdelivered, -⟩ := s.drained
  rw [delivered_of_registration? hr, hdelivered]

/-- The mailbox can be emptied unless the worker does not survive a call before the last one. -/
theorem pendingCount_drained_iff (s : Stay) :
    (s.bus.drainRegistration s.id).pendingCount s.id = 0 ↔
      s.listener.breaks s.id [] s.events.dropLast = false := by
  obtain ⟨r, hr, -, hsplit⟩ := s.drained
  have hall : r.pending = [] ↔ s.heard = s.events := by
    rw [← hsplit]
    exact List.self_eq_append_right.symm
  rw [pendingCount_of_registration? hr, List.length_eq_zero_iff, hall]
  exact s.listener.untilBroken_eq_self_iff s.id [] s.events

/-- What the worker gets through is decided by what is published for the registration, and by which
calls take a worker down. -/
theorem heard_congr {s s' : Stay} (hevents : s'.events = s.events)
    (hbreaks : ∀ before e, (s'.listener.invoke s'.id before e).outcome.breaksWorker =
      (s.listener.invoke s.id before e).outcome.breaksWorker) : s'.heard = s.heard := by
  rw [heard, heard, hevents]
  exact Listener.untilBroken_congr hbreaks [] s.events

end Stay

/-! ## Isolation -/

/-- The failures of a bus are the calls of all registrations ever made that did not end well, but
for those that took a worker down, and the count starts over behind the last word. -/
theorem failures_run (steps : List Step) :
    let b := run {} steps
    let total := (b.registrations.map Registration.failures).sum
    b.ended.length ≤ total ∧ b.failures = (total - b.ended.length) % 2 ^ 64 := by
  intro b total
  obtain ⟨hreported, hended⟩ : b.Accounted := accounted_run numbered_empty ⟨rfl, rfl⟩ steps
  have htotal : total = b.endings (fun o => o.failure?.isSome) + b.ended.length := by
    rw [hended]
    exact endings_isFailure b
  refine ⟨htotal ▸ Nat.le_add_left _ _, ?_⟩
  rw [htotal, Nat.add_sub_cancel, failures, hreported, UInt64.toNat_ofNat']

/-- What the listener of a registration that stays is called with is decided by the registration, by
what is published for it, and by which calls its worker does not survive; other registrations and
how their calls end have no say in it.

At every moment it is a first part of the published events that are for the registration. Once the
mailbox is empty it is all of them; the mailbox gets empty unless a call before the last one takes
the worker down, and then the listener was called with the events up to that one. So two runs that
publish the same, whatever else is registered, call the listener with the same, when both mailboxes
are empty and also when the same calls take a worker down. A call that did not end well is counted,
unless it took the worker down: the count is right just as long as no worker was taken down and it
fits into a word. -/
theorem isolated (s s' : Stay) (steps : List Step) :
    (s.bus.delivered s.id <+: s.heard ∧ s.heard <+: s.events ∧
      (s.bus.pendingCount s.id = 0 → s.bus.delivered s.id = s.events) ∧
      (s.bus.drainRegistration s.id).delivered s.id = s.heard ∧
      ((s.bus.drainRegistration s.id).pendingCount s.id = 0 ↔
        s.listener.breaks s.id [] s.events.dropLast = false) ∧
      (s.heard = s.events ↔ s.listener.breaks s.id [] s.events.dropLast = false)) ∧
    (s'.map = s.map → s'.listener.accepts = s.listener.accepts →
      s'.includeValue = s.includeValue → s'.published = s.published →
      (s.bus.pendingCount s.id = 0 → s'.bus.pendingCount s'.id = 0 →
        s'.bus.delivered s'.id = s.bus.delivered s.id) ∧
      ((∀ before e, (s'.listener.invoke s'.id before e).outcome.breaksWorker =
          (s.listener.invoke s.id before e).outcome.breaksWorker) →
        (s'.bus.drainRegistration s'.id).delivered s'.id =
          (s.bus.drainRegistration s.id).delivered s.id)) ∧
    let b := run {} steps
    let total := (b.registrations.map Registration.failures).sum
    (∀ id, id ∈ b.ended ↔
      ∃ r, b.registration? id = some r ∧ r.listener.breaks id [] r.delivered = true) ∧
    b.ended.length ≤ total ∧ b.failures = (total - b.ended.length) % 2 ^ 64 ∧
    (b.failures = total ↔ b.ended = [] ∧ total < 2 ^ 64) := by
  refine ⟨?_, fun hmap haccepts hvalue hpublished => ?_, ?_⟩
  · have hfirst : s.heard <+: s.events := s.listener.untilBroken_isPrefix s.id [] s.events
    have hall : s.heard = s.events ↔ s.listener.breaks s.id [] s.events.dropLast = false :=
      s.listener.untilBroken_eq_self_iff s.id [] s.events
    exact ⟨s.isPrefix_heard, hfirst, s.delivered_of_pendingCount, s.delivered_drained,
      s.pendingCount_drained_iff, hall⟩
  · have hevents : s'.events = s.events := by
      simp only [Stay.events, hmap, haccepts, hvalue, hpublished]
    constructor
    · intro hempty hempty'
      rw [s.delivered_of_pendingCount hempty, s'.delivered_of_pendingCount hempty', hevents]
    · intro hbreaks
      rw [s.delivered_drained, s'.delivered_drained, Stay.heard_congr hevents hbreaks]
  · intro b total
    obtain ⟨hless, hcount⟩ : b.ended.length ≤ total ∧
        b.failures = (total - b.ended.length) % 2 ^ 64 :=
      failures_run steps
    have hhalting : b.Halting := halting_run halting_empty steps
    refine ⟨hhalting.mem_ended_iff, hless, hcount, ?_⟩
    rw [hcount, ← List.length_eq_zero_iff]
    omega

/-- A listener that panics beside another one that panics gets what it gets alone and when it does
not, and so does one whose last call takes its worker down. -/
theorem isolated_of_panic :
    let e : EntryEvent := ⟨"m", .added, ⟨"k"⟩, some (.bool true)⟩
    let panics := Listener.single .added fun _ _ _ => { outcome := .panicked (some "boom") }
    let published :=
      Step.publish [⟨"other", .added, ⟨"k"⟩, none⟩, e, { e with category := .removed }, e]
    ∃ s s' : Stay,
      s.before = [.register "m" panics true] ∧ s.listener = panics ∧
      s.after = [published, .deliverNext 2, .deliverNext 1, .deliverNext 2] ∧
      s'.before = [] ∧ s'.after = [published, .deliverNext 1, .deliverNext 1] ∧
      s'.bus.failures = 0 ∧
      s.bus.delivered s.id = [e, e] ∧ s'.bus.delivered s'.id = s.bus.delivered s.id ∧
      (s'.bus.drainRegistration s'.id).delivered s'.id =
        (s.bus.drainRegistration s.id).delivered s.id ∧
      s.bus.failures = 3 := by
  intro e panics published
  have hpanics : panics.Quiet := Listener.quiet_single (fun _ _ _ => rfl) .added
  have hquiet : ∀ l, l.Quiet → ∀ steps : List Step, (∀ t ∈ steps, t.Quiet) →
      ∀ t ∈ .register "m" l true :: steps, t.Quiet := fun l hl steps hsteps =>
    List.forall_mem_cons.2 ⟨hl, hsteps⟩
  let s : Stay :=
    { before := [.register "m" panics true]
      map := "m"
      listener := panics
      includeValue := true
      after := [published, .deliverNext 2, .deliverNext 1, .deliverNext 2]
      quiet := hquiet panics hpanics _ (hquiet panics hpanics _ (by simp [published, Step.Quiet]))
      kept := by simp [published, Step.Removes] }
  let s' : Stay :=
    { before := []
      map := "m"
      listener := .single .added fun _ _ _ => {}
      includeValue := true
      after := [published, .deliverNext 1, .deliverNext 1]
      quiet := hquiet _ (Listener.quiet_single (fun _ _ _ => rfl) .added) _
        (by simp [published, Step.Quiet])
      kept := by simp [published, Step.Removes] }
  have hsturdy : s.listener.Sturdy := Listener.sturdy_single (fun _ _ _ => rfl) .added
  have hsturdy' : s'.listener.Sturdy := Listener.sturdy_single (fun _ _ _ => rfl) .added
  have hbreaks : ∀ before e, (s'.listener.invoke s'.id before e).outcome.breaksWorker =
      (s.listener.invoke s.id before e).outcome.breaksWorker := fun before e => by
    rw [hsturdy, hsturdy']
  obtain ⟨⟨-, -, hempty, -⟩, htwo, -⟩ := isolated s s' []
  obtain ⟨hsame, hdrained⟩ := htwo rfl (funext fun _ => rfl) rfl rfl
  refine ⟨s, s', rfl, rfl, rfl, rfl, rfl, rfl, ?_, hsame rfl rfl, hdrained hbreaks, ?_⟩
  · rw [hempty rfl]
    rfl
  · rfl

/-- An error that panics when its text is asked for, and a payload that panics when it is disposed
of, take the worker down: the second event never reaches the listener, and the call with the first
one is not counted. An error that can be read is counted, and both events arrive. -/
theorem broken_worker_stops :
    let e : EntryEvent := ⟨"m", .added, ⟨"k"⟩, none⟩
    let drained := fun outcome => drainRegistration
      (run {} [.register "m" (.single .added fun _ _ _ => ⟨[], outcome⟩) true, .publish [e, e]]) 1
    let total := fun b : Bus => (b.registrations.map Registration.failures).sum
    ((drained .failedMute).delivered 1 = [e] ∧ (drained .failedMute).stream 1 = [e, e] ∧
      total (drained .failedMute) = 1 ∧ (drained .failedMute).failures = 0) ∧
    ((drained .panickedTwice).delivered 1 = [e] ∧ (drained .panickedTwice).stream 1 = [e, e] ∧
      total (drained .panickedTwice) = 1 ∧ (drained .panickedTwice).failures = 0) ∧
    (drained (.failed "no")).delivered 1 = [e, e] ∧ (drained (.failed "no")).failures = 2 :=
  ⟨⟨rfl, rfl, rfl, rfl⟩, ⟨rfl, rfl, rfl, rfl⟩, rfl, rfl⟩

end Bus

end ClusterMap
