import Mathlib.Data.List.Nodup
import ClusterMap.Event.History

/-!
# What a registration keeps

A registration stays who it is whatever happens to its bus, does not come back once it was removed,
and while it is there its stream grows by just what is published and meant for it. Main statements:
`numbered_run`, the numbers of the registrations count from one; `registration?_register`, a new
registration is found under the number it got; `stream_run`, what a registration is sent in a run.
-/

namespace ClusterMap

namespace Registration

/-! ## Identity -/

/-- A registration that came from another one by delivering, publishing or removing. -/
structure Follows (r' r : Registration) : Prop where
  id : r'.id = r.id
  map : r'.map = r.map
  listener : r'.listener = r.listener
  includeValue : r'.includeValue = r.includeValue
  active : r'.active = true → r.active = true

theorem Follows.refl (r : Registration) : r.Follows r := ⟨rfl, rfl, rfl, rfl, fun h => h⟩

/-- What came of a registration in two steps came of it in one. -/
theorem Follows.trans {r r' r'' : Registration} (h' : r''.Follows r') (h : r'.Follows r) :
    r''.Follows r :=
  ⟨h'.id.trans h.id, h'.map.trans h.map, h'.listener.trans h.listener,
    h'.includeValue.trans h.includeValue, fun ha => h.active (h'.active ha)⟩

/-- Publishing leaves a registration who it is. -/
theorem follows_enqueue (r : Registration) (events : List EntryEvent) :
    (r.enqueue events).Follows r := by
  unfold enqueue
  split <;> exact ⟨rfl, rfl, rfl, rfl, fun h => h⟩

/-- Taking an event leaves a registration who it is. -/
theorem follows_advance (r : Registration) : r.advance.Follows r := by
  unfold advance
  split <;> exact ⟨rfl, rfl, rfl, rfl, fun h => h⟩

/-- Removing a registration leaves it who it is. -/
theorem follows_deactivate (r : Registration) : r.deactivate.Follows r :=
  ⟨rfl, rfl, rfl, rfl, fun h => by contradiction⟩

/-- What is meant for a registration depends only on what it keeps. -/
theorem Follows.select {r r' : Registration} (h : r'.Follows r) (events : List EntryEvent) :
    r'.select events = r.select events := by
  have hwants : r'.wants = r.wants := by
    funext e
    simp only [wants, h.map, h.listener]
  simp only [Registration.select, hwants, h.includeValue]

/-- Publishing removes nobody. -/
@[simp] theorem active_enqueue (r : Registration) (events : List EntryEvent) :
    (r.enqueue events).active = r.active := by
  unfold enqueue
  split <;> rfl

/-- Taking an event takes it from the mailbox. -/
theorem pending_advance (r : Registration) : r.advance.pending = r.pending.tail := by
  unfold advance
  cases h : r.pending with
  | nil => exact h
  | cons e rest => rfl

/-- Taking an event removes nobody. -/
@[simp] theorem active_advance (r : Registration) : r.advance.active = r.active := by
  unfold advance
  split <;> rfl

@[simp] theorem select_nil (r : Registration) : r.select [] = [] := rfl

/-- What is meant for a registration may be selected in two parts. -/
theorem select_append (r : Registration) (events events' : List EntryEvent) :
    r.select (events ++ events') = r.select events ++ r.select events' := by
  simp [select]

end Registration

namespace Bus

/-! ## What every registration keeps -/

/-- Whether something about a registration stays as it is while events come in and when it is
removed. -/
structure Kept {α : Type} (π : Registration → α) : Prop where
  enqueue : ∀ r events, π (r.enqueue events) = π r
  deactivate : ∀ r, π r.deactivate = π r

section Kept

variable {α : Type} {π : Registration → α}

/-- A change of every registration that keeps something keeps it in the list. -/
theorem map_map_of_kept {f : Registration → Registration} (hf : ∀ r, π (f r) = π r)
    (l : List Registration) :
    (l.map f).map π = l.map π := by
  rw [List.map_map]
  exact List.map_congr_left fun r _ => hf r

/-- A change of one registration that keeps something keeps it on the bus. -/
theorem map_modify {f : Registration → Registration} (hf : ∀ r, π (f r) = π r) (b : Bus)
    (id : Nat) :
    (b.modify id f).registrations.map π = b.registrations.map π :=
  map_map_of_kept (fun r => by split <;> simp [hf]) b.registrations

/-- What removing keeps, the calls of a listener keep on the bus. -/
theorem map_foldl_call (hπ : ∀ r : Registration, π r.deactivate = π r) (b : Bus)
    (calls : List BusCall) :
    (calls.foldl call b).registrations.map π = b.registrations.map π := by
  induction calls generalizing b with
  | nil => rfl
  | cons c calls ih =>
    have hcall : (b.call c).registrations.map π = b.registrations.map π := by
      cases c with
      | unregister id => exact map_modify hπ b id
      | shutdown => exact map_map_of_kept hπ b.registrations
    rw [List.foldl_cons, ih, hcall]

/-- How a call ends concerns no registration. -/
@[simp] theorem registrations_recordOutcome (b : Bus) (id : Nat) (e : EntryEvent)
    (outcome : Outcome) :
    (b.recordOutcome id e outcome).registrations = b.registrations := by
  unfold recordOutcome
  split
  · rfl
  · split <;> rfl

/-- What removing and taking an event keep, a worker that takes one keeps on the bus. -/
theorem map_deliverNext (hπ : Kept π) (hadvance : ∀ r : Registration, π r.advance = π r) (b : Bus)
    (id : Nat) :
    (b.deliverNext id).registrations.map π = b.registrations.map π := by
  obtain ⟨r, e, rest, hready⟩ | ⟨hidle, -⟩ := deliverNext_cases b id
  · rw [deliverNext_of_ready hready, registrations_recordOutcome, map_foldl_call hπ.deactivate]
    exact map_modify hadvance b id
  · rw [hidle]

/-- The registrations that a step makes. -/
def made (b : Bus) : Step → List Registration
  | .register map listener includeValue => [⟨b.nextId, map, listener, includeValue, true, [], []⟩]
  | _ => []

/-- What every registration keeps is still there after a step that delivers nothing, and the step
adds that of those it makes. -/
theorem map_step_of_ne (hπ : Kept π) (b : Bus) {s : Step} (hs : ∀ id, s ≠ .deliverNext id) :
    (b.step s).registrations.map π = b.registrations.map π ++ (b.made s).map π := by
  cases s with
  | register map listener includeValue => exact List.map_append
  | unregister id => exact (map_modify hπ.deactivate b id).trans (List.append_nil _).symm
  | shutdown => exact (map_map_of_kept hπ.deactivate b.registrations).trans (List.append_nil _).symm
  | publish events =>
    have hevents := map_map_of_kept (fun r => hπ.enqueue r events) b.registrations
    exact hevents.trans (List.append_nil _).symm
  | deliver batch =>
    have hevents := map_map_of_kept (fun r => hπ.enqueue r (batch.map EntryEvent.ofNotification))
      b.registrations
    exact hevents.trans (List.append_nil _).symm
  | deliverNext id => exact absurd rfl (hs id)

/-- What publishing, removing and taking an event keep, a step keeps but for the registration that
it makes. -/
theorem map_step (hπ : Kept π) (hadvance : ∀ r : Registration, π r.advance = π r) (b : Bus)
    (s : Step) :
    (b.step s).registrations.map π = b.registrations.map π ++ (b.made s).map π := by
  cases s with
  | deliverNext id => exact (map_deliverNext hπ hadvance b id).trans (List.append_nil _).symm
  | _ => exact map_step_of_ne hπ b fun id h => by contradiction

end Kept

/-- What holds of all listeners still does after a step if it holds of those that the step
brings. -/
theorem forall_listener_step {P : Listener → Prop} {b : Bus}
    (hb : ∀ l ∈ b.registrations.map (·.listener), P l) {s : Step}
    (hs : ∀ map listener includeValue, s = .register map listener includeValue → P listener) :
    ∀ l ∈ (b.step s).registrations.map (·.listener), P l := by
  have hkept : Kept (·.listener) :=
    ⟨fun r events => (r.follows_enqueue events).listener, fun _ => rfl⟩
  have hstep := map_step hkept (fun r => r.follows_advance.listener) b s
  intro l hl
  rw [hstep, List.mem_append] at hl
  obtain hl | hl := hl
  · exact hb l hl
  · cases s with
    | register map listener includeValue =>
      rw [made, List.map_singleton, List.mem_singleton] at hl
      rw [hl]
      exact hs map listener includeValue rfl
    | _ => contradiction

/-! ## Numbers -/

/-- The numbers of the registrations, oldest first. -/
def ids (b : Bus) : List Nat := b.registrations.map (·.id)

/-- Whether the registrations are numbered from one on, in the order in which they were made. -/
def Numbered (b : Bus) : Prop := b.ids = List.range' 1 b.registrations.length

/-- Publishing and removing keep numbers. -/
theorem kept_id : Kept (·.id) := ⟨Registration.id_enqueue, fun _ => rfl⟩

/-- Only registering makes a number, and it makes the next one. -/
theorem ids_step (b : Bus) (s : Step) :
    (b.step s).ids = b.ids ∨ (b.step s).ids = b.ids ++ [b.nextId] := by
  have hstep : (b.step s).ids = b.ids ++ (b.made s).map (·.id) :=
    map_step kept_id Registration.id_advance b s
  cases s with
  | register map listener includeValue => exact .inr hstep
  | _ => exact .inl (hstep.trans (List.append_nil _))

/-- Without registrations there are no numbers. -/
theorem numbered_empty : Numbered {} := rfl

/-- Every step leaves registrations numbered in order. -/
theorem numbered_step {b : Bus} (h : b.Numbered) (s : Step) : (b.step s).Numbered := by
  have hlength : ∀ b : Bus, b.registrations.length = b.ids.length :=
    fun b => (List.length_map _).symm
  unfold Numbered at h ⊢
  rw [hlength]
  obtain hs | hs := ids_step b s
  · rw [hs, h, List.length_range']
  · rw [hs, h, List.length_append, List.length_range', List.length_singleton, List.range'_1_concat,
      nextId, Nat.add_comm]

/-- In every run registrations are numbered in order. -/
theorem numbered_run {b : Bus} (h : b.Numbered) (steps : List Step) : (b.run steps).Numbered := by
  induction steps generalizing b with
  | nil => exact h
  | cons s steps ih => exact ih (numbered_step h s)

/-- No two registrations have the same number. -/
theorem Numbered.nodup_ids {b : Bus} (h : b.Numbered) : b.ids.Nodup := by
  rw [h]
  exact List.nodup_range'

/-- Numbers tell registrations apart, so a change of the registration of a number leaves all others
as they are. -/
theorem registrations_modify {b : Bus} {id : Nat} {r : Registration} (hn : b.Numbered)
    (h : b.registration? id = some r) (f : Registration → Registration) :
    ∃ earlier later, b.registrations = earlier ++ r :: later ∧
      (b.modify id f).registrations = earlier ++ f r :: later := by
  obtain ⟨hid, earlier, later, hsplit, -⟩ := List.find?_eq_some_iff_append.1 h
  have hid' : r.id = id := by simpa using hid
  have hnodup : (earlier.map (·.id) ++ r.id :: later.map (·.id)).Nodup := by
    simpa [ids, hsplit] using hn.nodup_ids
  obtain ⟨-, hlater, hdisjoint⟩ := List.nodup_append.1 hnodup
  have hkeep : ∀ l : List Registration, r.id ∉ l.map (·.id) →
      (l.map fun r' => if r'.id = id then f r' else r') = l := fun l hl => by
    conv => rhs; rw [← List.map_id l]
    refine List.map_congr_left fun r' hr' => if_neg fun heq => hl ?_
    rw [hid', ← heq]
    exact List.mem_map_of_mem hr'
  have hearlier : r.id ∉ earlier.map (·.id) := fun hmem =>
    hdisjoint r.id hmem r.id List.mem_cons_self rfl
  have hlater' : r.id ∉ later.map (·.id) := (List.nodup_cons.1 hlater).1
  refine ⟨earlier, later, hsplit, ?_⟩
  simp only [modify, hsplit, List.map_append, List.map_cons, hkeep earlier hearlier,
    hkeep later hlater', hid', if_true]

/-- The number that the next registration gets belongs to none yet. -/
theorem registration?_nextId {b : Bus} (h : b.Numbered) : b.registration? b.nextId = none := by
  unfold registration?
  rw [List.find?_eq_none]
  intro r hr hid
  have hmem : r.id ∈ b.ids := List.mem_map_of_mem hr
  rw [h, List.mem_range'_1] at hmem
  have heq : r.id = b.nextId := by simpa using hid
  unfold nextId at heq
  omega

/-- A new registration is found under the number it got, without any event yet. -/
theorem registration?_register {b : Bus} (h : b.Numbered) (map : String) (listener : Listener)
    (includeValue : Bool) :
    (b.register map listener includeValue).2.registration? b.nextId =
      some ⟨b.nextId, map, listener, includeValue, true, [], []⟩ := by
  have hnone := registration?_nextId h
  unfold registration? at hnone ⊢
  simp [register, List.find?_append, hnone]

/-! ## What becomes of a registration -/

/-- Every registration of one bus is found on another, where it may have received events or been
removed. -/
def Follows (b' b : Bus) : Prop :=
  ∀ id r, b.registration? id = some r → ∃ r', b'.registration? id = some r' ∧ r'.Follows r

theorem Follows.refl (b : Bus) : b.Follows b := fun _ r h => ⟨r, h, .refl r⟩

theorem Follows.trans {b b' b'' : Bus} (h' : b''.Follows b') (h : b'.Follows b) :
    b''.Follows b := by
  intro id r hr
  obtain ⟨r', hr', hf⟩ := h id r hr
  obtain ⟨r'', hr'', hf'⟩ := h' id r' hr'
  exact ⟨r'', hr'', hf'.trans hf⟩

/-- Changing the registrations one by one, each into one that follows it. -/
theorem follows_of_registration? {b b' : Bus} {f : Nat → Registration → Registration}
    (hf : ∀ id r, (f id r).Follows r)
    (h : ∀ id, b'.registration? id = (b.registration? id).map (f id)) : b'.Follows b := by
  intro id r hr
  exact ⟨f id r, by rw [h, hr, Option.map_some], hf id r⟩

/-- A change of one registration leaves every registration who it is. -/
theorem follows_modify {f : Registration → Registration} (hf : ∀ r, (f r).Follows r) (b : Bus)
    (id : Nat) :
    (b.modify id f).Follows b :=
  follows_of_registration? (f := fun other r => if other = id then f r else r)
    (fun other r => by
      split
      · exact hf r
      · exact .refl r)
    (fun other => registration?_modify (fun r => (hf r).id) b id other)

/-- Publishing leaves every registration who it is. -/
theorem follows_publish (b : Bus) (events : List EntryEvent) : (b.publish events).Follows b :=
  follows_of_registration? (fun _ r => r.follows_enqueue events) (b.registration?_publish events)

/-- Shutting down leaves every registration who it is. -/
theorem follows_shutdown (b : Bus) : b.shutdown.Follows b :=
  follows_of_registration? (fun _ r => r.follows_deactivate) b.registration?_shutdown

/-- Removing registrations leaves every registration who it is. -/
theorem follows_call (b : Bus) (c : BusCall) : (b.call c).Follows b := by
  cases c with
  | unregister id => exact follows_modify Registration.follows_deactivate b id
  | shutdown => exact follows_shutdown b

/-- What a listener removes stays who it is. -/
theorem follows_foldl_call (b : Bus) (calls : List BusCall) : (calls.foldl call b).Follows b := by
  induction calls generalizing b with
  | nil => exact .refl b
  | cons c calls ih => exact (ih (b.call c)).trans (follows_call b c)

/-- How a call ends leaves every registration who it is. -/
theorem follows_recordOutcome (b : Bus) (id : Nat) (e : EntryEvent) (outcome : Outcome) :
    (b.recordOutcome id e outcome).Follows b := by
  intro other r hr
  refine ⟨r, ?_, .refl r⟩
  simp only [registration?, registrations_recordOutcome] at hr ⊢
  exact hr

/-- Taking an event leaves every registration who it is. -/
theorem follows_deliverNext (b : Bus) (id : Nat) : (b.deliverNext id).Follows b := by
  obtain ⟨r, e, rest, hready⟩ | ⟨hidle, -⟩ := deliverNext_cases b id
  · rw [deliverNext_of_ready hready]
    have hadvance : (b.modify id Registration.advance).Follows b :=
      follows_modify Registration.follows_advance b id
    exact (follows_recordOutcome _ _ _ _).trans ((follows_foldl_call _ _).trans hadvance)
  · rw [hidle]
    exact .refl b

/-- A new registration leaves every other one who it is. -/
theorem follows_register (b : Bus) (map : String) (listener : Listener) (includeValue : Bool) :
    (b.register map listener includeValue).2.Follows b := by
  intro id r hr
  refine ⟨r, ?_, .refl r⟩
  unfold registration? at hr ⊢
  simp [register, List.find?_append, hr]

/-- Every step leaves every registration who it is. -/
theorem follows_step (b : Bus) (s : Step) : (b.step s).Follows b := by
  cases s with
  | register map listener includeValue => exact follows_register b map listener includeValue
  | unregister id => exact follows_modify Registration.follows_deactivate b id
  | shutdown => exact follows_shutdown b
  | publish events => exact follows_publish b events
  | deliver batch => exact follows_publish _ _
  | deliverNext id => exact follows_deliverNext b id

/-! ## What a registration is sent -/

/-- The events that a step publishes. -/
def Step.published : Step → List EntryEvent
  | .publish events => events
  | .deliver batch => batch.map EntryEvent.ofNotification
  | _ => []

/-- The stream of a number is that of its registration. -/
theorem stream_of_registration? {b : Bus} {id : Nat} {r : Registration}
    (h : b.registration? id = some r) :
    b.stream id = r.stream := by
  simp only [stream, h]

/-- Publishing adds to a stream what is meant for the registration, unless it was removed. -/
theorem stream_publish {b : Bus} {id : Nat} {r : Registration} (h : b.registration? id = some r)
    (events : List EntryEvent) :
    (b.publish events).stream id = b.stream id ++ if r.active then r.select events else [] := by
  have hafter : (b.publish events).registration? id = some (r.enqueue events) := by
    rw [registration?_publish, h, Option.map_some]
  rw [stream_of_registration? hafter, stream_of_registration? h, Registration.stream_enqueue]

/-- A step adds to a stream what it publishes for a registration that was not removed. -/
theorem stream_step {b : Bus} {id : Nat} {r : Registration} (h : b.registration? id = some r)
    (s : Step) :
    (b.step s).stream id = b.stream id ++ if r.active then r.select s.published else [] := by
  cases s with
  | register map listener includeValue =>
    have hafter : (b.step (.register map listener includeValue)).registration? id = some r := by
      unfold registration? at h ⊢
      simp [step, register, List.find?_append, h]
    simp [stream_of_registration? hafter, stream_of_registration? h, Step.published]
  | unregister other =>
    have hmodify := stream_modify (f := Registration.deactivate) (fun _ => rfl)
      Registration.stream_deactivate b other id
    simpa [step, unregister, Step.published] using hmodify
  | shutdown => simpa [step, call, Step.published] using b.stream_call .shutdown id
  | publish events => exact stream_publish h events
  | deliver batch => exact stream_publish (b := { b with warnings := _ }) h _
  | deliverNext other => simpa [step, Step.published] using b.stream_deliverNext other id

/-- The events that the listener of the registration of a number was called with, in order. -/
def delivered (b : Bus) (id : Nat) : List EntryEvent :=
  match b.registration? id with
  | some r => r.delivered
  | none => []

/-- What a listener was called with is read off its registration. -/
theorem delivered_of_registration? {b : Bus} {id : Nat} {r : Registration}
    (h : b.registration? id = some r) : b.delivered id = r.delivered := by
  simp only [delivered, h]

/-- The events that wait for a number are those of its registration. -/
theorem pendingCount_of_registration? {b : Bus} {id : Nat} {r : Registration}
    (h : b.registration? id = some r) : b.pendingCount id = r.pending.length := by
  simp only [pendingCount, h]

/-- What becomes of a registration in a run: unless it was removed, its stream has grown by what was
published for it, in order. -/
theorem stream_run {b : Bus} {id : Nat} {r : Registration} (h : b.registration? id = some r)
    (steps : List Step) :
    ∃ r', (b.run steps).registration? id = some r' ∧ r'.Follows r ∧
      (r'.active = true → r'.stream = r.stream ++ r.select (steps.flatMap Step.published)) := by
  induction steps generalizing b r with
  | nil => exact ⟨r, h, .refl r, fun _ => by simp⟩
  | cons s steps ih =>
    obtain ⟨r₁, h₁, hf₁⟩ := follows_step b s id r h
    obtain ⟨r', h', hf', hstream⟩ := ih h₁
    refine ⟨r', h', hf'.trans hf₁, fun ha => ?_⟩
    have hactive : r.active = true := hf₁.active (hf'.active ha)
    have hs := stream_step h s
    rw [stream_of_registration? h₁, stream_of_registration? h, if_pos hactive] at hs
    rw [hstream ha, hs, hf₁.select, List.flatMap_cons, Registration.select_append,
      List.append_assoc]

end Bus

end ClusterMap
