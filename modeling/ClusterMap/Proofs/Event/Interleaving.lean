import ClusterMap.Proofs.Event.Endings

/-!
# Interleaved moves

All that a move can do to a crew is said once (`Effect`), and what holds along every run is read off
it. Main statements: `effect_move`, what a move can do; `stream_run`, nothing is lost or called
twice; `orderly_run`, what holds of every crew; `exists_run_bus`, every history of a bus is one of a
crew.
-/

namespace ClusterMap

namespace Crew

variable {c c' : Crew} {m : Move} {id caller : Nat}

/-! ## What a move can do -/

/-- The events that a move publishes. -/
def Move.published : Move → List EntryEvent
  | publish events => events
  | deliver batch => batch.map EntryEvent.ofNotification
  | _ => []

/-- What a move can do to a crew. -/
inductive Effect (c : Crew) : Move → Crew → Prop
  | still (m : Move) (hm : m.published = []) : Effect c m c
  /-- Something happens to the bus that is no worker's doing. -/
  | outside (m : Move) (s : Bus.Step) (hs : ∀ id, s ≠ .deliverNext id)
      (hm : m.published = s.published) :
    Effect c m { c with bus := c.bus.step s }
  | lower (id : Nat) (h : c.bus.Removed id) :
      Effect c (.lower id) { c with lowered := id :: c.lowered }
  | take (id : Nat) {r : Registration} {e : EntryEvent} {rest : List EntryEvent}
      (hidle : c.work id = none)
    (hup : id ∉ c.lowered) (hrunning : id ∉ c.bus.ended) (hr : c.bus.registration? id = some r)
    (hpending : r.pending = e :: rest) :
    Effect c (.take id) ({ c with bus := c.bus.modify id Registration.advance }.engage id
      (some ⟨e, [], (r.listener.invoke id r.delivered e).calls,
        (r.listener.invoke id r.delivered e).outcome⟩))
  /-- A listener that removed registrations lowers the next of their flags. -/
  | lowerNext (id : Nat) {e : EntryEvent} {other : Nat} {rest : List Nat} {calls : List BusCall}
      {outcome : Outcome}
    (h : c.work id = some ⟨e, other :: rest, calls, outcome⟩) :
    Effect c (.proceed id)
    ({ c with lowered := other :: c.lowered }.engage id (some ⟨e, rest, calls, outcome⟩))
  | call (id : Nat) {e : EntryEvent} {call : BusCall} {calls : List BusCall} {outcome : Outcome}
    (h : c.work id = some ⟨e, [], call :: calls, outcome⟩) :
    Effect c (.proceed id)
      ({ c with bus := c.bus.call call }.engage id (some ⟨e, c.bus.taken call, calls, outcome⟩))
  | finish (id : Nat) {e : EntryEvent} {outcome : Outcome}
      (h : c.work id = some ⟨e, [], [], outcome⟩) :
    Effect c (.proceed id) ({ c with bus := c.bus.recordOutcome id e outcome }.engage id none)

/-- Taking an event has one of the effects. -/
theorem effect_take (c : Crew) (id : Nat) : Effect c (.take id) (c.take id) := by
  unfold take
  split
  · next r hidle hr =>
    split
    · next e rest hpending =>
      split
      · exact .still _ rfl
      · next htakes =>
        have hup : id ∉ c.lowered := fun h => htakes (.inl h)
        have hrunning : id ∉ c.bus.ended := fun h => htakes (.inr h)
        exact .take id hidle hup hrunning hr hpending
    · exact .still _ rfl
  · exact .still _ rfl

/-- Going on with a call has one of the effects. -/
theorem effect_proceed (c : Crew) (id : Nat) : Effect c (.proceed id) (c.proceed id) := by
  unfold proceed
  split
  · exact .still _ rfl
  · next h => exact .lowerNext id h
  · next h => exact .call id h
  · next h => exact .finish id h

/-- Lowering a flag has one of the effects. -/
theorem effect_lower (c : Crew) (id : Nat) : Effect c (.lower id) (c.lower id) := by
  unfold lower
  split
  · next r hr =>
    split
    · exact .still _ rfl
    · next hinactive => exact .lower id ⟨r, hr, Bool.eq_false_iff.2 hinactive⟩
  · exact .still _ rfl

/-- Every move has one of the effects. -/
theorem effect_move (c : Crew) (m : Move) : Effect c m (c.move m) := by
  cases m with
  | register map listener includeValue =>
    exact .outside _ (.register map listener includeValue) (fun _ h => by contradiction) rfl
  | publish events => exact .outside _ (.publish events) (fun _ h => by contradiction) rfl
  | deliver batch => exact .outside _ (.deliver batch) (fun _ h => by contradiction) rfl
  | unregister id => exact .outside _ (.unregister id) (fun _ h => by contradiction) rfl
  | shutdown => exact .outside _ .shutdown (fun _ h => by contradiction) rfl
  | lower id => exact effect_lower c id
  | take id => exact effect_take c id
  | proceed id => exact effect_proceed c id

/-- A move leaves every registration who it is. -/
theorem Effect.follows (h : Effect c m c') : c'.bus.Follows c.bus := by
  cases h with
  | still => exact .refl _
  | outside _ s => exact Bus.follows_step c.bus s
  | lower => exact .refl _
  | take id => exact Bus.follows_modify Registration.follows_advance c.bus id
  | lowerNext => exact .refl _
  | call _ _ => exact Bus.follows_call c.bus _
  | finish id => exact Bus.follows_recordOutcome c.bus id _ _

/-- A run leaves every registration who it is. -/
theorem follows_run (c : Crew) (moves : List Move) : (c.run moves).bus.Follows c.bus := by
  induction moves generalizing c with
  | nil => exact .refl _
  | cons m moves ih => exact (ih (c.move m)).trans (effect_move c m).follows

/-- Lowering a flag is for good. -/
theorem Effect.mem_lowered (h : Effect c m c') (hid : id ∈ c.lowered) : id ∈ c'.lowered := by
  cases h with
  | still => exact hid
  | outside => exact hid
  | lower => exact List.mem_cons_of_mem _ hid
  | take => exact hid
  | lowerNext => exact List.mem_cons_of_mem _ hid
  | call => exact hid
  | finish => exact hid

/-- A flag that was lowered stays so in every run. -/
theorem mem_lowered_run (hid : id ∈ c.lowered) (moves : List Move) :
    id ∈ (c.run moves).lowered := by
  induction moves generalizing c with
  | nil => exact hid
  | cons m moves ih => exact ih ((effect_move c m).mem_lowered hid)

/-- Whoever takes a registration out of the table can lower its flag, whatever happens in
between. -/
theorem mem_lowered_of_removed (h : c.bus.Removed id) (moves : List Move) :
    id ∈ (c.run (moves ++ [.lower id])).lowered := by
  obtain ⟨r, hr, hinactive⟩ := h.of_follows (follows_run c moves)
  rw [run_append, run_cons, run_nil]
  simp only [move, lower, hr, hinactive]
  exact List.mem_cons_self

/-! ## What a registration is sent -/

/-- What is put into the mailbox of a registration in a run. -/
def enqueued (c : Crew) (id : Nat) : List Move → List EntryEvent
  | [] => []
  | m :: moves => c.bus.posted id m.published ++ (c.move m).enqueued id moves

/-- A move adds to a stream what it puts into the mailbox. -/
theorem Effect.stream (h : Effect c m c') (id : Nat) :
    c'.bus.stream id = c.bus.stream id ++ c.bus.posted id m.published := by
  have hkept : ∀ {l : List EntryEvent}, l = c.bus.stream id →
      l = c.bus.stream id ++ c.bus.posted id [] := by
    intro l hl
    rw [Bus.posted_nil, List.append_nil, hl]
  cases h with
  | still _ hm =>
    rw [hm]
    exact hkept rfl
  | outside _ s hs hm =>
    rw [hm]
    exact Bus.stream_step_of_ne c.bus hs id
  | lower => exact hkept rfl
  | take other =>
    exact hkept (Bus.stream_modify Registration.id_advance Registration.stream_advance
      c.bus other id)
  | lowerNext => exact hkept rfl
  | call _ _ => exact hkept (Bus.stream_call c.bus _ id)
  | finish other => exact hkept (Bus.stream_recordOutcome c.bus other id _ _)

/-- What a listener was called with and what waits in its mailbox are together what was put there,
in order. -/
theorem stream_run (c : Crew) (id : Nat) (moves : List Move) :
    (c.run moves).bus.stream id = c.bus.stream id ++ c.enqueued id moves := by
  induction moves generalizing c with
  | nil => exact (List.append_nil _).symm
  | cons m moves ih => rw [run_cons, ih, (effect_move c m).stream, enqueued, List.append_assoc]

/-- One worker is at something else, the others at what they were. -/
theorem work_engage_cases {other : Nat} {d d' : Option Dispatch}
    (h : (c.engage id d).work other = d') :
    (other = id ∧ d = d') ∨ (other ≠ id ∧ c.work other = d') := by
  by_cases hother : other = id
  · subst hother
    exact .inl ⟨rfl, (c.work_engage_self other d).symm.trans h⟩
  · exact .inr ⟨hother, (c.work_engage_of_ne hother d).symm.trans h⟩

/-- A worker that goes on with its call is at the same event, and the call is to end in the same
way. -/
theorem exists_work_of_engage {other : Nat} {d d' : Dispatch} {bus : Bus}
    {lowered lowering : List Nat} {calls : List BusCall} (hwork : c.work other = some d)
    (h : (engage { c with bus, lowered } other (some ⟨d.event, lowering, calls, d.outcome⟩)).work
      id = some d') :
    ∃ d₀, c.work id = some d₀ ∧ d₀.event = d'.event ∧ d₀.outcome = d'.outcome := by
  obtain ⟨rfl, heq⟩ | ⟨-, hd⟩ := work_engage_cases h
  · rw [← Option.some.inj heq]
    exact ⟨d, hwork, rfl, rfl⟩
  · exact ⟨d', hd, rfl, rfl⟩

/-- A listener is called with an event by its worker alone, when the worker is at nothing, has not
ended, and its flag is up. -/
theorem Effect.delivered (h : Effect c m c') (id : Nat) :
    (c'.bus.delivered id = c.bus.delivered id ∧ ∀ d, c'.work id = some d →
      ∃ d₀, c.work id = some d₀ ∧ d₀.event = d.event ∧ d₀.outcome = d.outcome) ∨
    (c.work id = none ∧ id ∉ c.lowered ∧ id ∉ c.bus.ended ∧
      ∃ d r, c'.work id = some d ∧ c.bus.registration? id = some r ∧
        c'.bus.delivered id = r.delivered ++ [d.event] ∧
        d.outcome = (r.listener.invoke id r.delivered d.event).outcome) := by
  have hsame : ∀ d, c.work id = some d →
      ∃ d₀, c.work id = some d₀ ∧ d₀.event = d.event ∧ d₀.outcome = d.outcome :=
        fun d hd => ⟨d, hd, rfl, rfl⟩
  cases h with
  | still => exact .inl ⟨rfl, hsame⟩
  | outside _ s hs => exact .inl ⟨Bus.delivered_step_of_ne c.bus hs id, hsame⟩
  | lower => exact .inl ⟨rfl, hsame⟩
  | @take other r e rest hidle hup hrunning hr hpending =>
    have hafter := Bus.registration?_modify Registration.id_advance c.bus other id
    by_cases hid : id = other
    · subst hid
      rw [hr, Option.map_some, if_pos rfl] at hafter
      have hadvance : r.advance.delivered = r.delivered ++ [e] := by
        simp only [Registration.advance, hpending]
      refine .inr ⟨hidle, hup, hrunning, _, r, work_engage_self _ _ _, hr, ?_, rfl⟩
      rw [bus_engage, Bus.delivered_of_registration? hafter, hadvance]
    · simp only [if_neg hid, Option.map_id'] at hafter
      refine .inl ⟨?_, fun d hd => ?_⟩
      · simp only [bus_engage, Bus.delivered, hafter]
      · have hwork : c.work id = some d := (work_engage_of_ne _ hid _).symm.trans hd
        exact hsame d hwork
  | lowerNext other hw => exact .inl ⟨rfl, fun d hd => exists_work_of_engage hw hd⟩
  | call other hw =>
    exact .inl ⟨Bus.delivered_call c.bus _ id, fun d hd => exists_work_of_engage hw hd⟩
  | finish other hw =>
    refine .inl ⟨Bus.delivered_recordOutcome c.bus other id _ _, fun d hd => ?_⟩
    obtain ⟨-, heq⟩ | ⟨-, hd⟩ := work_engage_cases hd
    · contradiction
    · exact ⟨d, hd, rfl, rfl⟩

/-- A worker ends when the call that it is at comes to an end that it does not survive. -/
theorem Effect.ended (h : Effect c m c') (hid : id ∈ c'.bus.ended) :
    id ∈ c.bus.ended ∨
      c'.work id = none ∧ ∃ d, c.work id = some d ∧ d.outcome.breaksWorker = true := by
  cases h with
  | still => exact .inl hid
  | outside _ s hs =>
    have hkept : (c.bus.step s).ended = c.bus.ended := (Bus.counts_step_of_ne c.bus hs).2
    exact .inl (hkept ▸ hid)
  | lower => exact .inl hid
  | take => exact .inl hid
  | lowerNext => exact .inl hid
  | @call _ _ call =>
    have hkept : (c.bus.call call).ended = c.bus.ended := (Bus.counts_foldl_call c.bus [call]).2
    exact .inl (hkept ▸ hid)
  | @finish other e outcome hw =>
    rw [bus_engage, Bus.ended_recordOutcome] at hid
    split at hid
    · next hbreaks =>
      obtain rfl | hid := List.mem_cons.1 hid
      · exact .inr ⟨work_engage_self _ id none, _, hw, hbreaks⟩
      · exact .inl hid
    · exact .inl hid

/-- What holds of a crew from the beginning on. -/
structure Orderly (c : Crew) : Prop where
  numbered : c.bus.Numbered
  lowered : ∀ id ∈ c.lowered, c.bus.Removed id
  lowering : ∀ id d, c.work id = some d → ∀ other ∈ d.lowering, c.bus.Removed other
  /-- The call that is running is the one with the last event. -/
  last : ∀ id d, c.work id = some d → ∃ r before, c.bus.registration? id = some r ∧
    r.delivered = before ++ [d.event] ∧ d.outcome = (r.listener.invoke id before d.event).outcome
  running : ∀ id d, c.work id = some d → id ∉ c.bus.ended
  ended : ∀ id ∈ c.bus.ended, ∃ r, c.bus.registration? id = some r ∧
    r.listener.breaks id [] r.delivered = true

/-- A new crew is orderly. -/
theorem orderly_start : Orderly {} :=
  ⟨Bus.numbered_empty,
    fun _ h => by contradiction, fun _ _ h => by contradiction, fun _ _ h => by contradiction,
    fun _ _ h => by contradiction, fun _ h => by contradiction⟩

/-- A move leaves registrations numbered in order. -/
theorem Effect.numbered (h : Effect c m c') (hn : c.bus.Numbered) : c'.bus.Numbered := by
  have hids : ∀ {b : Bus}, b.ids = c.bus.ids → b.Numbered := fun {b} hb => by
    have hlength : b.registrations.length = c.bus.registrations.length := by
      simpa [Bus.ids] using congrArg List.length hb
    rw [Bus.Numbered, hb, hlength]
    exact hn
  cases h with
  | still => exact hn
  | outside _ s => exact Bus.numbered_step hn s
  | lower => exact hn
  | take id => exact hids (Bus.map_modify Registration.id_advance c.bus id)
  | lowerNext => exact hn
  | @call id e call => exact hids (Bus.map_foldl_call (fun _ => rfl) c.bus [call])
  | finish id => exact hids (congrArg (List.map _) (Bus.registrations_recordOutcome c.bus id _ _))

/-- Flags are lowered of registrations that are out of the table. -/
theorem Effect.removed_of_lowered (h : Effect c m c') (ho : c.Orderly) (hid : id ∈ c'.lowered) :
    c'.bus.Removed id := by
  have hkept : id ∈ c.lowered → c'.bus.Removed id :=
    fun hid => (ho.lowered id hid).of_follows h.follows
  cases h with
  | still => exact hkept hid
  | outside => exact hkept hid
  | lower _ hr =>
    obtain rfl | hid := List.mem_cons.1 hid
    · exact hr
    · exact hkept hid
  | take => exact hkept hid
  | lowerNext _ hw =>
    obtain rfl | hid := List.mem_cons.1 hid
    · exact ho.lowering _ _ hw _ List.mem_cons_self
    · exact hkept hid
  | call => exact hkept hid
  | finish => exact hkept hid

/-- A listener waits for the flags of registrations that are out of the table. -/
theorem Effect.removed_of_lowering (h : Effect c m c') (ho : c.Orderly) {d : Dispatch} {other : Nat}
    (hwork : c'.work id = some d) (hother : other ∈ d.lowering) : c'.bus.Removed other := by
  have hkept : c.work id = some d → c'.bus.Removed other := fun hwork =>
    (ho.lowering id d hwork other hother).of_follows h.follows
  cases h with
  | still => exact hkept hwork
  | outside => exact hkept hwork
  | lower => exact hkept hwork
  | take =>
    obtain ⟨-, heq⟩ | ⟨-, hwork⟩ := work_engage_cases hwork
    · cases heq
      contradiction
    · exact hkept hwork
  | lowerNext _ hw =>
    obtain ⟨-, heq⟩ | ⟨-, hwork⟩ := work_engage_cases hwork
    · cases heq
      exact ho.lowering _ _ hw _ (List.mem_cons_of_mem _ hother)
    · exact hkept hwork
  | call _ hw =>
    obtain ⟨-, heq⟩ | ⟨-, hwork⟩ := work_engage_cases hwork
    · cases heq
      exact Bus.removed_call_of_mem_taken hother
    · exact hkept hwork
  | finish =>
    obtain ⟨-, heq⟩ | ⟨-, hwork⟩ := work_engage_cases hwork
    · contradiction
    · exact hkept hwork

/-- A registration that is called with nothing is found as it was, but for its mailbox and whether
it was removed. -/
theorem exists_registration?_of_delivered {r : Registration} (h : Effect c m c')
    (hr : c.bus.registration? id = some r) (hsame : c'.bus.delivered id = c.bus.delivered id) :
    ∃ r', c'.bus.registration? id = some r' ∧ r'.listener = r.listener ∧
      r'.delivered = r.delivered := by
  obtain ⟨r', hr', hfollows⟩ := h.follows id r hr
  rw [Bus.delivered_of_registration? hr, Bus.delivered_of_registration? hr'] at hsame
  exact ⟨r', hr', hfollows.listener, hsame⟩

/-- The call that is running is the one with the last event. -/
theorem Effect.last (h : Effect c m c') (ho : c.Orderly) {d : Dispatch}
    (hwork : c'.work id = some d) :
    ∃ r before, c'.bus.registration? id = some r ∧ r.delivered = before ++ [d.event] ∧
      d.outcome = (r.listener.invoke id before d.event).outcome := by
  obtain ⟨hsame, hbefore⟩ | ⟨-, -, -, d', r, hwork', hr, hdelivered, houtcome⟩ := h.delivered id
  · obtain ⟨d₀, hwork₀, hevent, houtcome⟩ := hbefore d hwork
    obtain ⟨r, before, hr, hsplit, hinvoke⟩ := ho.last id d₀ hwork₀
    obtain ⟨r', hr', hlistener, hdelivered⟩ := exists_registration?_of_delivered h hr hsame
    refine ⟨r', before, hr', ?_, ?_⟩
    · rw [hdelivered, hsplit, hevent]
    · rw [← houtcome, hinvoke, hlistener, hevent]
  · obtain rfl : d = d' := Option.some.inj (hwork.symm.trans hwork')
    obtain ⟨r', hr', hfollows⟩ := h.follows id r hr
    rw [Bus.delivered_of_registration? hr'] at hdelivered
    refine ⟨r', r.delivered, hr', hdelivered, ?_⟩
    rw [houtcome, hfollows.listener]

/-- A worker that is at something has not ended. -/
theorem Effect.running (h : Effect c m c') (ho : c.Orderly) {d : Dispatch}
    (hwork : c'.work id = some d) :
    id ∉ c'.bus.ended := by
  intro hid
  obtain hid | ⟨hidle, -⟩ := h.ended hid
  · obtain ⟨-, hbefore⟩ | ⟨-, -, hrunning, -⟩ := h.delivered id
    · obtain ⟨d₀, hwork₀, -⟩ := hbefore d hwork
      exact ho.running id d₀ hwork₀ hid
    · exact hrunning hid
  · rw [hidle] at hwork
    contradiction

/-- A worker ends over a call that it does not survive. -/
theorem Effect.breaks_of_ended (h : Effect c m c') (ho : c.Orderly) (hid : id ∈ c'.bus.ended) :
    ∃ r, c'.bus.registration? id = some r ∧ r.listener.breaks id [] r.delivered = true := by
  have hbroken : ∃ r, c.bus.registration? id = some r ∧
      r.listener.breaks id [] r.delivered = true := by
    obtain hid | ⟨-, d, hwork, hbreaks⟩ := h.ended hid
    · exact ho.ended id hid
    · obtain ⟨r, before, hr, hsplit, hinvoke⟩ := ho.last id d hwork
      refine ⟨r, hr, ?_⟩
      rw [hsplit, Listener.breaks_concat, List.nil_append, ← hinvoke, hbreaks, Bool.or_true]
  obtain ⟨r, hr, hbreaks⟩ := hbroken
  have hsame : c'.bus.delivered id = c.bus.delivered id := by
    obtain ⟨hsame, -⟩ | ⟨hidle, -, hrunning, -⟩ := h.delivered id
    · exact hsame
    · obtain hid | ⟨-, d, hwork, -⟩ := h.ended hid
      · exact absurd hid hrunning
      · rw [hidle] at hwork
        contradiction
  obtain ⟨r', hr', hlistener, hdelivered⟩ := exists_registration?_of_delivered h hr hsame
  refine ⟨r', hr', ?_⟩
  rw [hlistener, hdelivered, hbreaks]

/-- Every move keeps a crew orderly. -/
theorem Effect.orderly (h : Effect c m c') (ho : c.Orderly) : c'.Orderly where
  numbered := h.numbered ho.numbered
  lowered _ hid := h.removed_of_lowered ho hid
  lowering _ _ hwork _ hother := h.removed_of_lowering ho hwork hother
  last _ _ hwork := h.last ho hwork
  running _ _ hwork := h.running ho hwork
  ended _ hid := h.breaks_of_ended ho hid

/-- Every run keeps a crew orderly. -/
theorem orderly_run (ho : c.Orderly) (moves : List Move) : (c.run moves).Orderly := by
  induction moves generalizing c with
  | nil => exact ho
  | cons m moves ih => exact ih ((effect_move c m).orderly ho)

/-! ## Workers that are not interrupted -/

/-- A worker that is put at what it is at stays there. -/
theorem work_engage_of_eq {d : Option Dispatch} (h : c.work id = d) :
    (c.engage id d).work = c.work := by
  funext other
  by_cases hother : other = id
  · rw [hother, work_engage_self, h]
  · exact work_engage_of_ne c hother d

/-- Of two things that a worker is put at the last one counts. -/
theorem work_engage_congr {d d' : Option Dispatch} (h : c'.work = (c.engage id d).work) :
    (c'.engage id d').work = (c.engage id d').work := by
  funext other
  by_cases hother : other = id
  · rw [hother, work_engage_self, work_engage_self]
  · rw [work_engage_of_ne c' hother, h, work_engage_of_ne c hother, work_engage_of_ne c hother]

/-- A listener lowers the flags that its last call on the bus is about. -/
theorem run_lowering {e : EntryEvent} {lowering : List Nat} {calls : List BusCall}
    {outcome : Outcome} (hwork : c.work id = some ⟨e, lowering, calls, outcome⟩) :
    (c.run (List.replicate lowering.length (.proceed id))).bus = c.bus ∧
      (c.run (List.replicate lowering.length (.proceed id))).work =
        (c.engage id (some ⟨e, [], calls, outcome⟩)).work := by
  induction lowering generalizing c with
  | nil => exact ⟨rfl, (work_engage_of_eq hwork).symm⟩
  | cons other rest ih =>
    obtain ⟨c₁, hc₁⟩ : ∃ c₁, c₁ = c.move (.proceed id) := ⟨_, rfl⟩
    have hbus : c₁.bus = c.bus := by simp only [hc₁, move, proceed, hwork, bus_engage]
    have hwork₁ : c₁.work = (c.engage id (some ⟨e, rest, calls, outcome⟩)).work := by
      simp only [hc₁, move, proceed, hwork, engage]
    obtain ⟨hbus', hwork'⟩ := ih ((congrFun hwork₁ id).trans (work_engage_self c id _))
    rw [List.length_cons, List.replicate_succ, run_cons, ← hc₁]
    exact ⟨hbus'.trans hbus, hwork'.trans (work_engage_congr hwork₁)⟩

/-- A listener that goes on makes its calls and ends. -/
theorem exists_run_proceed {d : Dispatch} (hwork : c.work id = some d) :
    ∃ n, (c.run (List.replicate n (.proceed id))).bus =
        (d.calls.foldl Bus.call c.bus).recordOutcome id d.event d.outcome ∧
      (c.run (List.replicate n (.proceed id))).work = (c.engage id none).work := by
  obtain ⟨e, lowering, calls, outcome⟩ := d
  induction calls generalizing c lowering with
  | nil =>
    obtain ⟨c₁, hc₁⟩ : ∃ c₁, c₁ = c.run (List.replicate lowering.length (.proceed id)) := ⟨_, rfl⟩
    obtain ⟨hbus, hwork₁⟩ : c₁.bus = c.bus ∧
        c₁.work = (c.engage id (some ⟨e, [], [], outcome⟩)).work := by
      rw [hc₁]
      exact run_lowering hwork
    have hat : c₁.work id = some ⟨e, [], [], outcome⟩ :=
      (congrFun hwork₁ id).trans (work_engage_self c id _)
    have hmove : c₁.move (.proceed id) =
        { c₁ with bus := c₁.bus.recordOutcome id e outcome }.engage id none := by
          simp only [move, proceed, hat]
    refine ⟨lowering.length + 1, ?_⟩
    rw [List.replicate_succ', run_append, ← hc₁, run_cons, run_nil, hmove]
    exact ⟨congrArg (·.recordOutcome id e outcome) hbus, work_engage_congr hwork₁⟩
  | cons call calls ih =>
    obtain ⟨c₁, hc₁⟩ : ∃ c₁, c₁ = c.run (List.replicate lowering.length (.proceed id)) := ⟨_, rfl⟩
    obtain ⟨hbus, hwork₁⟩ : c₁.bus = c.bus ∧
        c₁.work = (c.engage id (some ⟨e, [], call :: calls, outcome⟩)).work := by
      rw [hc₁]
      exact run_lowering hwork
    have hat : c₁.work id = some ⟨e, [], call :: calls, outcome⟩ :=
      (congrFun hwork₁ id).trans (work_engage_self c id _)
    obtain ⟨c₂, hc₂⟩ : ∃ c₂, c₂ = c₁.move (.proceed id) := ⟨_, rfl⟩
    have hmove : c₂ =
        { c₁ with bus := c₁.bus.call call }.engage id
          (some ⟨e, c₁.bus.taken call, calls, outcome⟩) := by
      simp only [hc₂, move, proceed, hat]
    have hbus₂ : c₂.bus = c.bus.call call := by rw [hmove, bus_engage, hbus]
    have hwork₂ : c₂.work = (c.engage id (some ⟨e, c₁.bus.taken call, calls, outcome⟩)).work := by
      rw [hmove]
      exact work_engage_congr hwork₁
    obtain ⟨n, hbus', hwork'⟩ := ih _ ((congrFun hwork₂ id).trans (work_engage_self c id _))
    refine ⟨lowering.length + 1 + n, ?_⟩
    rw [← List.replicate_append_replicate, List.replicate_succ', run_append, run_append, ← hc₁,
      run_cons, run_nil, ← hc₂, hbus', hwork', hbus₂]
    exact ⟨rfl, work_engage_congr hwork₂⟩

/-- Taking an event in one go is what a worker does that is not interrupted. -/
theorem exists_run_deliverNext (hidle : c.work id = none)
    (hflag : id ∈ c.lowered ↔ c.bus.Removed id) :
    ∃ n, (c.run (.take id :: List.replicate n (.proceed id))).bus = c.bus.deliverNext id ∧
      (c.run (.take id :: List.replicate n (.proceed id))).work = c.work := by
  obtain ⟨r, e, rest, hready⟩ | ⟨hnothing, hready⟩ := Bus.deliverNext_cases c.bus id
  · have hup : id ∉ c.lowered := fun hmem => by
      obtain ⟨r', hr', hinactive⟩ := hflag.1 hmem
      rw [hready.found, Option.some.injEq] at hr'
      rw [← hr', hready.active] at hinactive
      contradiction
    have htakes : ¬(id ∈ c.lowered ∨ id ∈ c.bus.ended) := not_or.2 ⟨hup, hready.running⟩
    obtain ⟨reaction, hreaction⟩ : ∃ reaction, reaction = r.listener.invoke id r.delivered e :=
      ⟨_, rfl⟩
    have htake :
        c.move (.take id) = { c with bus := c.bus.modify id Registration.advance }.engage id
        (some ⟨e, [], reaction.calls, reaction.outcome⟩) := by
      simp only [move, take, hidle, hready.found, hready.pending, if_neg htakes, hreaction]
    have hat : (c.move (.take id)).work id = some ⟨e, [], reaction.calls, reaction.outcome⟩ := by
      rw [htake]
      exact work_engage_self _ id _
    obtain ⟨n, hbus, hwork⟩ := exists_run_proceed hat
    refine ⟨n, ?_⟩
    rw [run_cons, hbus, hwork, htake, Bus.deliverNext_of_ready hready, hreaction]
    refine ⟨rfl, ?_⟩
    exact (work_engage_congr (c := c) rfl).trans (work_engage_of_eq hidle)
  · have htake : c.take id = c := by
      unfold take
      split
      · next r _ hr =>
        split
        · next e rest hpending =>
          refine if_pos (Decidable.byContradiction fun htakes => ?_)
          obtain ⟨hup, hrunning⟩ := not_or.1 htakes
          have hactive : r.active = true := by
            cases hactive : r.active with
            | true => rfl
            | false => exact absurd (hflag.2 ⟨r, hr, hactive⟩) hup
          exact hready r e rest ⟨hr, hrunning, hactive, hpending⟩
        · rfl
      · rfl
    refine ⟨0, ?_⟩
    rw [List.replicate_zero, run_cons, run_nil, hnothing]
    exact ⟨congrArg Crew.bus htake, congrArg Crew.work htake⟩

/-- Lowering the flags of registrations that were taken out of the table concerns nothing else. -/
theorem run_lower (c : Crew) (ids : List Nat) :
    (c.run (ids.map .lower)).bus = c.bus ∧ (c.run (ids.map .lower)).work = c.work := by
  induction ids generalizing c with
  | nil => exact ⟨rfl, rfl⟩
  | cons id ids ih =>
    have hlower : (c.lower id).bus = c.bus ∧ (c.lower id).work = c.work := by
      unfold lower
      split
      · split <;> exact ⟨rfl, rfl⟩
      · exact ⟨rfl, rfl⟩
    obtain ⟨hbus, hwork⟩ := ih (c.lower id)
    exact ⟨hbus.trans hlower.1, hwork.trans hlower.2⟩

/-- Whether no listener runs, and no registration is out of the table while its flag is still up. -/
structure Calm (c : Crew) : Prop where
  orderly : c.Orderly
  idle : ∀ id, c.work id = none
  lowered : ∀ id, c.bus.Removed id → id ∈ c.lowered

/-- A crew of which no listener runs can lower all flags that are due. -/
theorem exists_calm (ho : c.Orderly) (hidle : ∀ id, c.work id = none) :
    ∃ moves, (c.run moves).bus = c.bus ∧ (c.run moves).Calm := by
  obtain ⟨hbus, hwork⟩ := run_lower c c.bus.ids
  refine ⟨c.bus.ids.map .lower, hbus, orderly_run ho _, fun id =>
    (congrFun hwork id).trans (hidle id), ?_⟩
  intro id hremoved
  rw [hbus] at hremoved
  have ⟨r, hr, _⟩ := hremoved
  have hid : r.id = id := by simpa using List.find?_some hr
  have hmem : id ∈ c.bus.ids := hid ▸ List.mem_map_of_mem (List.mem_of_find?_eq_some hr)
  obtain ⟨earlier, later, hsplit⟩ := List.append_of_mem hmem
  have hlowered := mem_lowered_of_removed hremoved (earlier.map .lower)
  have hmoves : c.bus.ids.map Move.lower =
      (earlier.map .lower ++ [.lower id]) ++ later.map .lower := by
    rw [hsplit, List.map_append, List.map_cons, List.append_assoc, List.singleton_append]
  rw [hmoves, run_append]
  exact mem_lowered_run hlowered _

/-- A calm crew can do what a bus does in one step. -/
theorem exists_run_step (h : c.Calm) (s : Bus.Step) :
    ∃ moves, (c.run moves).bus = c.bus.step s ∧ (c.run moves).Calm := by
  have hmoves : ∃ moves, (c.run moves).bus = c.bus.step s ∧ (c.run moves).work = c.work := by
    cases s with
    | register map listener includeValue => exact ⟨[.register map listener includeValue], rfl, rfl⟩
    | unregister id => exact ⟨[.unregister id], rfl, rfl⟩
    | shutdown => exact ⟨[.shutdown], rfl, rfl⟩
    | publish events => exact ⟨[.publish events], rfl, rfl⟩
    | deliver batch => exact ⟨[.deliver batch], rfl, rfl⟩
    | deliverNext id =>
      obtain ⟨n, hn⟩ := exists_run_deliverNext (h.idle id) ⟨h.orderly.lowered id, h.lowered id⟩
      exact ⟨_, hn⟩
  obtain ⟨moves, hbus, hwork⟩ := hmoves
  obtain ⟨moves', hbus', hcalm⟩ := exists_calm (orderly_run h.orderly moves) fun id =>
    (congrFun hwork id).trans (h.idle id)
  refine ⟨moves ++ moves', ?_⟩
  rw [run_append]
  exact ⟨hbus'.trans hbus, hcalm⟩

/-- Every history of a bus is one of a crew in which nobody is interrupted. -/
theorem exists_run_bus (steps : List Bus.Step) :
    ∃ moves, (Crew.run {} moves).bus = Bus.run {} steps := by
  have hcalm : ∀ c : Crew, c.Calm → ∃ moves, (c.run moves).bus = c.bus.run steps := by
    induction steps with
    | nil => exact fun c _ => ⟨[], rfl⟩
    | cons s steps ih =>
      intro c h
      obtain ⟨moves, hbus, h'⟩ := exists_run_step h s
      obtain ⟨moves', hbus'⟩ := ih _ h'
      refine ⟨moves ++ moves', ?_⟩
      rw [run_append, hbus', hbus, Bus.run_cons]
  exact hcalm {} ⟨orderly_start, fun _ => rfl, fun _ ⟨_, hr, _⟩ => by contradiction⟩

end Crew

end ClusterMap
