import ClusterMap.Event.Listener

/-!
# The event bus

Hands the events of maps to the listeners registered for them. Every registration has a mailbox and
a worker; publishing puts a batch into the mailboxes of those whose map and categories fit, and a
worker takes one event at a time from its mailbox, in whatever order the workers get their turn. A
listener that fails is counted and reported, and delivery goes on; if its worker panics over what
the listener left behind, the worker ends, uncounted, and its mailbox is closed. What waits in a
closed mailbox or is sent there later is dropped; here it stays among the waiting events, which
nobody takes. A registration that is removed keeps what was delivered to it and takes no further
event. Main statements: `registration?_publish`, `stream_deliverNext` (delivered and waiting events
together are those that were enqueued, in order; delivering only moves the border between them).
-/

namespace ClusterMap

/-- What a bus reports in its log. -/
inductive Warning where
  | listenerFailed (category : Category) (key : Key) (error : Error)
  | undecodable (map : String) (key : Key) (error : Error)
  deriving DecidableEq, Repr

/-- The line of the log. -/
def Warning.line : Warning → String
  | listenerFailed category key error =>
    "Listener failed; continuing delivery | category=" ++ category.text ++ " | key=" ++ key.text ++
      " | error=" ++ error.message
  | undecodable map key error =>
    "Dropping undecodable event value | map=" ++ map ++ " | key=" ++ key.text ++ " | error=" ++
      error.message

/-- A listener registered for the events of a map. -/
structure Registration where
  id : Nat
  map : String
  listener : Listener
  /-- Whether events carry their values. -/
  includeValue : Bool
  /-- False once the registration was removed. -/
  active : Bool := true
  /-- The events the listener was called with, in order. -/
  delivered : List EntryEvent := []
  /-- The events in the mailbox that the listener was not called with, in order. -/
  pending : List EntryEvent := []

namespace Registration

/-- Whether an event is for this registration. -/
def wants (r : Registration) (e : EntryEvent) : Bool :=
  e.map = r.map && r.listener.accepts e.category

/-- The events of a batch that are for this registration, as it gets them. -/
def select (r : Registration) (events : List EntryEvent) : List EntryEvent :=
  (events.filter r.wants).map fun e => if r.includeValue then e else e.withoutValue

/-- Puts a batch into the mailbox of an active registration. -/
def enqueue (r : Registration) (events : List EntryEvent) : Registration :=
  if r.active then { r with pending := r.pending ++ r.select events } else r

/-- Takes part in no delivery any more. -/
def deactivate (r : Registration) : Registration := { r with active := false }

/-- The first waiting event becomes the last delivered one. -/
def advance (r : Registration) : Registration :=
  match r.pending with
  | [] => r
  | e :: rest => { r with delivered := r.delivered ++ [e], pending := rest }

/-- Everything that was ever put into the mailbox, in order. -/
def stream (r : Registration) : List EntryEvent := r.delivered ++ r.pending

/-- A batch adds to the stream of an active registration what is for it. -/
theorem stream_enqueue (r : Registration) (events : List EntryEvent) :
    (r.enqueue events).stream = r.stream ++ if r.active then r.select events else [] := by
  cases h : r.active <;> simp [enqueue, stream, h]

/-- Taking an event moves the border within the stream. -/
theorem stream_advance (r : Registration) : r.advance.stream = r.stream := by
  unfold advance stream
  split <;> simp_all

@[simp] theorem id_enqueue (r : Registration) (events : List EntryEvent) :
    (r.enqueue events).id = r.id := by
  unfold enqueue
  split <;> rfl

@[simp] theorem id_advance (r : Registration) : r.advance.id = r.id := by
  unfold advance
  split <;> rfl

/-- Removing a registration leaves its stream as it is. -/
theorem stream_deactivate (r : Registration) : r.deactivate.stream = r.stream := rfl

/-- The delivered events for which the listener has a handler. -/
def handled (r : Registration) : List EntryEvent :=
  r.delivered.filter fun e => (r.listener.handler? e.category).isSome

end Registration

/-- The registrations ever made on a bus, oldest first, and what went wrong. -/
structure Bus where
  registrations : List Registration := []
  /-- The registrations whose workers ended because they panicked themselves, the last one first. -/
  ended : List Nat := []
  /-- How many calls of a listener were reported as failures. The count starts over behind the last
  word. -/
  failureWord : UInt64 := 0
  /-- The log, oldest line first. -/
  warnings : List Warning := []

namespace Bus

instance : Inhabited Bus := ⟨{}⟩

/-! ## Registering -/

/-- The number that the next registration gets. -/
def nextId (b : Bus) : Nat := b.registrations.length + 1

/-- Registers a listener for a map. Also gives the number of the registration. -/
def register (b : Bus) (map : String) (listener : Listener) (includeValue : Bool) : Nat × Bus :=
  (b.nextId,
    { b with registrations := b.registrations ++
      [⟨b.nextId, map, listener, includeValue, true, [], []⟩] })

/-- Registers handlers for every category of a map. -/
def registerMulti (b : Bus) (map : String) (handlers : Category → Option Handler)
    (includeValue : Bool) : Nat × Bus := b.register map (.multi handlers) includeValue

/-- Registers a handler for one category of a map; its events carry their values. -/
def registerSingle (b : Bus) (map : String) (category : Category) (handler : Handler) : Nat × Bus :=
  b.register map (.single category handler) true

/-- The registration of a number. -/
def registration? (b : Bus) (id : Nat) : Option Registration := b.registrations.find? (·.id == id)

/-- Whether a number is that of a registration that was not removed. -/
def isActive (b : Bus) (id : Nat) : Bool := b.registrations.any fun r => r.id == id && r.active

/-- Changes the registration of a number. -/
def modify (b : Bus) (id : Nat) (f : Registration → Registration) : Bus :=
  { b with registrations := b.registrations.map fun r => if r.id = id then f r else r }

/-- Removes a registration. Also says whether there was one to remove. -/
def unregister (b : Bus) (id : Nat) : Bool × Bus :=
  (b.isActive id, b.modify id Registration.deactivate)

/-- Removes every registration. -/
def shutdown (b : Bus) : Bus :=
  { b with registrations := b.registrations.map Registration.deactivate }

/-- The registrations that were not removed. -/
def active (b : Bus) : List Registration := b.registrations.filter (·.active)

/-- How many registrations there are. -/
def registrationCount (b : Bus) : Nat := b.active.length

/-- How many registrations there are for one map. -/
def registrationCountFor (b : Bus) (map : String) : Nat := (b.active.filter (·.map == map)).length

/-! ## Publishing -/

/-- Puts events into the mailboxes of the registrations they are for. -/
def publish (b : Bus) (events : List EntryEvent) : Bus :=
  { b with registrations := b.registrations.map (·.enqueue events) }

/-- The report about a notification whose bytes are no value. -/
def decodingWarning? (n : Notification) : Option Warning :=
  match n.value with
  | none => none
  | some bytes =>
    match Value.decode bytes with
    | .ok _ => none
    | .error e => some (.undecodable n.map n.key (.serialization e.message))

/-- Publishes the events of notifications, reporting values that cannot be decoded. -/
def deliver (b : Bus) (batch : Batch) : Bus :=
  ({ b with warnings := b.warnings ++ batch.filterMap decodingWarning? } : Bus).publish
    (batch.map EntryEvent.ofNotification)

/-! ## Delivering -/

/-- Does what a handler asks for. -/
def call (b : Bus) : BusCall → Bus
  | .unregister id => (b.unregister id).2
  | .shutdown => b.shutdown

/-- Counts and reports a call of a listener that did not end well, or the worker that ran it
ends. -/
def recordOutcome (b : Bus) (id : Nat) (e : EntryEvent) (outcome : Outcome) : Bus :=
  if outcome.breaksWorker then { b with ended := id :: b.ended }
  else
    match outcome.failure? with
    | none => b
    | some reason =>
      { b with
        failureWord := b.failureWord + 1
        warnings := b.warnings ++ [.listenerFailed e.category e.key (.listenerDispatch id reason)] }

/-- How many calls of a listener the bus says were reported as failures. -/
def failures (b : Bus) : Nat := b.failureWord.toNat

/-- The worker of a number takes the next event from its mailbox and calls its listener, unless it
has ended, its registration was removed, or there is no event. -/
def deliverNext (b : Bus) (id : Nat) : Bus :=
  match b.registration? id with
  | none => b
  | some r =>
    if id ∈ b.ended then b
    else
      match r.active, r.pending with
      | true, e :: _ =>
        let reaction := r.listener.invoke id r.delivered e
        (reaction.calls.foldl call (b.modify id Registration.advance)).recordOutcome id e
          reaction.outcome
      | _, _ => b

/-- Whether the worker of a number takes an event: it has not ended, and the event is the next one
of its registration, which was not removed. -/
structure Ready (b : Bus) (id : Nat) (r : Registration) (e : EntryEvent) (rest : List EntryEvent) :
    Prop where
  found : b.registration? id = some r
  running : id ∉ b.ended
  active : r.active = true
  pending : r.pending = e :: rest

/-- A worker that takes an event does what the listener asks for, and the end of the call is
recorded. -/
theorem deliverNext_of_ready {b : Bus} {id : Nat} {r : Registration} {e : EntryEvent}
    {rest : List EntryEvent} (h : b.Ready id r e rest) :
    b.deliverNext id =
      ((r.listener.invoke id r.delivered e).calls.foldl call
        (b.modify id Registration.advance)).recordOutcome id e
          (r.listener.invoke id r.delivered e).outcome := by
  simp only [deliverNext, h.found, if_neg h.running, h.active, h.pending]

/-- A worker takes an event, or it does nothing. -/
theorem deliverNext_cases (b : Bus) (id : Nat) :
    (∃ r e rest, b.Ready id r e rest) ∨
      b.deliverNext id = b ∧ ∀ r e rest, ¬b.Ready id r e rest := by
  by_cases h : ∃ r e rest, b.Ready id r e rest
  · exact .inl h
  · simp only [not_exists] at h
    refine .inr ⟨?_, h⟩
    unfold deliverNext
    split
    · rfl
    · next r hr =>
      split
      · rfl
      · next hrunning =>
        split
        · next e rest hactive hpending =>
            exact absurd ⟨hr, hrunning, hactive, hpending⟩ (h r e rest)
        · rfl

/-- How many events the worker of a number has not taken yet. -/
def pendingCount (b : Bus) (id : Nat) : Nat :=
  match b.registration? id with
  | some r => r.pending.length
  | none => 0

/-- The registration of a number takes all events that are in its mailbox. -/
def drainRegistration (b : Bus) (id : Nat) : Bus :=
  Nat.repeat (fun b => b.deliverNext id) (b.pendingCount id) b

/-- Every registration takes all events that are in its mailbox, one registration after the
other. -/
def drain (b : Bus) : Bus :=
  (b.registrations.map (·.id)).foldl drainRegistration b

/-! ## What the operations do -/

/-- Changing every registration, but not its number, changes the one of a number. -/
theorem find?_map {f : Registration → Registration} (hf : ∀ r, (f r).id = r.id)
    (l : List Registration) (id : Nat) :
    (l.map f).find? (·.id == id) = (l.find? (·.id == id)).map f := by
  rw [List.find?_map]
  congr 2
  funext r
  simp [hf]

/-- Publishing puts the batch into every mailbox. -/
theorem registration?_publish (b : Bus) (events : List EntryEvent) (id : Nat) :
    (b.publish events).registration? id = (b.registration? id).map (·.enqueue events) :=
  find?_map (fun r => r.id_enqueue events) _ _

/-- Shutting down removes every registration. -/
theorem registration?_shutdown (b : Bus) (id : Nat) :
    b.shutdown.registration? id = (b.registration? id).map Registration.deactivate :=
  find?_map (f := Registration.deactivate) (fun _ => rfl) _ _

/-- Changing the registration of a number changes no other one. -/
theorem registration?_modify {f : Registration → Registration} (hf : ∀ r, (f r).id = r.id) (b : Bus)
    (id other : Nat) :
    (b.modify id f).registration? other =
      (b.registration? other).map fun r => if other = id then f r else r := by
  have hkeep : ∀ r : Registration, (if r.id = id then f r else r).id = r.id := fun r => by
    split <;> simp [hf]
  unfold registration? modify
  rw [find?_map hkeep]
  refine Option.map_congr fun r hr => ?_
  have hid : r.id = other := by simpa using List.find?_some hr
  simp [hid]

/-- What was ever put into the mailbox of the registration of a number, in order. -/
def stream (b : Bus) (id : Nat) : List EntryEvent :=
  match b.registration? id with
  | some r => r.stream
  | none => []

/-- What changes registrations but not their streams leaves the stream of every number as it is. -/
theorem stream_eq_of_registration? {b b' : Bus} {id : Nat} {f : Registration → Registration}
    (hf : ∀ r, (f r).stream = r.stream) (h : b'.registration? id = (b.registration? id).map f) :
    b'.stream id = b.stream id := by
  unfold stream
  rw [h]
  cases b.registration? id with
  | none => rfl
  | some r => exact hf r

/-- A change of a registration that keeps its stream keeps all streams. -/
theorem stream_modify {f : Registration → Registration} (hid : ∀ r, (f r).id = r.id)
    (hf : ∀ r, (f r).stream = r.stream) (b : Bus) (id other : Nat) :
    (b.modify id f).stream other = b.stream other :=
  stream_eq_of_registration? (fun r => by split <;> simp [hf]) (registration?_modify hid b id other)

/-- Removing registrations changes no stream. -/
theorem stream_call (b : Bus) (c : BusCall) (id : Nat) : (b.call c).stream id = b.stream id := by
  cases c with
  | unregister other =>
    exact stream_modify (f := Registration.deactivate) (fun _ => rfl)
      Registration.stream_deactivate b other id
  | shutdown =>
    exact stream_eq_of_registration? Registration.stream_deactivate (b.registration?_shutdown id)

/-- Whatever a listener removes, no stream changes. -/
theorem stream_foldl_call (b : Bus) (calls : List BusCall) (id : Nat) :
    (calls.foldl call b).stream id = b.stream id := by
  induction calls generalizing b with
  | nil => rfl
  | cons c calls ih => rw [List.foldl_cons, ih, stream_call]

/-- How a call ends changes no stream. -/
theorem stream_recordOutcome (b : Bus) (id other : Nat) (e : EntryEvent) (outcome : Outcome) :
    (b.recordOutcome id e outcome).stream other = b.stream other := by
  unfold recordOutcome
  split
  · rfl
  · split <;> rfl

/-- Delivering changes no stream: what a registration takes from its mailbox it was called with. -/
theorem stream_deliverNext (b : Bus) (id other : Nat) :
    (b.deliverNext id).stream other = b.stream other := by
  obtain ⟨r, e, rest, hready⟩ | ⟨hidle, -⟩ := deliverNext_cases b id
  · rw [deliverNext_of_ready hready, stream_recordOutcome, stream_foldl_call]
    exact stream_modify Registration.id_advance Registration.stream_advance b id other
  · rw [hidle]

end Bus

end ClusterMap
