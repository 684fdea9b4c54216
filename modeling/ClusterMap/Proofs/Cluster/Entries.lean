import ClusterMap.Cluster.Store

/-!
# The entry store as a flat function

A store is called again and again, and every reply is the one that a partial function of map and key
would give (`Flat`), together with the maps that something was ever put into. What the function
holds can be told from the calls alone: the bytes that were last put under a key, if nothing has
taken them away since. Main statements: `get_call` and `get_run`, a store holds what its calls
leave; `Flat.Answers.unique`, the function leaves no choice; `replies_flat`.
-/

namespace ClusterMap.Store

/-! ## Calls and replies -/

/-- A call of a store. -/
inductive Call where
  | get (map : String) (key : Key)
  | put (map : String) (key : Key) (value : Bytes)
  | remove (map : String) (key : Key)
  | clear (map : String)
  | size (map : String)
  | isEmpty (map : String)
  | entries (map : String)
  | mapNames
  deriving DecidableEq

/-- What a call gives back. -/
inductive Reply where
  | held (value : Option Bytes)
  | count (n : Nat)
  | flag (b : Bool)
  | entries (list : List (Key × Bytes))
  | names (list : List String)
  deriving DecidableEq

/-- Makes a call: its reply, and the store behind it. -/
def call (s : Store) : Call → Reply × Store
  | .get map key => (.held (s.get map key), s)
  | .put map key value => (s.put map key value).map .held id
  | .remove map key => (s.remove map key).map .held id
  | .clear map => (s.clear map).map .count id
  | .size map => (.count (s.size map), s)
  | .isEmpty map => (.flag (s.isEmpty map), s)
  | .entries map => (.entries (s.entries map), s)
  | .mapNames => (.names s.mapNames, s)

/-- The store behind some calls. -/
def run (s : Store) (calls : List Call) : Store := calls.foldl (fun s c => (s.call c).2) s

/-- The replies to some calls, in order. -/
def replies (s : Store) : List Call → List Reply
  | [] => []
  | c :: calls => (s.call c).1 :: (s.call c).2.replies calls

namespace Call

/-- The map that a call names, if it names one. -/
def map? : Call → Option String
  | get map _ | put map _ _ | remove map _ | clear map | size map | isEmpty map | entries map =>
    some map
  | mapNames => none

/-- Whether a call decides what is held under a key from then on. -/
def Settles (map : String) (key : Key) : Call → Prop
  | put other key' _ | remove other key' => map = other ∧ key = key'
  | clear other => map = other
  | _ => False

end Call

/-! ## The flat function -/

/-- Bytes under keys of maps. -/
abbrev Flat := String → Key → Option Bytes

namespace Flat

/-- The function behind a call. -/
def after (held : Flat) : Call → Flat
  | .put map key value =>
    fun other key' => if other = map ∧ key' = key then some value else held other key'
  | .remove map key => fun other key' => if other = map ∧ key' = key then none else held other key'
  | .clear map => fun other key' => if other = map then none else held other key'
  | _ => held

/-- The function behind some calls of a store that was empty. -/
def ofCalls (calls : List Call) : Flat := calls.foldl after fun _ _ => none

/-- A list of just the entries of a map, each once and in ascending order of the keys. -/
structure Lists (held : Flat) (map : String) (list : List (Key × Bytes)) : Prop where
  inKeyOrder : InKeyOrder list
  mem_iff : ∀ key value, (key, value) ∈ list ↔ held map key = some value

/-- What a call is replied, given what is held and which maps have a name. -/
inductive Answers (held : Flat) (named : String → Prop) : Call → Reply → Prop where
  | get (map : String) (key : Key) : Answers held named (.get map key) (.held (held map key))
  | put (map : String) (key : Key) (value : Bytes) :
      Answers held named (.put map key value) (.held (held map key))
  | remove (map : String) (key : Key) : Answers held named (.remove map key) (.held (held map key))
  | clear {map : String} {list : List (Key × Bytes)} : Lists held map list →
      Answers held named (.clear map) (.count list.length)
  | size {map : String} {list : List (Key × Bytes)} : Lists held map list →
      Answers held named (.size map) (.count list.length)
  | isEmpty {map : String} {b : Bool} : (b = true ↔ ∀ key, held map key = none) →
      Answers held named (.isEmpty map) (.flag b)
  | entries {map : String} {list : List (Key × Bytes)} : Lists held map list →
      Answers held named (.entries map) (.entries list)
  | mapNames {list : List String} : list.Pairwise (· < ·) → (∀ name, name ∈ list ↔ named name) →
      Answers held named .mapNames (.names list)

variable {held : Flat} {named : String → Prop} {map : String}

/-- There is one list of the entries of a map. -/
theorem Lists.unique {list list' : List (Key × Bytes)} (h : Lists held map list)
    (h' : Lists held map list') :
    list = list' :=
  Table.eq_of_mem_iff (fun e : Key × Bytes => e.1.text) h.inKeyOrder h'.inKeyOrder fun e =>
    (h.mem_iff e.1 e.2).trans (h'.mem_iff e.1 e.2).symm

/-- A call has one reply. -/
theorem Answers.unique {call : Call} {reply reply' : Reply} (h : Answers held named call reply)
    (h' : Answers held named call reply') : reply = reply' := by
  cases h with
  | get | put | remove => cases h'; rfl
  | clear hlist | size hlist | entries hlist =>
    cases h' with
    | _ hlist' => rw [hlist.unique hlist']
  | isEmpty hb =>
    cases h' with
    | isEmpty hb' => rw [Bool.eq_iff_iff.2 (hb.trans hb'.symm)]
  | mapNames hsorted hmem =>
    cases h' with
    | mapNames hsorted' hmem' =>
      rw [Table.eq_of_mem_iff id hsorted hsorted' fun name => (hmem name).trans (hmem' name).symm]

/-- A call that does not decide what is held under a key leaves it. -/
theorem after_of_not_settles {call : Call} {key : Key} (h : ¬call.Settles map key) :
    after held call map key = held map key := by
  cases call with
  | put other key' value | remove other key' | clear other => exact if_neg h
  | _ => rfl

/-- After a call that decides what is held under a key, something is held there just if the call put
it there. -/
theorem after_of_settles {call : Call} {key : Key} {value : Bytes} (h : call.Settles map key) :
    after held call map key = some value ↔ call = .put map key value := by
  cases call with
  | put other key' value' | remove other key' =>
    obtain ⟨rfl, rfl⟩ := h
    simp [after]
  | clear other =>
    obtain rfl := h
    simp [after]
  | _ => exact h.elim

/-- A place where a list can be cut is its first one or a later one. -/
theorem exists_append_cons_iff {α : Type} {a b : α} {l : List α} {P : List α → Prop} :
    (∃ before later, b :: l = before ++ a :: later ∧ P later) ↔
      (b = a ∧ P l) ∨ ∃ before later, l = before ++ a :: later ∧ P later := by
  constructor
  · rintro ⟨before, later, happend, hlater⟩
    cases before with
    | nil =>
      obtain ⟨rfl, rfl⟩ := List.cons.inj happend
      exact .inl ⟨rfl, hlater⟩
    | cons b' before =>
      obtain ⟨rfl, rfl⟩ := List.cons.inj happend
      exact .inr ⟨before, later, rfl, hlater⟩
  · rintro (⟨rfl, hl⟩ | ⟨before, later, rfl, hlater⟩)
    · exact ⟨[], l, rfl, hl⟩
    · exact ⟨b :: before, later, rfl, hlater⟩

/-- What is held under a key is what was last put there, unless it has been taken away since;
without such a call it is what was held at first. -/
theorem foldl_after_eq_some_iff {calls : List Call} {key : Key} {value : Bytes} :
    calls.foldl after held map key = some value ↔
      (∃ before later, calls = before ++ .put map key value :: later ∧
        ∀ c ∈ later, ¬c.Settles map key) ∨
        held map key = some value ∧ ∀ c ∈ calls, ¬c.Settles map key := by
  induction calls generalizing held with
  | nil => simp
  | cons c calls ih =>
    rw [List.foldl_cons, ih, exists_append_cons_iff (P := fun later =>
      ∀ c ∈ later, ¬Call.Settles map key c),
      List.forall_mem_cons]
    -- a call that settles hides what was held, and what it leaves itself is there only if it put it
    -- there
    by_cases h : c.Settles map key
    · rw [after_of_settles h]
      simp only [h, not_true_eq_false, false_and, and_false, or_false]
      exact or_comm
    · have hother : c ≠ .put map key value := by
        rintro rfl
        exact h ⟨rfl, rfl⟩
      rw [after_of_not_settles h]
      simp only [h, hother, not_false_eq_true, true_and, false_and, false_or]

end Flat

/-! ## What a store holds -/

variable (s : Store)

/-- A store lists the entries of a map as its flat function does. -/
theorem lists_entries (map : String) : Flat.Lists s.get map (s.entries map) where
  inKeyOrder := s.inKeyOrder_entries map
  mem_iff _ _ := mem_entries_iff

/-- A call leaves what the function says. -/
theorem get_call (c : Call) : (s.call c).2.get = Flat.after s.get c := by
  funext map key
  cases c with
  | put other key' value => exact s.get_put other map key' key value
  | remove other key' => exact s.get_remove other map key' key
  | clear other => exact s.get_clear other map key
  | _ => rfl

/-- Only putting something into a map gives it a name. -/
theorem mem_mapNames_call (c : Call) (map : String) :
    map ∈ (s.call c).2.mapNames ↔ map ∈ s.mapNames ∨ ∃ key value, c = .put map key value := by
  cases c with
  | put other key value => simp [call, mem_mapNames_put, or_comm, eq_comm]
  | remove other key => simp [call, mapNames_remove]
  | clear other => simp [call, mapNames_clear]
  | _ => simp [call]

/-- Only putting an entry makes a map. -/
theorem mapNames_call {c : Call} (h : ∀ map key value, c ≠ .put map key value) :
    (s.call c).2.mapNames = s.mapNames := by
  refine Table.eq_of_mem_iff id (Table.names_ascending _) (Table.names_ascending _) fun map => ?_
  show map ∈ (s.call c).2.mapNames ↔ map ∈ s.mapNames
  rw [mem_mapNames_call]
  simp [h]

/-- A call leaves the entries of the maps that it does not name. -/
theorem entries_call {c : Call} {map : String} (h : c.map? ≠ some map) :
    (s.call c).2.entries map = s.entries map := by
  have hget : ∀ key, (s.call c).2.get map key = s.get map key := fun key => by
    rw [get_call]
    refine Flat.after_of_not_settles fun hsettles => h ?_
    cases c <;> simp_all [Call.Settles, Call.map?]
  have hlists := (s.call c).2.lists_entries map
  refine hlists.unique ⟨s.inKeyOrder_entries map, fun key value => ?_⟩
  rw [mem_entries_iff, hget]

/-- What is held after a run is what the flat function gives. -/
theorem get_run (calls : List Call) : (s.run calls).get = calls.foldl Flat.after s.get := by
  induction calls generalizing s with
  | nil => rfl
  | cons c calls ih => rw [run, List.foldl_cons, ← run, ih, get_call, List.foldl_cons]

/-- The maps after a run are those before it and those that an entry was put into. -/
theorem mem_mapNames_run (calls : List Call) (map : String) :
    map ∈ (s.run calls).mapNames ↔ map ∈ s.mapNames ∨ ∃ key value, .put map key value ∈ calls := by
  induction calls generalizing s with
  | nil => simp [run]
  | cons c calls ih =>
    rw [run, List.foldl_cons, ← run, ih, mem_mapNames_call]
    simp only [List.mem_cons, or_assoc, exists_or, eq_comm]

/-! ## What a store replies -/

/-- A map has no entries just if nothing is held under any key of it. -/
theorem isEmpty_eq_true_iff (map : String) :
    s.isEmpty map = true ↔ ∀ key, s.get map key = none := by
  have hentries : s.isEmpty map = true ↔ s.entries map = [] := by
    rw [isEmpty, beq_iff_eq, ← length_entries, List.length_eq_zero_iff]
  rw [hentries, List.eq_nil_iff_forall_not_mem]
  constructor
  · intro h key
    refine Option.eq_none_iff_forall_ne_some.2 fun value hvalue => ?_
    exact h (key, value) (mem_entries_iff.2 hvalue)
  · rintro h ⟨key, value⟩ hmem
    rw [mem_entries_iff, h key] at hmem
    contradiction

/-- A call is replied what the function says. -/
theorem answers_call (c : Call) : Flat.Answers s.get (· ∈ s.mapNames) c (s.call c).1 := by
  have hlists := fun map => s.lists_entries map
  cases c with
  | get map key => exact .get map key
  | put map key value => exact .put map key value
  | remove map key =>
    have hreply : (s.call (.remove map key)).1 = .held (s.get map key) := by
      simp only [call, Prod.map_fst, remove_fst]
    rw [hreply]
    exact .remove map key
  | clear map =>
    have hreply : (s.call (.clear map)).1 = .count (s.entries map).length := by
      simp only [call, Prod.map_fst, clear_fst, length_entries]
    rw [hreply]
    exact .clear (hlists map)
  | size map =>
    have hreply : (s.call (.size map)).1 = .count (s.entries map).length := by
      simp only [call, length_entries]
    rw [hreply]
    exact .size (hlists map)
  | isEmpty map => exact .isEmpty (s.isEmpty_eq_true_iff map)
  | entries map => exact .entries (hlists map)
  | mapNames => exact .mapNames s.maps.names_ascending fun name => Iff.rfl

/-! ## Replies one after the other -/

/-- A reply depends on the calls before it alone. -/
theorem getElem?_replies (before : List Call) (c : Call) (later : List Call) :
    (s.replies (before ++ c :: later))[before.length]? = some ((s.run before).call c).1 := by
  induction before generalizing s with
  | nil => rfl
  | cons c' before ih => simp [replies, ih, run]

/-- The last call of a run meets what the run before left. -/
theorem run_concat (calls : List Call) (c : Call) :
    s.run (calls ++ [c]) = ((s.run calls).call c).2 := by
  simp [run]

/-- Of calls of an empty store, each has one reply, and it is what the function of the calls before
it says, with a name for every map that something was put into. What the function holds under a key
is what was last put there, unless it has been taken away since. A call leaves the entries of the
maps that it does not name, and only putting something into a map changes the names. -/
theorem replies_flat (before : List Call) (c : Call) (later : List Call) :
    (∃ reply, (empty.replies (before ++ c :: later))[before.length]? = some reply) ∧
    (∀ reply, (empty.replies (before ++ c :: later))[before.length]? = some reply ↔
      Flat.Answers (Flat.ofCalls before)
      (fun map => ∃ key value, .put map key value ∈ before) c reply) ∧
    (∀ map key value, Flat.ofCalls before map key = some value ↔
      ∃ earlier since, before = earlier ++ .put map key value :: since ∧
        ∀ c' ∈ since, ¬c'.Settles map key) ∧
    (∀ map, c.map? ≠ some map → (empty.run (before ++ [c])).entries map =
      (empty.run before).entries map) ∧
    ((∀ map key value, c ≠ .put map key value) →
      (empty.run (before ++ [c])).mapNames = (empty.run before).mapNames) := by
  have hheld : (empty.run before).get = Flat.ofCalls before := get_run empty before
  have hnamed : ∀ map, map ∈ (empty.run before).mapNames ↔
      ∃ key value, .put map key value ∈ before := fun map => by
    have hnone : map ∉ empty.mapNames := List.not_mem_nil
    rw [mem_mapNames_run]
    simp only [hnone, false_or]
  have hanswers := (empty.run before).answers_call c
  rw [hheld, funext fun map => propext (hnamed map)] at hanswers
  rw [getElem?_replies, run_concat]
  refine ⟨⟨_, rfl⟩, fun reply => ?_, fun map key value => ?_, fun map hmap => entries_call _ hmap,
    mapNames_call _⟩
  · constructor
    · intro hreply
      rwa [← Option.some.inj hreply]
    · intro hreply
      rw [hanswers.unique hreply]
  · rw [Flat.ofCalls, Flat.foldl_after_eq_some_iff]
    simp

/-- A map that has been emptied keeps its name. -/
example :
    empty.replies [.put "a" ⟨"k"⟩ [1], .put "a" ⟨"k"⟩ [2], .clear "a", .entries "a", .mapNames] =
    [.held none, .held (some [1]), .count 1, .entries [], .names ["a"]] := by decide

end ClusterMap.Store
