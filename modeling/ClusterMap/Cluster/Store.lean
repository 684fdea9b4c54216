import ClusterMap.Bytes
import ClusterMap.Key.Basic
import ClusterMap.Table

/-!
# The entry store

The entries of every map: a table of bytes under keys for each name of a map. A map comes into being
with its first entry and keeps its name when it loses the last one. Main statements: `get_put`,
`get_remove`, `get_clear` (one equation per operation), `mem_mapNames_put`, `mapNames_remove`,
`mapNames_clear` (only storing gives a map its name).
-/

namespace ClusterMap

/-- Whether entries stand in strictly ascending order of their keys. -/
def InKeyOrder {α : Type} (l : List (Key × α)) : Prop := l.Pairwise fun e f => e.1.text < f.1.text

/-- The entries of every map. -/
structure Store where
  maps : Table (Table Bytes)
  deriving DecidableEq

namespace Store

/-- The store without maps. -/
def empty : Store := ⟨∅⟩

instance : Inhabited Store := ⟨empty⟩

/-- The entries of a map; none of a map that does not exist. -/
def entriesOf (s : Store) (map : String) : Table Bytes := (s.maps.get? map).getD ∅

/-- The bytes under a key of a map. -/
def get (s : Store) (map : String) (key : Key) : Option Bytes := (s.entriesOf map).get? key.text

/-- Stores bytes under a key. Also gives the bytes that were there. -/
def put (s : Store) (map : String) (key : Key) (value : Bytes) : Option Bytes × Store :=
  (s.get map key, ⟨s.maps.insert map ((s.entriesOf map).insert key.text value)⟩)

/-- Drops what is under a key. Also gives the bytes that were there. -/
def remove (s : Store) (map : String) (key : Key) : Option Bytes × Store :=
  match s.maps.get? map with
  | some entries => (entries.get? key.text, ⟨s.maps.insert map (entries.erase key.text)⟩)
  | none => (none, s)

/-- The number of entries of a map. -/
def size (s : Store) (map : String) : Nat := (s.entriesOf map).size

/-- Whether a map has no entries. -/
def isEmpty (s : Store) (map : String) : Bool := s.size map == 0

/-- Drops every entry of a map. Also gives how many there were. -/
def clear (s : Store) (map : String) : Nat × Store :=
  match s.maps.get? map with
  | some entries => (entries.size, ⟨s.maps.insert map ∅⟩)
  | none => (0, s)

/-- The entries of a map in ascending order of their keys. -/
def entries (s : Store) (map : String) : List (Key × Bytes) :=
  (s.entriesOf map).toList.map fun p => (⟨p.1⟩, p.2)

/-- The names of the maps in ascending order. -/
def mapNames (s : Store) : List String := s.maps.names

/-! ## What the operations do -/

/-- Putting a table in the place of a map concerns no other map. -/
theorem entriesOf_insert (s : Store) (map other : String) (t : Table Bytes) :
    (Store.mk (s.maps.insert map t)).entriesOf other =
      if other = map then t else s.entriesOf other := by
  unfold entriesOf
  rw [Table.get?_insert]
  split <;> rfl

/-- Putting an entry changes one entry of one map. -/
theorem entriesOf_put (s : Store) (map other : String) (key : Key) (value : Bytes) :
    (s.put map key value).2.entriesOf other =
      if other = map then (s.entriesOf map).insert key.text value else s.entriesOf other :=
  s.entriesOf_insert map other _

/-- Removing an entry changes one entry of one map. -/
theorem entriesOf_remove (s : Store) (map other : String) (key : Key) :
    (s.remove map key).2.entriesOf other =
      if other = map then (s.entriesOf map).erase key.text else s.entriesOf other := by
  unfold remove
  split
  · next t ht =>
    have hentries : s.entriesOf map = t := by rw [entriesOf, ht, Option.getD_some]
    rw [entriesOf_insert, hentries]
  · next ht =>
    have hentries : s.entriesOf map = ∅ := by rw [entriesOf, ht, Option.getD_none]
    split
    · next hother => rw [hother, hentries, Table.erase_of_get?_eq_none (Table.get?_empty _)]
    · rfl

/-- Clearing a map empties it and concerns no other map. -/
theorem entriesOf_clear (s : Store) (map other : String) :
    (s.clear map).2.entriesOf other = if other = map then ∅ else s.entriesOf other := by
  unfold clear
  split
  · exact s.entriesOf_insert map other ∅
  · next ht =>
    split
    · next hother => rw [hother, entriesOf, ht, Option.getD_none]
    · rfl

/-- After a put the entry has the new bytes, and every other one what it had. -/
theorem get_put (s : Store) (map other : String) (key key' : Key) (value : Bytes) :
    (s.put map key value).2.get other key' =
      if other = map ∧ key' = key then some value else s.get other key' := by
  have hkey : key'.text = key.text ↔ key' = key := by cases key; cases key'; simp
  simp only [put, get, entriesOf_insert]
  by_cases h : other = map
  · subst h
    simp only [if_true, Table.get?_insert, hkey, true_and]
  · simp [h]

/-- Removing answers with what was held. -/
theorem remove_fst (s : Store) (map : String) (key : Key) :
    (s.remove map key).1 = s.get map key := by
  unfold remove get entriesOf
  split <;> simp_all

/-- After a removal the entry is gone, and every other one has what it had. -/
theorem get_remove (s : Store) (map other : String) (key key' : Key) :
    (s.remove map key).2.get other key' =
      if other = map ∧ key' = key then none else s.get other key' := by
  have hkey : key'.text = key.text ↔ key' = key := by cases key; cases key'; simp
  unfold remove
  split
  · next t ht =>
    simp only [get, entriesOf_insert]
    by_cases h : other = map
    · subst h
      simp only [if_true, Table.get?_erase, hkey, true_and, entriesOf, ht, Option.getD_some]
    · simp [h]
  · next ht =>
    by_cases h : other = map ∧ key' = key
    · rw [if_pos h, h.1]
      simp [get, entriesOf, ht]
    · rw [if_neg h]

/-- Clearing answers with the number of entries that were held. -/
theorem clear_fst (s : Store) (map : String) : (s.clear map).1 = s.size map := by
  unfold clear size entriesOf
  split <;> simp_all

/-- After clearing a map has no entry, and every other map what it had. -/
theorem get_clear (s : Store) (map other : String) (key : Key) :
    (s.clear map).2.get other key = if other = map then none else s.get other key := by
  unfold clear
  split
  · next t ht =>
    simp only [get, entriesOf_insert]
    split <;> simp
  · next ht =>
    split
    · next h => subst h; simp [get, entriesOf, ht]
    · rfl

/-- The entries of a map are the keys with the bytes that are held under them. -/
theorem mem_entries_iff {s : Store} {map : String} {key : Key} {value : Bytes} :
    (key, value) ∈ s.entries map ↔ s.get map key = some value := by
  unfold get
  rw [← Table.mem_toList_iff, entries, List.mem_map]
  constructor
  · rintro ⟨p, hp, e⟩
    cases e
    exact hp
  · exact fun h => ⟨_, h, rfl⟩

/-- Storing names a map. -/
theorem mem_mapNames_put {s : Store} {map other : String} {key : Key} {value : Bytes} :
    other ∈ (s.put map key value).2.mapNames ↔ other = map ∨ other ∈ s.mapNames := by
  simp only [mapNames, put, Table.mem_names_iff, Table.get?_insert]
  split <;> simp_all

/-- Replacing the entries of a named map leaves the names as they are. -/
private theorem names_insert_of_get? {s : Store} {map : String} {t u : Table Bytes}
    (h : s.maps.get? map = some t) : (s.maps.insert map u).names = s.maps.names := by
  refine Table.names_eq_of_mem_iff fun other => ?_
  simp only [Table.mem_names_iff, Table.get?_insert]
  split <;> simp_all

/-- A map keeps its name when an entry is removed, be it the last one. -/
theorem mapNames_remove (s : Store) (map : String) (key : Key) :
    (s.remove map key).2.mapNames = s.mapNames := by
  unfold remove
  split
  · next h => exact names_insert_of_get? h
  · rfl

/-- A map keeps its name when it is cleared. -/
theorem mapNames_clear (s : Store) (map : String) : (s.clear map).2.mapNames = s.mapNames := by
  unfold clear
  split
  · next h => exact names_insert_of_get? h
  · rfl

/-- The entries of a map are listed in strictly ascending order of their keys. -/
theorem inKeyOrder_entries (s : Store) (map : String) : InKeyOrder (s.entries map) :=
  List.pairwise_map.2 (s.entriesOf map).ascending

/-- A map lists as many entries as it counts. -/
theorem length_entries (s : Store) (map : String) : (s.entries map).length = s.size map := by
  simp [entries, size, Table.size]

end Store

end ClusterMap
