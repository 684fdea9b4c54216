/-!
# Tables

Finite maps from names to values, kept as the list of their entries with the names in strictly
ascending order (by code point). The order is part of the type, so a table has one form only. Main
statements: `get?_insert`, `get?_erase`, `get?_map` (one equation per operation), `mem_toList_iff`,
`ext_get?` (a table is what its look-ups answer).
-/

namespace ClusterMap

variable {α : Type}

/-! ## Lists of entries -/

namespace Entries

/-- The names stand in strictly ascending order. -/
def Ascending (l : List (String × α)) : Prop := l.Pairwise fun p q => p.1 < q.1

/-- Puts an entry at its place, replacing one of the same name. -/
def insert (name : String) (a : α) : List (String × α) → List (String × α)
  | [] => [(name, a)]
  | (other, b) :: rest =>
    if name < other then (name, a) :: (other, b) :: rest
    else if name = other then (name, a) :: rest
    else (other, b) :: insert name a rest

/-- Drops the entry of a name. -/
def erase (name : String) (l : List (String × α)) : List (String × α) :=
  l.filter fun p => p.1 ≠ name

theorem mem_insert {name : String} {a : α} {p : String × α} {l : List (String × α)}
    (h : p ∈ insert name a l) : p = (name, a) ∨ p ∈ l := by
  induction l with
  | nil => exact .inl (by simpa [insert] using h)
  | cons q rest ih =>
    obtain ⟨other, b⟩ := q
    unfold insert at h
    split at h
    · exact (List.mem_cons.1 h).imp id id
    · split at h
      · exact (List.mem_cons.1 h).imp id (List.mem_cons_of_mem _)
      · rcases List.mem_cons.1 h with h | h
        · exact .inr (h ▸ List.mem_cons_self)
        · exact (ih h).imp id (List.mem_cons_of_mem _)

theorem ascending_insert (name : String) (a : α) {l : List (String × α)} (h : Ascending l) :
    Ascending (insert name a l) := by
  induction l with
  | nil => exact List.pairwise_singleton _ _
  | cons q rest ih =>
    obtain ⟨other, b⟩ := q
    obtain ⟨hhead, hrest⟩ := List.pairwise_cons.1 h
    unfold insert
    split
    · next hlt =>
      refine List.pairwise_cons.2 ⟨fun p hp => ?_, h⟩
      rcases List.mem_cons.1 hp with rfl | hp
      · exact hlt
      · exact String.lt_trans hlt (hhead p hp)
    · split
      · next heq => exact List.pairwise_cons.2 ⟨fun p hp => heq ▸ hhead p hp, hrest⟩
      · next hlt hne =>
        refine List.pairwise_cons.2 ⟨fun p hp => ?_, ih hrest⟩
        rcases mem_insert hp with rfl | hp
        · rcases Std.lt_trichotomy name other with h | h | h
          · exact absurd h hlt
          · exact absurd h hne
          · exact h
        · exact hhead p hp

theorem ascending_erase (name : String) {l : List (String × α)} (h : Ascending l) :
    Ascending (erase name l) := h.filter _

theorem lookup_cons (name key : String) (b : α) (rest : List (String × α)) :
    ((key, b) :: rest).lookup name = if name = key then some b else rest.lookup name := by
  rw [List.lookup_cons]
  by_cases h : name = key
  · simp [h]
  · rw [beq_eq_false_iff_ne.2 h, if_neg h]

theorem lookup_insert (name other : String) (a : α) (l : List (String × α)) :
    (insert name a l).lookup other = if other = name then some a else l.lookup other := by
  induction l with
  | nil => simp [insert, lookup_cons]
  | cons q rest ih =>
    obtain ⟨key, b⟩ := q
    unfold insert
    split
    · rw [lookup_cons]
    · split
      · next hkey => subst hkey; simp only [lookup_cons]; split <;> simp_all
      · next hkey =>
        simp only [lookup_cons, ih]
        by_cases hother : other = key
        · subst hother
          rw [if_pos rfl, if_pos rfl, if_neg (Ne.symm hkey)]
        · rw [if_neg hother, if_neg hother]

theorem lookup_erase (name other : String) (l : List (String × α)) :
    (erase name l).lookup other = if other = name then none else l.lookup other := by
  induction l with
  | nil => simp [erase]
  | cons q rest ih =>
    obtain ⟨key, b⟩ := q
    by_cases hk : key = name
    · have : erase name ((key, b) :: rest) = erase name rest := by simp [erase, hk]
      rw [this, ih, lookup_cons]; split <;> simp_all
    · have : erase name ((key, b) :: rest) = (key, b) :: erase name rest := by simp [erase, hk]
      rw [this, lookup_cons, ih, lookup_cons]; split <;> simp_all

theorem mem_of_lookup {l : List (String × α)} {name : String} {a : α} (h : l.lookup name = some a) :
    (name, a) ∈ l := by
  induction l with
  | nil => contradiction
  | cons q rest ih =>
    obtain ⟨key, b⟩ := q
    rw [lookup_cons] at h
    split at h
    · next hk => cases h; cases hk; exact List.mem_cons_self
    · exact List.mem_cons_of_mem _ (ih h)

theorem ne_of_lookup_eq_none {l : List (String × α)} {name : String} (h : l.lookup name = none)
    {p : String × α} (hp : p ∈ l) : p.1 ≠ name := by
  induction l with
  | nil => exact absurd hp List.not_mem_nil
  | cons q rest ih =>
    obtain ⟨key, b⟩ := q
    rw [lookup_cons] at h
    split at h
    · contradiction
    · next hk =>
      rcases List.mem_cons.1 hp with rfl | hp
      · exact fun e => hk e.symm
      · exact ih h hp

/-- In an ascending list the look-up answers exactly the entries. -/
theorem lookup_eq_some_iff {l : List (String × α)} (h : Ascending l) {name : String} {a : α} :
    l.lookup name = some a ↔ (name, a) ∈ l := by
  induction l with
  | nil => simp
  | cons q rest ih =>
    obtain ⟨key, b⟩ := q
    obtain ⟨hhead, hrest⟩ := List.pairwise_cons.1 h
    rw [lookup_cons, List.mem_cons, Prod.mk.injEq]
    by_cases hk : name = key
    · have hnot : (key, a) ∉ rest := fun hm => String.lt_irrefl key (hhead (key, a) hm)
      simp [hnot, hk, eq_comm]
    · simp [ih hrest, hk]

end Entries

/-! ## Tables -/

/-- A finite map from names to values. -/
structure Table (α : Type) where
  /-- The entries in order. -/
  toList : List (String × α)
  ascending : Entries.Ascending toList

namespace Table

instance : EmptyCollection (Table α) := ⟨⟨[], List.Pairwise.nil⟩⟩

instance : Inhabited (Table α) := ⟨∅⟩

/-- The value under a name. -/
def get? (t : Table α) (name : String) : Option α := t.toList.lookup name

/-- Adds an entry, replacing one of the same name. -/
def insert (t : Table α) (name : String) (a : α) : Table α :=
  ⟨Entries.insert name a t.toList, Entries.ascending_insert name a t.ascending⟩

/-- Drops the entry of a name. -/
def erase (t : Table α) (name : String) : Table α :=
  ⟨Entries.erase name t.toList, Entries.ascending_erase name t.ascending⟩

/-- The number of entries. -/
def size (t : Table α) : Nat := t.toList.length

/-- The names in ascending order. -/
def names (t : Table α) : List String := t.toList.map Prod.fst

/-- The table of a list of entries; the last of several with one name counts. -/
def ofList (l : List (String × α)) : Table α := l.foldl (fun t p => t.insert p.1 p.2) ∅

@[simp] theorem toList_empty : (∅ : Table α).toList = [] := rfl

@[simp] theorem get?_empty (name : String) : (∅ : Table α).get? name = none := rfl

@[simp] theorem size_empty : (∅ : Table α).size = 0 := rfl

theorem get?_insert (t : Table α) (name other : String) (a : α) :
    (t.insert name a).get? other = if other = name then some a else t.get? other :=
  Entries.lookup_insert name other a t.toList

theorem get?_erase (t : Table α) (name other : String) :
    (t.erase name).get? other = if other = name then none else t.get? other :=
  Entries.lookup_erase name other t.toList

theorem mem_toList_iff {t : Table α} {name : String} {a : α} :
    (name, a) ∈ t.toList ↔ t.get? name = some a :=
  (Entries.lookup_eq_some_iff t.ascending).symm

theorem mem_names_iff {t : Table α} {name : String} :
    name ∈ t.names ↔ (t.get? name).isSome = true := by
  rw [Option.isSome_iff_exists, names, List.mem_map]
  constructor
  · rintro ⟨p, hp, rfl⟩
    exact ⟨p.2, mem_toList_iff.1 hp⟩
  · rintro ⟨a, ha⟩
    exact ⟨(name, a), mem_toList_iff.2 ha, rfl⟩

theorem names_ascending (t : Table α) : t.names.Pairwise (· < ·) :=
  List.pairwise_map.2 t.ascending

/-- Lists in strictly ascending order with the same members are equal. -/
theorem eq_of_mem_iff {β : Type} (key : β → String) {l m : List β}
    (hl : l.Pairwise fun p q => key p < key q) (hm : m.Pairwise fun p q => key p < key q)
    (h : ∀ p, p ∈ l ↔ p ∈ m) : l = m := by
  induction l generalizing m with
  | nil =>
    cases m with
    | nil => rfl
    | cons q _ => exact absurd ((h q).2 List.mem_cons_self) List.not_mem_nil
  | cons p l ih =>
    cases m with
    | nil => exact absurd ((h p).1 List.mem_cons_self) List.not_mem_nil
    | cons q m =>
      obtain ⟨hp, hl'⟩ := List.pairwise_cons.1 hl
      obtain ⟨hq, hm'⟩ := List.pairwise_cons.1 hm
      have hpq : p = q := by
        rcases List.mem_cons.1 ((h p).1 List.mem_cons_self) with e | hpm
        · exact e
        · rcases List.mem_cons.1 ((h q).2 List.mem_cons_self) with e | hql
          · exact e.symm
          · exact absurd (hq p hpm) (String.lt_asymm (hp q hql))
      subst hpq
      have hrest : ∀ r, r ∈ l ↔ r ∈ m := fun r => by
        constructor
        · intro hr
          rcases List.mem_cons.1 ((h r).1 (List.mem_cons_of_mem p hr)) with e | hr'
          · exact absurd (e ▸ hp r hr) (String.lt_irrefl _)
          · exact hr'
        · intro hr
          rcases List.mem_cons.1 ((h r).2 (List.mem_cons_of_mem p hr)) with e | hr'
          · exact absurd (e ▸ hq r hr) (String.lt_irrefl _)
          · exact hr'
      exact congrArg _ (ih hl' hm' hrest)

/-- Tables with the same names list them alike. -/
theorem names_eq_of_mem_iff {β : Type} {t : Table α} {u : Table β}
    (h : ∀ name, name ∈ t.names ↔ name ∈ u.names) : t.names = u.names :=
  eq_of_mem_iff id t.names_ascending u.names_ascending h

theorem eq_of_toList_eq {t u : Table α} (h : t.toList = u.toList) : t = u := by
  cases t; cases u; cases h; rfl

/-- A table is what its look-ups answer. -/
theorem ext_get? {t u : Table α} (h : ∀ name, t.get? name = u.get? name) : t = u :=
  eq_of_toList_eq (eq_of_mem_iff Prod.fst t.ascending u.ascending fun p => by
    rw [show p = (p.1, p.2) from rfl, mem_toList_iff, mem_toList_iff, h p.1])

theorem mem_of_mem_insert {t : Table α} {name : String} {a : α} {p : String × α}
    (h : p ∈ (t.insert name a).toList) : p = (name, a) ∨ p ∈ t.toList := Entries.mem_insert h

/-- A table made of a list holds nothing but entries of the list. -/
theorem mem_of_mem_ofList {l : List (String × α)} {p : String × α} (h : p ∈ (ofList l).toList) :
    p ∈ l := by
  have general : ∀ (l : List (String × α)) (t : Table α),
      p ∈ (l.foldl (fun t p => t.insert p.1 p.2) t).toList → p ∈ l ∨ p ∈ t.toList := by
    intro l
    induction l with
    | nil => exact fun t h => .inr h
    | cons q l ih =>
      intro t h
      rcases ih _ h with h | h
      · exact .inl (List.mem_cons_of_mem q h)
      · rcases mem_of_mem_insert h with rfl | h
        · exact .inl List.mem_cons_self
        · exact .inr h
  exact (general l ∅ h).resolve_right List.not_mem_nil

/-- The last entry of a name is the one that counts. -/
theorem get?_ofList (l : List (String × α)) (name : String) :
    (ofList l).get? name = l.reverse.lookup name := by
  have general : ∀ (l : List (String × α)) (t : Table α),
      (l.foldl (fun t p => t.insert p.1 p.2) t).get? name =
        (l.reverse.lookup name).or (t.get? name) := by
    intro l
    induction l with
    | nil => simp
    | cons q l ih =>
      intro t
      rw [List.foldl_cons, ih, get?_insert, List.reverse_cons, List.lookup_append,
        Entries.lookup_cons]
      cases l.reverse.lookup name with
      | some a => rfl
      | none => by_cases h : name = q.1 <;> simp [h]
  simpa [ofList] using general l ∅

/-- An ascending list is the list of entries of its table. -/
theorem toList_ofList {l : List (String × α)} (h : Entries.Ascending l) :
    (ofList l).toList = l := by
  have heq : ofList l = ⟨l, h⟩ := ext_get? fun name => by
    rw [get?_ofList]
    apply Option.ext
    intro a
    show _ ↔ l.lookup name = some a
    rw [Entries.lookup_eq_some_iff h]
    constructor
    · exact fun hl => List.mem_reverse.1 (Entries.mem_of_lookup hl)
    · intro hm
      cases hl : l.reverse.lookup name with
      | none => exact absurd rfl (Entries.ne_of_lookup_eq_none hl (List.mem_reverse.2 hm))
      | some b =>
        have hb := List.mem_reverse.1 (Entries.mem_of_lookup hl)
        have hfound := (Entries.lookup_eq_some_iff h).2 hb
        have hfound' := (Entries.lookup_eq_some_iff h).2 hm
        rw [Option.some.injEq]
        exact Option.some.inj (hfound.symm.trans hfound')
  rw [heq]

/-! ## Tables of other values -/

section Map

variable {β : Type} (f : α → β)

/-- The table with something made of every value. -/
def map (t : Table α) : Table β where
  toList := t.toList.map fun p => (p.1, f p.2)
  ascending := by
    rw [Entries.Ascending, List.pairwise_map]
    exact t.ascending

theorem get?_map (t : Table α) (name : String) : (t.map f).get? name = (t.get? name).map f := by
  have general : ∀ l : List (String × α),
      (l.map fun p => (p.1, f p.2)).lookup name = (l.lookup name).map f := fun l => by
    induction l with
    | nil => rfl
    | cons p l ih =>
      rw [List.map_cons, Entries.lookup_cons, ih, Entries.lookup_cons]
      split <;> rfl
  exact general t.toList

theorem size_map (t : Table α) : (t.map f).size = t.size := List.length_map _

theorem map_insert (t : Table α) (name : String) (a : α) :
    (t.insert name a).map f = (t.map f).insert name (f a) := ext_get? fun other => by
  rw [get?_map, get?_insert, get?_insert, get?_map]
  split <;> rfl

theorem map_erase (t : Table α) (name : String) : (t.erase name).map f = (t.map f).erase name :=
  ext_get? fun other => by
    rw [get?_map, get?_erase, get?_erase, get?_map]
    split <;> rfl

end Map

theorem erase_of_get?_eq_none {t : Table α} {name : String} (h : t.get? name = none) :
    t.erase name = t :=
  ext_get? fun other => by
    rw [get?_erase]
    split
    · next hother => rw [hother, h]
    · rfl

instance [DecidableEq α] : DecidableEq (Table α) := fun t u =>
  if h : t.toList = u.toList then .isTrue (eq_of_toList_eq h)
  else .isFalse fun e => h (e ▸ rfl)

end Table

end ClusterMap
