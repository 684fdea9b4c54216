/-!
# Dotted paths

The field names that a path such as `address.city` lists. Every text is a path: dots at an end or
next to each other stand around empty names. Main statement: `segments_append`, paths joined by a
dot list the names of both.
-/

namespace ClusterMap.Path

/-- The runs between the dots of a text, one more than there are dots. -/
def split : List Char → List (List Char)
  | [] => [[]]
  | c :: rest =>
    if c = '.' then [] :: split rest
    else match split rest with
      | [] => [[c]]
      | run :: runs => (c :: run) :: runs

/-- The field names that a path lists. -/
def segments (path : String) : List String := (split path.toList).map String.ofList

theorem split_ne_nil (cs : List Char) : split cs ≠ [] := by
  cases cs with
  | nil => simp [split]
  | cons c rest =>
    unfold split
    split
    · simp
    · split <;> simp

theorem split_append (p q : List Char) : split (p ++ '.' :: q) = split p ++ split q := by
  induction p with
  | nil => simp [split]
  | cons c rest ih =>
    by_cases hc : c = '.'
    · simp [split, hc, ih]
    · cases h : split rest with
      | nil => exact absurd h (split_ne_nil rest)
      | cons run runs => simp [split, hc, ih, h]

/-- A text without a dot is a single run. -/
theorem split_of_not_mem {cs : List Char} (h : '.' ∉ cs) : split cs = [cs] := by
  induction cs with
  | nil => rfl
  | cons c rest ih =>
    have hc : c ≠ '.' := fun e => h (e ▸ List.mem_cons_self)
    simp [split, hc, ih fun hm => h (List.mem_cons_of_mem c hm)]

theorem segments_append (p q : String) : segments (p ++ "." ++ q) = segments p ++ segments q := by
  have h : (p ++ "." ++ q).toList = p.toList ++ '.' :: q.toList := by
    simp [String.toList_append]
  rw [segments, h, split_append, List.map_append, segments, segments]

theorem segments_of_not_mem {name : String} (h : '.' ∉ name.toList) : segments name = [name] := by
  simp [segments, split_of_not_mem h]

end ClusterMap.Path
