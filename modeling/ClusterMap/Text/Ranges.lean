/-!
# Ranges of code points

A property of characters as a list of closed ranges in ascending order, with the search that stops
at the first range beyond the code point. Main statement: `covers_eq_true_iff`, the search finds
exactly the members of an ascending list.
-/

namespace ClusterMap.Text

/-- Closed ranges, each with its first and last code point. -/
abbrev Ranges := List (Nat × Nat)

namespace Ranges

/-- Whether a code point lies in one of the ranges; gives up at the first range that starts beyond
it. -/
def covers : Ranges → Nat → Bool
  | [], _ => false
  | (low, high) :: rest, n => if n < low then false else n ≤ high || covers rest n

/-- Whether no range is empty and each starts beyond the end of the one before, the first not before
`start`. -/
def ascendingFrom (start : Nat) : Ranges → Bool
  | [] => true
  | (low, high) :: rest => start ≤ low && low ≤ high && ascendingFrom (high + 1) rest

/-- Nothing of a list that ascends from `start` lies before it. -/
theorem start_le_of_mem {rs : Ranges} {start : Nat} (h : ascendingFrom start rs = true) :
    ∀ r ∈ rs, start ≤ r.1 ∧ r.1 ≤ r.2 := by
  induction rs generalizing start with
  | nil => simp
  | cons r rest ih =>
    simp only [ascendingFrom, Bool.and_eq_true, decide_eq_true_eq] at h
    intro s hs
    rcases List.mem_cons.1 hs with rfl | hs
    · exact h.1
    · have := ih h.2 s hs
      exact ⟨by omega, this.2⟩

/-- On ascending ranges the search finds exactly the members. -/
theorem covers_eq_true_iff {rs : Ranges} {start : Nat}
    (h : ascendingFrom start rs = true) (n : Nat) :
    covers rs n = true ↔ ∃ r ∈ rs, r.1 ≤ n ∧ n ≤ r.2 := by
  induction rs generalizing start with
  | nil => simp [covers]
  | cons r rest ih =>
    obtain ⟨low, high⟩ := r
    simp only [ascendingFrom, Bool.and_eq_true, decide_eq_true_eq] at h
    have hlater := start_le_of_mem h.2
    have hrest := ih h.2
    by_cases hn : n < low
    · simp only [covers, hn, if_true, Bool.false_eq_true, false_iff]
      rintro ⟨s, hs, hl, -⟩
      rcases List.mem_cons.1 hs with rfl | hs
      · exact absurd hl (Nat.not_le.2 hn)
      · have := hlater s hs; omega
    · simp only [covers, hn, if_false, Bool.or_eq_true, decide_eq_true_eq, hrest, List.mem_cons,
        exists_eq_or_imp]
      constructor
      · rintro (hh | hh)
        · exact .inl ⟨by omega, hh⟩
        · exact .inr hh
      · rintro (hh | hh)
        · exact .inl hh.2
        · exact .inr hh

end Ranges

end ClusterMap.Text
