/-!
# Letter case

Comparison of texts in which only the ASCII letters have a case; every other character equals itself
alone.
-/

namespace ClusterMap.Text

/-- Whether two texts are the same up to the case of ASCII letters. -/
def sameIgnoringCase (s t : String) : Bool :=
  s.toList.map Char.toLower == t.toList.map Char.toLower

@[simp] theorem sameIgnoringCase_self (s : String) : sameIgnoringCase s s = true := by
  simp [sameIgnoringCase]

theorem sameIgnoringCase_comm (s t : String) : sameIgnoringCase s t = sameIgnoringCase t s := by
  exact BEq.comm

theorem sameIgnoringCase_trans {s t u : String} (hst : sameIgnoringCase s t = true)
    (htu : sameIgnoringCase t u = true) : sameIgnoringCase s u = true := by
  simp only [sameIgnoringCase, beq_iff_eq] at *
  exact hst.trans htu

end ClusterMap.Text
