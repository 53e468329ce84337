import Mathlib.Data.List.Basic

/-! Lists whose members are known by their numbers: a new member gets the next number, and
a member is replaced in its place. -/
namespace Numbered

variable {α : Type*} {l : List α} {x y z : α} {i j : Nat}

theorem look_concat : (l ++ [x])[i]? = some y ↔ l[i]? = some y ∨ i = l.length ∧ x = y := by
  rw [List.getElem?_append]
  split
  · next inside =>
      have other : i ≠ l.length := Nat.ne_of_lt inside
      simp [other]
  · next past =>
      rw [List.getElem?_eq_none (Nat.le_of_not_lt past), List.getElem?_singleton]
      have last : i - l.length = 0 ↔ i = l.length := by omega
      by_cases here : i = l.length
      · simp [here]
      · simp [here, last]

theorem look_set (there : l[i]? = some x) : (l.set i y)[j]? = some z ↔ j = i ∧ y = z ∨ j ≠ i ∧
    l[j]? = some z := by
  rw [List.getElem?_set]
  have inside := (List.getElem?_eq_some_iff.mp there).1
  by_cases same : i = j
  · subst same
    simp [inside]
  · have other : j ≠ i := fun eq => same eq.symm
    simp [same, other]

/-- A member that is not the new one was there before. -/
theorem look_of_set (h : (l.set i y)[j]? = some z) (other : y ≠ z) : j ≠ i ∧ l[j]? = some z := by
  rw [List.getElem?_set] at h
  split at h
  · split at h
    · exact absurd (Option.some.inj h) other
    · cases h
  · next apart => exact ⟨fun eq => apart eq.symm, h⟩

end Numbered
