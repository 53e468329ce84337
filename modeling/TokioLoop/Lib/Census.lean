import Mathlib.Data.Set.Card
import Mathlib.Logic.Function.Basic

/-! The members of a family that are in a given phase, and their number. One member
changes its phase at a time. -/
namespace Census

variable {ι β : Type*} {f : ι → β} {p : β → Prop} {i : ι} {b : β}

/-- The members in phase `p`. -/
def within (f : ι → β) (p : β → Prop) : Set ι := {i | p (f i)}

theorem mem_within : i ∈ within f p ↔ p (f i) := Iff.rfl

variable [DecidableEq ι]

theorem within_enter (h : p b) : within (Function.update f i b) p = insert i (within f p) := by
  ext j
  rw [Set.mem_insert_iff, mem_within, mem_within, Function.update_apply]
  by_cases same : j = i
  · simp [same, h]
  · simp [same]

theorem within_leave (h : ¬ p b) : within (Function.update f i b) p = within f p \ {i} := by
  ext j
  rw [Set.mem_sdiff, Set.mem_singleton_iff, mem_within, mem_within, Function.update_apply]
  by_cases same : j = i
  · simp [same, h]
  · simp [same]

/-- A member that changes, but neither into the phase nor out of it. -/
theorem within_same (h : p b ↔ p (f i)) : within (Function.update f i b) p = within f p := by
  ext j
  rw [mem_within, mem_within, Function.update_apply]
  by_cases same : j = i
  · rw [if_pos same, same, h]
  · rw [if_neg same]

theorem ncard_enter (finite : (within f p).Finite) (out : ¬ p (f i)) (h : p b) :
    (within (Function.update f i b) p).ncard = (within f p).ncard + 1 := by
  rw [within_enter h]
  exact Set.ncard_insert_of_notMem out finite

theorem ncard_leave (finite : (within f p).Finite) (there : p (f i)) (h : ¬ p b) :
    (within (Function.update f i b) p).ncard + 1 = (within f p).ncard := by
  rw [within_leave h]
  exact Set.ncard_sdiff_singleton_add_one there finite

theorem finite_enter (finite : (within f p).Finite)
    (h : p b) : (within (Function.update f i b) p).Finite := by
  rw [within_enter h]
  exact finite.insert i

theorem finite_leave (finite : (within f p).Finite)
    (h : ¬ p b) : (within (Function.update f i b) p).Finite := by
  rw [within_leave h]
  exact finite.sdiff

end Census
