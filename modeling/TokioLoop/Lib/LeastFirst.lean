import Mathlib.Data.List.MinMax
import Mathlib.Data.List.Perm.Basic

/-! A priority queue as a list in no order. The index names the element taken, which must
be one of the least; a binary heap takes some such element. -/
namespace LeastFirst

variable {α κ : Type*} {queue : List α} {index : Nat} {first : α}

/-- The element at `index`, if no other one has a smaller key. -/
def least [LE κ] [DecidableLE κ] (key : α → κ) (queue : List α) (index : Nat) : Option α :=
  queue[index]?.filter fun a => queue.all fun b => decide (key a ≤ key b)

theorem least_le [LE κ] [DecidableLE κ] (key : α → κ) (h : least key queue index = some first) :
    ∀ a ∈ queue, key first ≤ key a := by
  have all := (Option.filter_eq_some_iff.mp h).2
  simpa using all

/-- Nothing else is lost. -/
theorem least_perm [LE κ] [DecidableLE κ] (key : α → κ) (h : least key queue index = some first) :
    (first :: queue.eraseIdx index).Perm queue := by
  obtain ⟨inside, rfl⟩ := List.getElem?_eq_some_iff.mp (Option.filter_eq_some_iff.mp h).1
  exact List.getElem_cons_eraseIdx_perm inside

/-- Something can be taken from a queue that is not empty. -/
theorem exists_least [LinearOrder κ] (key : α → κ) (some_left : queue ≠ []) :
    ∃ index first, least key queue index = some first := by
  cases hmin : queue.argmin key with
  | none => exact absurd (List.argmin_eq_none.mp hmin) some_left
  | some first =>
      obtain ⟨index, inside, hget⟩ := List.getElem_of_mem (List.argmin_mem hmin)
      refine ⟨index, first, Option.filter_eq_some_iff.mpr
        ⟨List.getElem?_eq_some_iff.mpr ⟨inside, hget⟩, ?_⟩⟩
      simp only [List.all_eq_true, decide_eq_true_eq]
      intro a ha
      exact List.le_of_mem_argmin ha hmin

end LeastFirst
