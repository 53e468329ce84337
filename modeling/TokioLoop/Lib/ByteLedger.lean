import Mathlib.Data.List.Basic

/-! Conservation of an ordered stream through a queue of chunks. `total` is
everything handed in, `sent` what has left, `queue` the chunks still held. -/
namespace ByteLedger

variable {α : Type*} {total sent chunk : List α} {queue : List (List α)}

/-- What has left followed by what is held is exactly what was handed in. -/
def Conserved (total sent : List α) (queue : List (List α)) : Prop :=
  sent ++ queue.flatten = total

theorem Conserved.push (h : Conserved total sent queue) (chunk : List α) :
    Conserved (total ++ chunk) sent (queue ++ [chunk]) := by
  unfold Conserved at h ⊢
  rw [← h, List.flatten_append, List.flatten_singleton, List.append_assoc]

/-- The front chunk leaves in part; its remainder stays at the front. -/
theorem Conserved.advance (h : Conserved total sent (chunk :: queue)) (n : Nat) :
    Conserved total (sent ++ chunk.take n) (chunk.drop n :: queue) := by
  unfold Conserved at h ⊢
  rw [← h, List.flatten_cons, List.flatten_cons, List.append_assoc,
    ← List.append_assoc (chunk.take n), List.take_append_drop]

theorem Conserved.pop (h : Conserved total sent (chunk :: queue)) :
    Conserved total (sent ++ chunk) queue := by
  unfold Conserved at h ⊢
  rw [← h, List.flatten_cons, List.append_assoc]

/-- A chunk handed in while nothing is held may leave in part at once. -/
theorem Conserved.direct (h : Conserved total sent []) (chunk : List α) (n : Nat) :
    Conserved (total ++ chunk) (sent ++ chunk.take n) [chunk.drop n] :=
  (h.push chunk).advance n

/-- Number of elements held. -/
def held (queue : List (List α)) : Nat := queue.flatten.length

@[simp] theorem held_nil : held ([] : List (List α)) = 0 := rfl

@[simp] theorem held_cons : held (chunk :: queue) = chunk.length + held queue := by
  simp [held]

@[simp] theorem held_append (queue more : List (List α)) :
    held (queue ++ more) = held queue + held more := by
  simp [held]

theorem length_flatten_eq_held : queue.flatten.length = held queue := rfl

/-- With no empty chunk, nothing is held exactly when the queue is empty. -/
theorem held_eq_zero_iff (h : ∀ chunk ∈ queue, chunk ≠ []) : held queue = 0 ↔ queue = [] := by
  cases queue with
  | nil => simp
  | cons chunk queue =>
      have hne := List.length_pos_of_ne_nil (h chunk (by simp))
      simp only [held_cons, reduceCtorEq, iff_false]
      omega

variable {β : Type*} {taken offered : β → List α} {breaks : β → Prop} {x : β} {items : List β}

/-- Nothing is taken behind a piece that breaks the stream. -/
def Unbroken (breaks : β → Prop) (taken : β → List α) (items : List β) : Prop :=
  ∀ before x after, items = before ++ x :: after → breaks x → after.flatMap taken = []

theorem unbroken_of_whole (whole : ∀ x ∈ items, ¬ breaks x) : Unbroken breaks taken items := by
  intro before x after split broken
  exact absurd broken (whole x (split ▸ List.mem_append_right before List.mem_cons_self))

theorem Unbroken.tail (h : Unbroken breaks taken (x :: items)) : Unbroken breaks taken items := by
  intro before y after split
  exact h (x :: before) y after (by rw [split]; rfl)

theorem Unbroken.head (h : Unbroken breaks taken (x :: items)) (broken : breaks x) :
    items.flatMap taken = [] :=
  h [] x items rfl broken

/-- What is taken of the pieces in front of a break is what they offer. -/
theorem Unbroken.taken_prefix (h : Unbroken (fun x => taken x ≠ offered x) taken items)
    (part : ∀ x ∈ items, taken x <+: offered x) : items.flatMap taken <+:
    items.flatMap offered := by
  induction items with
  | nil => exact List.nil_prefix
  | cons x items ih =>
      obtain ⟨first, rest⟩ := List.forall_mem_cons.mp part
      rw [List.flatMap_cons, List.flatMap_cons]
      by_cases same : taken x = offered x
      · rw [same]
        exact (List.prefix_append_right_inj _).mpr (ih h.tail rest)
      · rw [h.head same, List.append_nil]
        exact first.trans (List.prefix_append _ _)

end ByteLedger
