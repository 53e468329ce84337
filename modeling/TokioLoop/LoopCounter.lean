import TokioLoop.Lib.Census
import TokioLoop.LoopWake

/-!
The counter of ready handles. A push and its count are two operations, and so are the
swap of the queue and the subtraction of what it held: the counter may be behind or ahead
of the queue, and below zero, but by a known amount.
-/
namespace TokioLoop.Loop

variable {α : Type}

/-- The threads between their push and its count. -/
def EventLoop.uncounted (s : EventLoop α) : Set Nat :=
  Census.within s.calls fun call => ∃ wakes, call = some (.count wakes)

structure Counted (s : EventLoop α) : Prop where
  finite : s.uncounted.Finite
  lags : s.Lags s.uncounted.ncard

theorem new_counted : Counted (new : EventLoop α) := by
  have none : (new : EventLoop α).uncounted = ∅ := by
    ext thread
    exact iff_of_false (fun ⟨_, h⟩ => by cases h) id
  constructor
  · rw [none]
    exact Set.finite_empty
  · rw [none, Set.ncard_empty]
    rfl

theorem Counted.of_lags {s t : EventLoop α} (counted : Counted s) (calls : t.calls = s.calls)
    (lags : ∀ n, s.Lags n → t.Lags n) : Counted t := by
  have same : t.uncounted = s.uncounted := by
    unfold EventLoop.uncounted
    rw [calls]
  constructor
  · rw [same]
    exact counted.finite
  · rw [same]
    exact lags _ counted.lags

/-- A call that is not at its count goes on to something else than a count. -/
theorem Counted.calls {s : EventLoop α} (counted : Counted s) {thread : Nat} {call : Option Call}
    (before : ∀ wakes, s.calls thread ≠ some (.count wakes))
    (after : ∀ wakes, call ≠ some (.count wakes)) : Counted
    { s with calls := Function.update s.calls thread call } := by
  have same : EventLoop.uncounted { s with calls := Function.update s.calls thread call } =
      s.uncounted :=
    Census.within_same (iff_of_false (fun ⟨wakes, h⟩ => after wakes h) fun ⟨wakes, h⟩ =>
      before wakes h)
  constructor
  · rw [same]
    exact counted.finite
  · rw [same]
    exact counted.lags

theorem callStep_counted {s t : EventLoop α} {a : Action α} (counted : Counted s)
    (h : callStep s a = some t) :
    Counted t := by
  cases callStep_stepped h with
  | push thread how callback free =>
      have out : ¬ ∃ wakes, s.calls thread = some (.count wakes) := by
        rintro ⟨wakes, there⟩
        cases free.symm.trans there
      constructor
      · exact Census.finite_enter counted.finite ⟨_, rfl⟩
      · unfold EventLoop.uncounted
        rw [Census.ncard_enter counted.finite out ⟨_, rfl⟩]
        exact EventLoop.Lags.pushed counted.lags _
  | count thread wakes there =>
      have out : ¬ ∃ w, (if wakes then some Call.wake else none) = some (.count w) := by
        rintro ⟨w, h⟩
        cases wakes <;> cases h
      constructor
      · exact Census.finite_leave counted.finite out
      · have lags := counted.lags
        unfold EventLoop.uncounted at lags
        rw [← Census.ncard_leave counted.finite ⟨wakes, there⟩ out] at lags
        exact EventLoop.Lags.counted lags
  | wake thread there =>
      have moved : Counted { s with calls := Function.update s.calls thread none } := by
        apply counted.calls
        · intro wakes h
          cases there.symm.trans h
        · intro wakes h
          cases h
      exact moved.of_lags rfl fun _ => id
  | later thread wakes timer free =>
      have moved : Counted { s with
          calls := Function.update s.calls thread (if wakes then some .wake else none) } := by
        apply counted.calls
        · intro w h
          cases free.symm.trans h
        · intro w h
          cases wakes <;> cases h
      exact moved.of_lags rfl fun _ => id
  | cancel | stop => exact counted.of_lags rfl fun _ => id

theorem loopStep_counted {s t : EventLoop α} {a : Action α} (counted : Counted s)
    (h : loopStep s a = some t) :
    Counted t := by
  by_cases single : a.single = true
  · exact counted.of_lags (loopStep_calls single h).1 fun _ => (loopStep_queue single h).lags
  · cases loopStep_stepped h with
    | enterPoll _ _ hpc | pollReturns _ _ _ _ hpc =>
        refine counted.of_lags rfl fun n lags => ?_
        unfold EventLoop.Lags at lags
        rw [hpc] at lags
        exact lags
    | _ => exact absurd rfl single

theorem step_counted {s t : EventLoop α} {a : Action α} (counted : Counted s)
    (h : step s a = some t) :
    Counted t := by
  rcases Option.or_eq_some_iff.mp h with hcall | ⟨_, hloop⟩
  · exact callStep_counted counted hcall
  · exact loopStep_counted counted hloop

/-- In every run the counter is the length of the queue, with what has been swapped out and
not subtracted, without the pushes not counted yet; when there is neither, it is the
length of the queue. -/
theorem counter_accounted (actions : List (Action α)) (s : EventLoop α)
    (h : Runs.run step (new : EventLoop α) actions = some s) :
    s.uncounted.Finite ∧
      s.counterReady = BitVec.ofNat 64 s.handlesReady.length + BitVec.ofNat 64 s.pc.owed -
        BitVec.ofNat 64 s.uncounted.ncard ∧
      (s.uncounted = ∅ → (∀ p batch, s.pc ≠ .swapped p batch) →
        s.counterReady = BitVec.ofNat 64 s.handlesReady.length ∧
          (s.handlesReady.length < 2 ^ 64 → s.counterReady.toNat = s.handlesReady.length)) := by
  obtain ⟨finite, lags⟩ := Runs.run_invariant (fun _ _ _ counted h => step_counted counted h) h
    new_counted
  unfold EventLoop.Lags at lags
  refine ⟨finite, ?_, fun counted taken => ?_⟩
  · rw [BitVec.ofNat_add] at lags
    rw [← lags, BitVec.add_sub_cancel]
  · have owed : s.pc.owed = 0 := by
      unfold Pc.owed
      split
      next p batch hpc => exact absurd hpc (taken p batch)
      · rfl
    rw [counted, Set.ncard_empty, owed, Nat.add_zero] at lags
    have equal : s.counterReady = BitVec.ofNat 64 s.handlesReady.length := by
      rw [← lags]
      exact (BitVec.add_zero _).symm
    refine ⟨equal, fun short => ?_⟩
    rw [equal, BitVec.toNat_ofNat, Nat.mod_eq_of_lt short]

/-- The loop takes a push before it is counted: the counter wraps around, and is zero
again once the push is counted. -/
def overtaken : List (Action Unit) :=
  [.run, .top, .load 0, .peek 0, .enterPoll, .pollReturns .ok 1, .push 7 (.callSoon 0) (), .swap,
    .uncount]

theorem counter_accounted_overtaken :
    (Runs.run step new overtaken).map EventLoop.counterReady = some (BitVec.ofNat 64 (2 ^ 64 - 1)) ∧
      ∃ s, Runs.run step new (overtaken ++ [.count 7]) = some s ∧
        s.counterReady = BitVec.ofNat 64 s.handlesReady.length := by
  refine ⟨rfl, ?_⟩
  obtain ⟨s, h⟩ := Option.isSome_iff_exists.mp
    (rfl : (Runs.run step new (overtaken ++ [.count 7])).isSome = true)
  have calls : some s.calls = some (Function.update
      (Function.update (fun _ => none) 7 (some (.count false))) 7 none) :=
    (congrArg (Option.map EventLoop.calls) h).symm.trans rfl
  have pc : some s.pc = some (.dispatch _ _) :=
    (congrArg (Option.map EventLoop.pc) h).symm.trans rfl
  rw [Option.some.injEq, Function.update_idem, Function.update_eq_self_iff.mpr rfl] at calls
  obtain ⟨-, -, quiet⟩ := counter_accounted (overtaken ++ [.count 7]) s h
  refine ⟨s, h, (quiet ?_ fun p batch => ?_).1⟩
  · unfold EventLoop.uncounted
    rw [calls]
    ext thread
    exact iff_of_false (fun ⟨_, h⟩ => by cases h) id
  · rw [Option.some.inj pc]
    exact fun swapped => by cases swapped

end TokioLoop.Loop
