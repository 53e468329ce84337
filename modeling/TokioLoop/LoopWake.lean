import Mathlib.Data.List.Nodup
import TokioLoop.LoopMachine

/-!
The sleeping loop and the threads that push to it. `step` announces its sleep with a
store of `idle` and goes to sleep with a call of `poll`; the machine makes one action of
the two, and one of the return of `poll` with the store that follows it. Here they are
apart, so that the actions of the other threads come between them as well.

A wake before or during a poll makes that poll return: only a poll without a pending
wake is blocked.
-/
namespace TokioLoop.Loop

open Runs

variable {α : Type}

/-- The loop between two stores of `idle`: whether the one before the poll is done, and
what the poll returned when the one after it is still to come. -/
structure Sleeper (α : Type) where
  loop : EventLoop α
  announced : Bool
  returned : Option (PollOutcome × Nat)

inductive SleepAction (α : Type) where
  | base (a : Action α)
  | storeIdle
  | enterPoll
  | pollReturns (result : PollOutcome) (tick : Nat)
  | clearIdle
  deriving DecidableEq, Repr

/-- The actions of the machine that are one atomic operation. -/
def Action.single : Action α → Bool
  | .enterPoll | .pollReturns _ _ => false
  | _ => true

/-- After an interrupted poll a second one, with no timeout, takes a pending wake. -/
def sleepStep (s : Sleeper α) : SleepAction α → Option (Sleeper α)
  | .base a => if a.single then (step s.loop a).map fun loop => { s with loop := loop } else none
  | .storeIdle =>
      match s.loop.pc with
      | .decided _ timeout =>
          if timeout = some 0 ∨ s.announced = true then none
          else some { s with loop := { s.loop with idle := true }, announced := true }
      | _ => none
  | .enterPoll =>
      match s.loop.pc with
      | .decided tickLast timeout =>
          if timeout = some 0 ∨ s.announced = true then
            some { s with loop := { s.loop with pc := .polling tickLast timeout }, announced :=
                false }
          else none
      | _ => none
  | .pollReturns result tick =>
      match s.loop.pc, s.returned with
      | .polling _ _, none =>
          some { s with loop := { s.loop with wakerPending := false }, returned := some (result,
            tick) }
      | _, _ => none
  | .clearIdle =>
      match s.loop.pc, s.returned with
      | .polling _ timeout, some (result, tick) =>
          some { s with
            loop := { s.loop with
              idle := if timeout = some 0 then s.loop.idle else false
              wakerPending := if result = .interrupted then false else s.loop.wakerPending
              pc := .polled ⟨tick, false, result⟩ }
            returned := none }
      | _, _ => none

def asleep : Sleeper α := ⟨new, false, none⟩

/-- The entry points other threads use: pushes that end with a call of `wake`. Timers
are set without one. -/
def Threadsafe : SleepAction α → Prop
  | .base (.push _ how _) => how.wakes = true
  | .base (.later _ wakes _) => wakes = false
  | _ => True

/-- The loop is in a poll that only an event or its timeout ends, although there is work
in the queue and no call in progress that could still wake it. -/
def Stuck (s : Sleeper α) : Prop :=
  (∃ tickLast timeout, s.loop.pc = .polling tickLast timeout ∧ timeout ≠ some 0) ∧
      s.returned = none ∧
    s.loop.wakerPending = false ∧ s.loop.handlesReady ≠ [] ∧ ∀ thread, s.loop.calls thread = none

/-- From the load of a zero counter to the end of a poll that waits. -/
def Pc.waits : Pc α → Prop
  | .noneReady _ => True
  | .decided _ timeout | .polling _ timeout => timeout ≠ some 0
  | _ => False

/-- The loop has seen a zero counter and not announced its sleep. -/
def Sleeper.unannounced (s : Sleeper α) : Prop :=
  match s.loop.pc with
  | .noneReady _ => True
  | .decided _ timeout => timeout ≠ some 0 ∧ s.announced = false
  | _ => False

/-- No call looks at `idle` while the loop goes to sleep unannounced, unless nothing is
queued or another call is in progress; and the queue is shorter than its counter's range
when the counter is loaded. -/
def Heard (s : Sleeper α) : SleepAction α → Prop
  | .base (.wake thread) =>
      s.unannounced → s.loop.handlesReady = [] ∨ ∃ other ≠ thread, s.loop.calls other ≠ none
  | .base (.load _) => s.loop.handlesReady.length < 2 ^ 64
  | _ => True

/-- The handles `step` has taken and not subtracted from the counter. -/
def Pc.owed : Pc α → Nat
  | .swapped _ handles => handles.length
  | _ => 0

/-- The counter lags behind the queue by the pushes that have not counted theirs. -/
structure Tally (s : EventLoop α) (pending : List Nat) : Prop where
  nodup : pending.Nodup
  mem : ∀ thread, thread ∈ pending ↔ s.calls thread = some (.count true)
  count : s.counterReady + BitVec.ofNat 64 pending.length = BitVec.ofNat 64
      (s.handlesReady.length + s.pc.owed)

/-- Everything a loop action of one operation does to the queue and its counter. -/
inductive QueueMove (s : EventLoop α) (a : Action α) (t : EventLoop α) : Prop where
  | other : t.handlesReady = s.handlesReady → t.counterReady = s.counterReady → s.pc.owed = 0 →
      t.pc.owed = 0 → ¬ t.pc.waits → QueueMove s a t
  | empty (tick tickLast : Nat) : a = .load tick → t.handlesReady = s.handlesReady →
      t.counterReady = s.counterReady → s.pc.owed = 0 → s.counterReady = 0 →
      t.pc = .noneReady tickLast → QueueMove s a t
  | peek (tickLast tickLast' : Nat) (timeout : Option Nat) : t.handlesReady = s.handlesReady →
      t.counterReady = s.counterReady → s.pc = .noneReady tickLast →
      t.pc = .decided tickLast' timeout → QueueMove s a t
  | swap : t.handlesReady = [] → t.counterReady = s.counterReady → s.pc.owed = 0 →
      t.pc.owed = s.handlesReady.length → ¬ t.pc.waits → QueueMove s a t
  | uncount : t.handlesReady = s.handlesReady →
      t.counterReady = s.counterReady - BitVec.ofNat 64 s.pc.owed → t.pc.owed = 0 → ¬ t.pc.waits →
      QueueMove s a t

theorem readyPlan_cases (tickLast tick : Nat) :
    (afterPlan tickLast (readyPlan tick tickLast) : Pc α).owed = 0 ∧
      ¬ (afterPlan tickLast (readyPlan tick tickLast) : Pc α).waits := by
  unfold readyPlan
  split
  · exact ⟨rfl, id⟩
  · exact ⟨rfl, fun waits => waits rfl⟩

theorem loopStep_queue {s t : EventLoop α} {a : Action α} (single : a.single = true)
    (h : loopStep s a = some t) :
    QueueMove s a t := by
  cases loopStep_stepped h with
  | ready tick tickLast hpc =>
      obtain ⟨owed, waits⟩ := readyPlan_cases (α := α) tickLast tick
      exact .other rfl rfl (by rw [hpc]; rfl) owed waits
  | noneReady tick tickLast hpc ready =>
      refine .empty tick tickLast rfl rfl rfl (by rw [hpc]; rfl) ?_ rfl
      bv_omega
  | peek tick tickLast hpc => exact .peek tickLast tickLast _ rfl rfl hpc rfl
  | swap p hpc => exact .swap rfl rfl (by rw [hpc]; rfl) rfl id
  | uncount p batch hpc =>
      refine .uncount rfl (by rw [hpc]; rfl) ?_ ?_
      · split_ifs <;> rfl
      · split_ifs <;> exact id
  | run hpc | post hpc | leave _ hpc | enter _ hpc | timers _ _ _ hpc | finish _ _ _ hpc
  | dispatch _ _ _ _ hpc
  | pop _ _ _ hpc | popTimer _ _ _ _ _ hpc | timersDone _ _ _ hpc =>
      refine .other rfl rfl (by rw [hpc]; rfl) ?_ ?_
      · simp only [popFront, hpc]
        rfl
      · simp [hpc, popFront, Pc.waits]
  | stepEnd p hpc =>
      have none : s.pc.owed = 0 := by rw [hpc]; rfl
      obtain ⟨handled, pc, exits, result, rfl | rfl⟩ := stepEnd_cases s p
      · rw [result]
        exact .other rfl rfl none rfl id
      · rw [result]
        exact .other rfl rfl none rfl id
  | enterPoll | pollReturns => cases single

/-- The loop thread is at or in its poll. -/
def Pc.polls : Pc α → Prop
  | .decided _ _ | .polling _ _ => True
  | _ => False

/-- The loop's own actions leave calls, flag and waker alone, those before and after the
poll apart. -/
theorem loopStep_calls {s t : EventLoop α} {a : Action α} (single : a.single = true)
    (h : loopStep s a = some t) : t.calls = s.calls ∧ t.idle = s.idle ∧
    t.wakerPending = s.wakerPending := by
  cases loopStep_stepped h with
  | stepEnd p hpc =>
      obtain ⟨handled, pc, exits, result, -⟩ := stepEnd_cases s p
      rw [result]
      exact ⟨rfl, rfl, rfl⟩
  | enterPoll | pollReturns => cases single
  | _ => exact ⟨rfl, rfl, rfl⟩

theorem loopStep_not_polls {s t : EventLoop α} {a : Action α} (single : a.single = true)
    (h : loopStep s a = some t) : ¬ s.pc.polls := by
  cases loopStep_stepped h with
  | enterPoll | pollReturns => cases single
  | run hpc | post hpc | leave _ hpc | enter _ hpc | ready _ _ hpc | noneReady _ _ hpc
  | peek _ _ hpc | swap _ hpc
  | uncount _ _ hpc | dispatch _ _ _ _ hpc | timers _ _ _ hpc | popTimer _ _ _ _ _ hpc
  | timersDone _ _ _ hpc
  | pop _ _ _ hpc | finish _ _ _ hpc | stepEnd _ hpc =>
      rw [hpc]
      exact id

/-- `n` of the handles in the queue, or swapped out of it, are not counted. -/
def EventLoop.Lags (s : EventLoop α) (n : Nat) : Prop :=
  s.counterReady + BitVec.ofNat 64 n = BitVec.ofNat 64 (s.handlesReady.length + s.pc.owed)

theorem QueueMove.lags {s t : EventLoop α} {a : Action α} {n : Nat} (move : QueueMove s a t)
    (lags : s.Lags n) :
    t.Lags n := by
  unfold EventLoop.Lags at lags ⊢
  cases move with
  | other ready counter before after _ => rw [ready, counter, after, ← before]; exact lags
  | empty tick tickLast load ready counter before zero after =>
      rw [ready, counter, after]
      rw [before] at lags
      exact lags
  | peek tickLast tickLast' timeout ready counter before after =>
      rw [ready, counter, after]
      rw [before] at lags
      exact lags
  | swap ready counter before after _ =>
      rw [ready, counter, after, List.length_nil, Nat.zero_add]
      rw [before, Nat.add_zero] at lags
      exact lags
  | uncount ready counter after _ =>
      rw [ready, counter, after, Nat.add_zero]
      rw [BitVec.ofNat_add] at lags
      generalize BitVec.ofNat 64 s.pc.owed = owed at *
      generalize BitVec.ofNat 64 s.handlesReady.length = queued at *
      generalize BitVec.ofNat 64 n = uncounted at *
      bv_omega

theorem EventLoop.Lags.pushed {s : EventLoop α} {n : Nat} (lags : s.Lags n) (e : Entry α) :
    s.counterReady + BitVec.ofNat 64 (n + 1) = BitVec.ofNat 64
    ((s.handlesReady ++ [e]).length + s.pc.owed) := by
  unfold EventLoop.Lags at lags
  simp only [List.length_append, List.length_cons, List.length_nil, BitVec.ofNat_add] at lags ⊢
  generalize BitVec.ofNat 64 s.pc.owed = owed at *
  generalize BitVec.ofNat 64 s.handlesReady.length = queued at *
  generalize BitVec.ofNat 64 n = uncounted at *
  bv_omega

theorem EventLoop.Lags.counted {s : EventLoop α} {n : Nat} (lags : s.Lags (n + 1)) :
    s.counterReady + 1 + BitVec.ofNat 64 n = BitVec.ofNat 64
    (s.handlesReady.length + s.pc.owed) := by
  unfold EventLoop.Lags at lags
  rw [BitVec.ofNat_add] at lags
  generalize BitVec.ofNat 64 (s.handlesReady.length + s.pc.owed) = queued at *
  generalize BitVec.ofNat 64 n = uncounted at *
  bv_omega

theorem Tally.moved {s t : EventLoop α} {a : Action α} {pending : List Nat}
    (tally : Tally s pending) (calls : t.calls = s.calls) (move : QueueMove s a t) :
    Tally t pending :=
  ⟨tally.nodup, fun thread => by rw [calls]; exact tally.mem thread, move.lags tally.count⟩

theorem Tally.pushed {s : EventLoop α} {pending : List Nat} (tally : Tally s pending) {thread : Nat}
    (free : s.calls thread = none) (e : Entry α) (pushes : List (Entry α)) :
    Tally { s with
      handlesReady := s.handlesReady ++ [e]
      pushes := pushes
      calls := Function.update s.calls thread (some (.count true)) } (thread :: pending) where
  nodup := by
    refine List.nodup_cons.mpr ⟨fun there => ?_, tally.nodup⟩
    rw [tally.mem, free] at there
    cases there
  mem := by
    intro other
    simp only [Function.update_apply, List.mem_cons]
    by_cases same : other = thread
    · simp [same]
    · simp only [same, false_or, if_false]
      exact tally.mem other
  count := EventLoop.Lags.pushed tally.count e

theorem Tally.counted {s : EventLoop α} {pending : List Nat} (tally : Tally s pending)
    {thread : Nat} (there : s.calls thread = some (.count true)) :
    Tally { s with
      counterReady := s.counterReady + 1
      calls := Function.update s.calls thread (some .wake) } (pending.erase thread) where
  nodup := tally.nodup.erase thread
  mem := by
    intro other
    rw [tally.nodup.mem_erase_iff]
    simp only [Function.update_apply]
    by_cases same : other = thread
    · simp [same]
    · simp only [same, ne_eq, not_false_eq_true, true_and, if_false]
      exact tally.mem other
  count := by
    have mem := (tally.mem thread).mpr there
    have len : pending.length = (pending.erase thread).length + 1 := by
      rw [List.length_erase_of_mem mem]
      have := List.length_pos_of_mem mem
      omega
    have count := tally.count
    rw [len] at count
    exact EventLoop.Lags.counted count

/-- A counter that reads zero with handles in the queue: some push is not counted yet. -/
theorem Tally.uncounted {s : EventLoop α} {pending : List Nat} (tally : Tally s pending)
    (zero : s.counterReady = 0) (owed : s.pc.owed = 0) (short : s.handlesReady.length < 2 ^ 64)
    (queued : s.handlesReady ≠ []) : ∃ thread, s.calls thread ≠ none := by
  cases pending with
  | nil =>
      have count := tally.count
      rw [zero, owed, List.length_nil, Nat.add_zero] at count
      have length := congrArg BitVec.toNat count
      simp only [BitVec.toNat_ofNat, Nat.mod_eq_of_lt short] at length
      have empty : s.handlesReady.length = 0 := by simpa using length.symm
      exact absurd (List.length_eq_zero_iff.mp empty) queued
  | cons thread rest =>
      have there := (tally.mem thread).mp List.mem_cons_self
      exact ⟨thread, by rw [there]; exact Option.some_ne_none _⟩

/-- `idle` is stored and the poll has not returned. -/
def Sleeper.listens (s : Sleeper α) : Prop :=
  match s.loop.pc with
  | .decided _ timeout => timeout ≠ some 0 ∧ s.announced = true
  | .polling _ timeout => timeout ≠ some 0 ∧ s.returned = none
  | _ => False

/-- Some call is in progress, or the waker is notified. -/
def EventLoop.Called (s : EventLoop α) : Prop := (∃ thread, s.calls thread ≠ none) ∨
    s.wakerPending = true

/-- What keeps the loop from sleeping over work: while it goes to sleep or waits, a
non-empty queue comes with a call in progress or a notified waker. -/
structure Watched (s : Sleeper α) : Prop where
  tally : ∃ pending, Tally s.loop pending
  kinds : ∀ thread, s.loop.calls thread ≠ some (.count false)
  early : s.announced = true → ∃ tickLast timeout, s.loop.pc = .decided tickLast timeout
  late : s.returned ≠ none → ∃ tickLast timeout, s.loop.pc = .polling tickLast timeout
  heard : s.listens → s.loop.idle = true
  covered : s.unannounced ∨ s.listens → s.loop.handlesReady ≠ [] → s.loop.Called

variable {s t : Sleeper α}

theorem asleep_watched : Watched (asleep : Sleeper α) where
  tally := ⟨[], List.nodup_nil, fun _ => iff_of_false List.not_mem_nil (fun h => by cases h), rfl⟩
  kinds _ h := by cases h
  early := Bool.noConfusion
  late h := absurd rfl h
  heard := False.elim
  covered h := h.elim False.elim False.elim

/-- A step outside the stores and the poll, by what it does to the parts the invariant
reads. -/
theorem Watched.call (inv : Watched s) {loop : EventLoop α} (pc : loop.pc = s.loop.pc)
    (idle : loop.idle = s.loop.idle) (tally : ∃ pending, Tally loop pending)
    (kinds : ∀ thread, loop.calls thread ≠ some (.count false))
    (covered : s.unannounced ∨ s.listens → loop.handlesReady ≠ [] → loop.Called) :
    Watched { s with loop := loop } := by
  have unannounced : Sleeper.unannounced { s with loop := loop } ↔ s.unannounced := by
    simp only [Sleeper.unannounced, pc]
  have listens : Sleeper.listens { s with loop := loop } ↔ s.listens := by
    simp only [Sleeper.listens, pc]
  exact
    { tally := tally
      kinds := kinds
      early := fun h => by rw [pc]; exact inv.early h
      late := fun h => by rw [pc]; exact inv.late h
      heard := fun h => by rw [idle]; exact inv.heard (listens.mp h)
      covered := fun h => covered (h.imp unannounced.mp listens.mp) }

/-- No call that is not threadsafe begins. -/
theorem Watched.kinds_update (inv : Watched s) (thread : Nat) {call : Option Call}
    (wakes : call ≠ some (.count false))
    (other : Nat) : Function.update s.loop.calls thread call other ≠ some (.count false) := by
  by_cases same : other = thread
  · rw [same, Function.update_self]
    exact wakes
  · rw [Function.update_of_ne same]
    exact inv.kinds other

theorem Watched.push (inv : Watched s) {thread : Nat} (free : s.loop.calls thread = none)
    (e : Entry α) (pushes : List (Entry α)) :
    Watched { s with loop := { s.loop with
      handlesReady := s.loop.handlesReady ++ [e]
      pushes := pushes
      calls := Function.update s.loop.calls thread (some (.count true)) } } := by
  obtain ⟨pending, tally⟩ := inv.tally
  refine inv.call rfl rfl ⟨thread :: pending, tally.pushed free e pushes⟩ ?_ fun _ _ =>
    .inl ⟨thread, by simp⟩
  exact inv.kinds_update thread fun h => by cases h

theorem Watched.count (inv : Watched s) {thread : Nat}
    (there : s.loop.calls thread = some (.count true)) : Watched { s with loop := { s.loop with
      counterReady := s.loop.counterReady + 1
      calls := Function.update s.loop.calls thread (some .wake) } } := by
  obtain ⟨pending, tally⟩ := inv.tally
  refine inv.call rfl rfl ⟨_, tally.counted there⟩ ?_ fun _ _ => .inl ⟨thread, by simp⟩
  exact inv.kinds_update thread fun h => by cases h

/-- A check of `idle` while the flag is not set yet leaves the wake to another call. -/
theorem Watched.wake (inv : Watched s) {thread : Nat} (there : s.loop.calls thread = some .wake)
    (good : s.unannounced → s.loop.handlesReady = [] ∨
      ∃ other ≠ thread, s.loop.calls other ≠ none) :
    Watched { s with loop := { s.loop with
      wakerPending := s.loop.wakerPending || s.loop.idle
      calls := Function.update s.loop.calls thread none } } := by
  obtain ⟨pending, tally⟩ := inv.tally
  refine inv.call rfl rfl ⟨pending, tally.nodup, fun other => ?_, tally.count⟩ ?_
    fun waits queued => ?_
  · rw [tally.mem]
    by_cases same : other = thread
    · simp [same, there]
    · simp only [Function.update_of_ne same]
  · exact inv.kinds_update thread fun h => by cases h
  · rcases waits with unannounced | listens
    · rcases good unannounced with empty | ⟨other, apart, inProgress⟩
      · exact absurd empty queued
      · refine .inl ⟨other, ?_⟩
        simp only [Function.update_of_ne apart]
        exact inProgress
    · exact .inr (by simp [inv.heard listens])

theorem callStep_watched {a : Action α} {loop : EventLoop α} (inv : Watched s)
    (threadsafe : Threadsafe (.base a)) (good : Heard s (.base a))
    (h : callStep s.loop a = some loop) : Watched { s with loop := loop } := by
  obtain ⟨pending, tally⟩ := inv.tally
  cases callStep_stepped h with
  | push thread how callback free =>
      have wakes : how.wakes = true := threadsafe
      rw [wakes]
      exact inv.push free _ _
  | count thread wakes there =>
      cases wakes with
      | false => exact absurd there (inv.kinds thread)
      | true => exact inv.count there
  | wake thread there => exact inv.wake there good
  | later thread wakes timer free =>
      have quiet : wakes = false := threadsafe
      have same : Function.update s.loop.calls thread (if wakes = true then some .wake
          else none) = s.loop.calls := by
        rw [quiet, if_neg Bool.false_ne_true, ← free, Function.update_eq_self]
      rw [same]
      exact inv.call rfl rfl ⟨pending, tally.nodup, tally.mem, tally.count⟩ inv.kinds inv.covered
  | cancel | stop =>
      exact inv.call rfl rfl ⟨pending, tally.nodup, tally.mem, tally.count⟩ inv.kinds inv.covered

theorem Sleeper.waits_of (h : s.unannounced ∨ s.listens) : s.loop.pc.waits := by
  unfold Sleeper.unannounced Sleeper.listens at h
  cases hpc : s.loop.pc with
  | noneReady tickLast => trivial
  | decided tickLast timeout =>
      rw [hpc] at h
      exact h.elim And.left And.left
  | polling tickLast timeout =>
      rw [hpc] at h
      exact h.elim False.elim And.left
  | _ =>
      rw [hpc] at h
      exact h.elim False.elim False.elim

theorem loopStep_watched {a : Action α} {loop : EventLoop α} (inv : Watched s)
    (good : Heard s (.base a)) (single : a.single = true) (h : loopStep s.loop a = some loop) :
    Watched { s with loop := loop } := by
  obtain ⟨calls, idle, waker⟩ := loopStep_calls single h
  have before := loopStep_not_polls single h
  have move := loopStep_queue single h
  obtain ⟨pending, tally⟩ := inv.tally
  have announced : s.announced = false := by
    refine Bool.eq_false_iff.mpr fun h => before ?_
    obtain ⟨tickLast, timeout, hpc⟩ := inv.early h
    rw [hpc]
    trivial
  have returned : s.returned = none := by
    refine not_ne_iff.mp fun h => before ?_
    obtain ⟨tickLast, timeout, hpc⟩ := inv.late h
    rw [hpc]
    trivial
  -- a loop that has just decided has announced nothing yet
  have heard : ¬ loop.pc.waits ∨ (∀ tickLast timeout, loop.pc ≠ .polling tickLast timeout) →
      Sleeper.listens { s with loop := loop } → loop.idle = true := by
    intro quiet listens
    rcases quiet with quiet | notPolling
    · exact absurd (Sleeper.waits_of (.inr listens)) quiet
    · unfold Sleeper.listens at listens
      split at listens
      · rw [announced] at listens
        cases listens.2
      next hpc => exact absurd hpc (notPolling _ _)
      · exact listens.elim
  refine
    { tally := ⟨pending, tally.moved calls move⟩
      kinds := fun thread => by simp only [calls]; exact inv.kinds thread
      early := fun h => absurd (announced.symm.trans h) Bool.false_ne_true
      late := fun h => absurd returned h
      heard := heard ?_
      covered := ?_ }
  · cases move with
    | other _ _ _ _ quiet | swap _ _ _ _ quiet | uncount _ _ _ quiet => exact .inl quiet
    | empty tick tickLast _ _ _ _ _ after | peek tickLast tickLast' timeout _ _ _ after =>
        refine .inr fun tickLast timeout hpc => ?_
        rw [after] at hpc
        cases hpc
  · intro waits queued
    cases move with
    | other _ _ _ _ quiet | swap _ _ _ _ quiet | uncount _ _ _ quiet =>
        exact absurd (Sleeper.waits_of waits) quiet
    | empty tick tickLast load ready _ owed zero _ =>
        subst load
        simp only [ready] at queued
        obtain ⟨thread, inProgress⟩ := tally.uncounted zero owed good queued
        exact .inl ⟨thread, by simp only [calls]; exact inProgress⟩
    | peek tickLast tickLast' timeout ready _ pc _ =>
        simp only [ready] at queued
        have unannounced : s.unannounced := by
          unfold Sleeper.unannounced
          rw [pc]
          trivial
        have called := inv.covered (.inl unannounced) queued
        simp only [EventLoop.Called, calls, waker]
        exact called

theorem storeIdle_watched (inv : Watched s) (h : sleepStep s .storeIdle = some t) : Watched t := by
  simp only [sleepStep] at h
  split at h
  next tickLast timeout hpc =>
    obtain ⟨first, rfl⟩ := Option.ite_none_left_eq_some.mp h |>.imp_right Option.some.inj
    obtain ⟨waits, unannounced⟩ := not_or.mp first
    obtain ⟨pending, tally⟩ := inv.tally
    have before : s.unannounced := by
      simp only [Sleeper.unannounced, hpc]
      exact ⟨waits, Bool.eq_false_iff.mpr unannounced⟩
    exact
      { tally := ⟨pending, tally.nodup, tally.mem, tally.count⟩
        kinds := inv.kinds
        early := fun _ => ⟨tickLast, timeout, hpc⟩
        late := inv.late
        heard := fun _ => rfl
        covered := fun _ => inv.covered (.inl before) }
  · cases h

theorem enterPoll_watched (inv : Watched s) (h : sleepStep s .enterPoll = some t) : Watched t := by
  simp only [sleepStep] at h
  split at h
  next tickLast timeout hpc =>
    obtain ⟨ready, rfl⟩ := Option.ite_none_right_eq_some.mp h |>.imp_right Option.some.inj
    obtain ⟨pending, tally⟩ := inv.tally
    -- a poll that waits was announced before
    have listens : timeout ≠ some 0 → s.listens := by
      intro waits
      simp only [Sleeper.listens, hpc]
      exact ⟨waits, ready.resolve_left waits⟩
    refine
      { tally := ⟨pending, tally.nodup, tally.mem, ?_⟩
        kinds := inv.kinds
        early := Bool.noConfusion
        late := fun _ => ⟨tickLast, timeout, rfl⟩
        heard := fun h => inv.heard (listens h.1)
        covered := fun h => inv.covered (.inr (listens ?_)) }
    · have count := tally.count
      rw [hpc] at count
      exact count
    · exact h.elim False.elim And.left
  · cases h

theorem pollReturns_watched {result : PollOutcome} {tick : Nat} (inv : Watched s)
    (h : sleepStep s (.pollReturns result tick) = some t) : Watched t := by
  simp only [sleepStep] at h
  split at h
  next tickLast timeout hpc hreturned =>
    cases h
    obtain ⟨pending, tally⟩ := inv.tally
    have deaf : ¬ Sleeper.listens
        { s with loop := { s.loop with wakerPending := false }, returned := some (result,
          tick) } := by
      simp only [Sleeper.listens, hpc]
      exact fun h => nomatch h.2
    refine
      { tally := ⟨pending, tally.nodup, tally.mem, tally.count⟩
        kinds := inv.kinds
        early := inv.early
        late := fun _ => ⟨tickLast, timeout, hpc⟩
        heard := fun h => absurd h deaf
        covered := fun h => ?_ }
    refine absurd (h.resolve_right deaf) ?_
    simp only [Sleeper.unannounced, hpc]
    exact id
  · cases h

theorem clearIdle_watched (inv : Watched s) (h : sleepStep s .clearIdle = some t) : Watched t := by
  simp only [sleepStep] at h
  split at h
  next tickLast timeout result tick hpc hreturned =>
    cases h
    obtain ⟨pending, tally⟩ := inv.tally
    have count := tally.count
    rw [hpc] at count
    have announced : s.announced = true → False := by
      intro early
      obtain ⟨_, _, decided⟩ := inv.early early
      rw [hpc] at decided
      cases decided
    exact
      { tally := ⟨pending, tally.nodup, tally.mem, count⟩
        kinds := inv.kinds
        early := fun h => (announced h).elim
        late := fun h => absurd rfl h
        heard := False.elim
        covered := fun h => h.elim False.elim False.elim }
  · cases h

theorem sleepStep_watched (s : Sleeper α) (a : SleepAction α) (t : Sleeper α) (inv : Watched s)
    (admitted : Threadsafe a ∧ Heard s a) (h : sleepStep s a = some t) : Watched t := by
  cases a with
  | base a =>
      obtain ⟨single, taken⟩ := Option.ite_none_right_eq_some.mp h
      obtain ⟨loop, stepped, rfl⟩ := Option.map_eq_some_iff.mp taken
      rcases Option.or_eq_some_iff.mp stepped with call | ⟨-, own⟩
      · exact callStep_watched inv admitted.1 admitted.2 call
      · exact loopStep_watched inv admitted.2 single own
  | storeIdle => exact storeIdle_watched inv h
  | enterPoll => exact enterPoll_watched inv h
  | pollReturns result tick => exact pollReturns_watched inv h
  | clearIdle => exact clearIdle_watched inv h

theorem Watched.not_stuck (inv : Watched s) : ¬ Stuck s := by
  rintro ⟨⟨tickLast, timeout, hpc, waits⟩, returned, waker, queued, calls⟩
  have listens : s.listens := by
    simp only [Sleeper.listens, hpc]
    exact ⟨waits, returned⟩
  rcases inv.covered (.inr listens) queued with ⟨thread, inProgress⟩ | pending
  · exact inProgress (calls thread)
  · rw [waker] at pending
    cases pending

/-- In every state of a run of threadsafe calls in which no call looks at `idle` too
early, the loop does not sleep over queued work. -/
theorem never_stuck {actions : List (SleepAction α)} (threadsafe : ∀ a ∈ actions, Threadsafe a)
    (guarded : Guarded sleepStep Heard asleep actions) :
    Always sleepStep (fun s => ¬ Stuck s) asleep actions := by
  have both := (guarded_of_forall threadsafe).and guarded
  exact (always_of_guarded sleepStep_watched asleep_watched both).mono fun _ inv => inv.not_stuck

/-- The condition is needed: after a last check that comes too early, the loop has only
to go on to be stuck. -/
theorem stuck_after_early_check {thread : Nat} (there : s.loop.calls thread = some .wake)
    (alone : ∀ other ≠ thread, s.loop.calls other = none) (queued : s.loop.handlesReady ≠ [])
    (quiet : s.loop.idle = false ∧ s.loop.wakerPending = false) (early : s.unannounced)
    (fresh : s.announced = false ∧ s.returned = none) :
    ∃ actions t, run sleepStep s (.base (.wake thread) :: actions) = some t ∧ Stuck t := by
  have calls : ∀ other, Function.update s.loop.calls thread none other = none := by
    intro other
    by_cases same : other = thread
    · rw [same, Function.update_self]
    · rw [Function.update_of_ne same]
      exact alone other same
  let checked : EventLoop α :=
    { s.loop with
      wakerPending := s.loop.wakerPending || s.loop.idle
      calls := Function.update s.loop.calls thread none }
  have first : sleepStep s (.base (.wake thread)) = some { s with loop := checked } := by
    simp [sleepStep, Action.single, step, callStep, there, checked]
  have waker : checked.wakerPending = false := by simp [checked, quiet.1, quiet.2]
  -- from the decision on, the store and the poll follow
  have ending : ∀ (loop : EventLoop α) (tickLast : Nat) (timeout : Option Nat),
    loop.pc = .decided tickLast timeout →
      timeout ≠ some 0 → loop.wakerPending = false → loop.handlesReady = s.loop.handlesReady →
      loop.calls = Function.update s.loop.calls thread none →
      ∃ t, run sleepStep { s with loop := loop } [.storeIdle, .enterPoll] = some t ∧ Stuck t := by
    intro loop tickLast timeout hpc waits pending ready same
    refine ⟨{ s with
      loop := { loop with idle := true, pc := .polling tickLast timeout }
      announced := false }, ?_, ⟨tickLast, timeout, rfl, waits⟩, fresh.2, pending, ?_, ?_⟩
    · simp [run, sleepStep, hpc, waits, fresh.1]
    · simpa only [ready] using queued
    · simpa only [same] using calls
  unfold Sleeper.unannounced at early
  split at early
  next tickLast hpc =>
    obtain ⟨tick, forever⟩ : ∃ tick, schedTime s.loop.handlesSched tick = none := by
      cases deadline : peekWhen s.loop.handlesSched with
      | none => exact ⟨0, by simp [schedTime, deadline]⟩
      | some deadline' => exact ⟨deadline', by simp [schedTime, deadline]⟩
    have second : sleepStep { s with loop := checked } (.base (.peek tick)) =
        some { s with loop := { checked with pc := .decided tickLast none } } := by
      simp [sleepStep, Action.single, step, callStep, loopStep, checked, hpc, forever, afterPlan]
    obtain ⟨t, last, stuck⟩ := ending { checked with pc := .decided tickLast none } tickLast none
      rfl (by simp) waker rfl rfl
    refine ⟨[.base (.peek tick), .storeIdle, .enterPoll], t, ?_, stuck⟩
    exact run_cons_iff.mpr ⟨_, first, run_cons_iff.mpr ⟨_, second, last⟩⟩
  next tickLast timeout hpc =>
    obtain ⟨t, last, stuck⟩ := ending checked tickLast timeout hpc early.1 waker rfl rfl
    exact ⟨[.storeIdle, .enterPoll], t, run_cons_iff.mpr ⟨_, first, last⟩, stuck⟩
  next => exact early.elim

/-- A push to a loop that sleeps. -/
theorem never_stuck_push_asleep :
    Always sleepStep (fun s => ¬ Stuck s) (asleep : Sleeper Unit)
      [.base .run, .base .top, .base (.load 0), .base (.peek 0), .storeIdle, .enterPoll,
        .base (.push 1 (.callSoonThreadsafe 0) ()), .base (.count 1), .base (.wake 1),
        .pollReturns .ok 5, .clearIdle, .base .swap] := by
  refine never_stuck (by simp [Threadsafe, Scheduling.wakes]) ?_
  refine guarded_cons rfl trivial (guarded_cons rfl trivial
    (guarded_cons rfl ?_ (guarded_cons rfl trivial
      (guarded_cons rfl trivial (guarded_cons rfl trivial
      (guarded_cons rfl trivial (guarded_cons rfl trivial
    (guarded_cons rfl ?_ (guarded_cons rfl trivial (guarded_cons rfl trivial
    (guarded_cons rfl trivial trivial)))))))))))
  · exact Nat.two_pow_pos 64
  · exact False.elim

/-- The loop loads a zero counter; a whole push follows, which finds `idle` unset; the
loop announces its sleep and polls without a timeout. -/
theorem push_before_announcement_stuck :
    ¬ ∀ (actions : List (SleepAction Unit)) (t : Sleeper Unit), (∀ a ∈ actions, Threadsafe a) →
      run sleepStep asleep actions = some t → ¬ Stuck t := by
  intro claim
  refine claim [.base .run, .base .top, .base (.load 0), .base (.push 1 (.callSoonThreadsafe 0) ()),
    .base (.count 1), .base (.wake 1), .base (.peek 0), .storeIdle, .enterPoll] _ ?_ rfl ?_
  · simp [Threadsafe, Scheduling.wakes]
  · refine ⟨⟨0, none, rfl, by simp⟩, rfl, rfl, List.cons_ne_nil _ _, fun thread => ?_⟩
    by_cases one : thread = 1
    · simp [asleep, new, one]
    · simp [asleep, new, one]

end TokioLoop.Loop
