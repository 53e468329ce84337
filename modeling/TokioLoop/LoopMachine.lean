import Mathlib.Logic.Function.Basic
import Mathlib.Data.List.MinMax
import Mathlib.Data.BitVec
import TokioLoop.Lib.Runs

/-!
The scheduling core of RLoop's `EventLoop`: the ready queue with its counter, the
timer heap, the idle flag with the waker, `step` and `_run`. One action is one atomic
operation of one thread: a lock with what is done under it, or one atomic load, store
or read-modify-write. The loop thread is a program counter; any thread may have one
scheduling call in progress. `α` is what a handle calls back.

What the five `handle_io_*` functions append to a batch is chosen by the environment.
-/
namespace TokioLoop.Loop

variable {α : Type}

/-- Implementors of `Handle`. `own` is any type outside the crate that implements the
trait with a flag of its own. -/
inductive HandleKind where
  | cb
  | cbNoArgs
  | cbOneArg
  | own
  deriving DecidableEq, Repr

/-- `Handle::cancelled` for a handle whose flag is `flag`: `CBHandleOneArg` does not
override the trait's default. -/
def HandleKind.cancelled (flag : Bool) : HandleKind → Bool
  | .cb | .cbNoArgs | .own => flag
  | .cbOneArg => false

/-- Where a handle of a batch came from: a push to `handles_ready`, with its number and
the number of batches swapped out before it, an I/O event, or the timer heap. -/
inductive Source where
  | ready (seq pushedAt : Nat)
  | io
  | timer (deadline : Nat)
  deriving DecidableEq, Repr

/-- A queued handle. `obj` names the object whose flag `cancel()` sets; it is absent
when no reference to the object was handed out. -/
structure Entry (α : Type) where
  source : Source
  obj : Option Nat
  kind : HandleKind
  callback : α
  deriving DecidableEq, Repr

structure Timer (α : Type) where
  deadline : Nat
  obj : Option Nat
  kind : HandleKind
  callback : α
  deriving DecidableEq, Repr

/-- The entry points that push to `handles_ready`. -/
inductive Scheduling where
  | callSoon (obj : Nat)
  | callSoonThreadsafe (obj : Nat)
  | scheduleHandle (obj : Nat) (own : Bool)
  | schedule0
  | schedule1
  | schedule
  deriving DecidableEq, Repr

def Scheduling.obj : Scheduling → Option Nat
  | .callSoon obj | .callSoonThreadsafe obj | .scheduleHandle obj _ => some obj
  | .schedule0 | .schedule1 | .schedule => none

def Scheduling.kind : Scheduling → HandleKind
  | .callSoon _ | .callSoonThreadsafe _ => .cb
  | .scheduleHandle _ own => if own then .own else .cb
  | .schedule0 => .cbNoArgs
  | .schedule1 | .schedule => .cbOneArg

def Scheduling.wakes : Scheduling → Bool
  | .callSoon _ => false
  | _ => true

/-- What a scheduling call still has to do after its push. -/
inductive Call where
  | count (wakes : Bool)
  | wake
  deriving DecidableEq, Repr

/-- Outcome of `poll`, as far as `step` and `_run` look at it. -/
inductive PollOutcome where
  | ok
  | interrupted
  | error
  deriving DecidableEq, Repr

inductive RunExit where
  | ok
  | error
  deriving DecidableEq, Repr

/-- Locals of `step` once polling is over. -/
structure Polled where
  tickLast : Nat
  skipPoll : Bool
  result : PollOutcome
  deriving DecidableEq, Repr

/-- Program points of the loop thread in `_run` and `step`. -/
inductive Pc (α : Type) where
  | outside
  | top (tickLast : Nat)
  | stepStart (tickLast : Nat)
  | noneReady (tickLast : Nat)
  | decided (tickLast : Nat) (schedTime : Option Nat)
  | polling (tickLast : Nat) (schedTime : Option Nat)
  | polled (p : Polled)
  | swapped (p : Polled) (batch : List (Entry α))
  | dispatch (p : Polled) (batch : List (Entry α))
  | timers (p : Polled) (batch : List (Entry α))
  | popping (p : Polled) (tick : Nat) (batch : List (Entry α))
  | batch (p : Polled) (running : Option (Entry α)) (rest : List (Entry α))
  deriving DecidableEq, Repr

/-- A handle that reached the front of its batch: its flag then, whether it ran, and
the number of the batch. -/
structure Done (α : Type) where
  entry : Entry α
  flag : Bool
  ran : Bool
  batch : Nat
  deriving DecidableEq, Repr

/-- `pushes`, `swaps`, `done` and `finished` are histories: `finished` holds the handles
whose `run` has returned. `exits` lists the results of `_run`. -/
structure EventLoop (α : Type) where
  handlesReady : List (Entry α)
  counterReady : BitVec 64
  handlesSched : List (Timer α)
  idle : Bool
  wakerPending : Bool
  stopping : Bool
  sigLoopHandled : Bool
  flags : Nat → Bool
  calls : Nat → Option Call
  pc : Pc α
  pushes : List (Entry α)
  swaps : Nat
  done : List (Done α)
  finished : List (Entry α)
  exits : List RunExit

def new : EventLoop α where
  handlesReady := []
  counterReady := 0
  handlesSched := []
  idle := false
  wakerPending := false
  stopping := false
  sigLoopHandled := false
  flags := fun _ => false
  calls := fun _ => none
  pc := .outside
  pushes := []
  swaps := 0
  done := []
  finished := []
  exits := []

def EventLoop.flag (s : EventLoop α) (obj : Option Nat) : Bool := obj.elim false s.flags

def EventLoop.cancelled (s : EventLoop α) (e : Entry α) : Bool := e.kind.cancelled (s.flag e.obj)

/-- Deadline of `handles_sched.peek()`: `Timer`'s order is reversed, so the greatest
element of the heap is one with the earliest deadline. -/
def peekWhen (sched : List (Timer α)) : Option Nat := (sched.map Timer.deadline).min?

/-- `step` polls, with a timeout in microseconds, or skips polling. -/
inductive PollPlan where
  | skip
  | poll (timeout : Option Nat)
  deriving DecidableEq, Repr

/-- With work ready: poll without waiting, or not at all within 250 µs of the last
poll. The subtraction is on `u128`. -/
def readyPlan (tick tickLast : Nat) : PollPlan :=
  if BitVec.ofNat 128 tick - BitVec.ofNat 128 tickLast < 250 then .skip else .poll (some 0)

/-- With nothing ready: the time to the earliest deadline, cut to `u64`. A deadline
that is not in the future leaves `sched_time` as it was initialised. -/
def schedTime (sched : List (Timer α)) (tick : Nat) : Option Nat :=
  match peekWhen sched with
  | some deadline => if tick < deadline then some ((deadline - tick) % 2 ^ 64) else none
  | none => none

/-- The whole decision at the head of `step`. -/
def pollPlan (counterReady : BitVec 64) (sched : List (Timer α)) (tick tickLast : Nat) : PollPlan :=
  if 0 < counterReady then readyPlan tick tickLast else .poll (schedTime sched tick)

def afterPlan (tickLast : Nat) : PollPlan → Pc α
  | .skip => .polled ⟨tickLast, true, .ok⟩
  | .poll timeout => .decided tickLast timeout

inductive Action (α : Type) where
  | push (thread : Nat) (how : Scheduling) (callback : α)
  | count (thread : Nat)
  | wake (thread : Nat)
  | later (thread : Nat) (wakes : Bool) (timer : Timer α)
  | cancel (obj : Nat)
  | stop
  | run
  | post
  | top
  | load (tick : Nat)
  | peek (tick : Nat)
  | enterPoll
  | pollReturns (result : PollOutcome) (tick : Nat)
  | swap
  | uncount
  | dispatch (handles : List (Entry α)) (signalled : Bool)
  | timers (tick : Nat)
  | popTimer (index : Nat)
  | timersDone
  | pop
  | finish
  | stepEnd
  deriving DecidableEq, Repr

def Scheduling.entry (how : Scheduling) (callback : α) (s : EventLoop α) : Entry α :=
  ⟨.ready s.pushes.length s.swaps, how.obj, how.kind, callback⟩

/-- `handles_sched` is locked from the timer phase's first peek to its last. -/
def EventLoop.schedLocked (s : EventLoop α) : Bool :=
  match s.pc with
  | .popping _ _ _ => true
  | _ => false

/-- The calls of any thread, and what callbacks do to the loop. -/
def callStep (s : EventLoop α) : Action α → Option (EventLoop α)
  | .push thread how callback =>
      match s.calls thread with
      | some _ => none
      | none => some { s with
          handlesReady := s.handlesReady ++ [how.entry callback s]
          pushes := s.pushes ++ [how.entry callback s]
          calls := Function.update s.calls thread (some (.count how.wakes)) }
  | .count thread =>
      match s.calls thread with
      | some (.count wakes) => some { s with
          counterReady := s.counterReady + 1
          calls := Function.update s.calls thread (if wakes then some .wake else none) }
      | _ => none
  | .wake thread =>
      match s.calls thread with
      | some .wake => some { s with
          wakerPending := s.wakerPending || s.idle
          calls := Function.update s.calls thread none }
      | _ => none
  | .later thread wakes timer =>
      match s.calls thread with
      | some _ => none
      | none => if s.schedLocked then none else some { s with
          handlesSched := s.handlesSched ++ [timer]
          calls := Function.update s.calls thread (if wakes then some .wake else none) }
  | .cancel obj => some { s with flags := Function.update s.flags obj true }
  | .stop => some { s with stopping := true }
  | _ => none

/-- `_run` after a step: `Interrupted` goes on only if a signal was handled. -/
def stepEnd (s : EventLoop α) (p : Polled) : EventLoop α :=
  match p.result with
  | .ok => { s with pc := .top p.tickLast }
  | .interrupted =>
      if s.sigLoopHandled then { s with sigLoopHandled := false, pc := .top p.tickLast }
      else { s with pc := .outside, exits := s.exits ++ [.ok] }
  | .error => { s with pc := .outside, exits := s.exits ++ [.error] }

/-- One handle reaches the front of the batch, and runs unless it is cancelled. -/
def popFront (s : EventLoop α) (p : Polled) (e : Entry α) (rest : List (Entry α)) : EventLoop α :=
  { s with
    done := s.done ++ [⟨e, s.flag e.obj, !s.cancelled e, s.swaps⟩]
    pc := .batch p (if s.cancelled e then none else some e) rest }

/-- The timer at `index` if no other one is due earlier: ties are popped in any order. -/
def earliest (sched : List (Timer α)) (index : Nat) : Option (Timer α) :=
  sched[index]?.filter fun t => sched.all fun u => decide (t.deadline ≤ u.deadline)

/-- `_run` and `step`, on the loop thread. -/
def loopStep (s : EventLoop α) : Action α → Option (EventLoop α)
  | .run =>
      match s.pc with
      | .outside => some { s with pc := .top 0 }
      | _ => none
  | .post =>
      match s.pc with
      | .outside => some { s with stopping := false }
      | _ => none
  | .top =>
      match s.pc with
      | .top tickLast =>
          some (if s.stopping then { s with pc := .outside, exits := s.exits ++ [.ok] }
          else { s with pc := .stepStart tickLast })
      | _ => none
  | .load tick =>
      match s.pc with
      | .stepStart tickLast => some { s with
          pc := if 0 < s.counterReady then afterPlan tickLast (readyPlan tick tickLast)
            else .noneReady tickLast }
      | _ => none
  | .peek tick =>
      match s.pc with
      | .noneReady tickLast => some { s with
          pc := afterPlan tickLast (.poll (schedTime s.handlesSched tick)) }
      | _ => none
  | .enterPoll =>
      match s.pc with
      | .decided tickLast timeout => some { s with
          idle := if timeout = some 0 then s.idle else true
          pc := .polling tickLast timeout }
      | _ => none
  | .pollReturns result tick =>
      match s.pc with
      | .polling _ timeout => some { s with
          idle := if timeout = some 0 then s.idle else false
          wakerPending := false
          pc := .polled ⟨tick, false, result⟩ }
      | _ => none
  | .swap =>
      match s.pc with
      | .polled p => some { s with
          handlesReady := []
          swaps := s.swaps + 1
          pc := .swapped p s.handlesReady }
      | _ => none
  | .uncount =>
      match s.pc with
      | .swapped p batch => some { s with
          counterReady := s.counterReady - BitVec.ofNat 64 batch.length
          pc := if p.skipPoll then .timers p batch else .dispatch p batch }
      | _ => none
  | .dispatch handles signalled =>
      match s.pc with
      | .dispatch p batch => some { s with
          sigLoopHandled := s.sigLoopHandled || signalled
          pc := .timers p (batch ++ handles.map fun h => { h with source := .io }) }
      | _ => none
  | .timers tick =>
      match s.pc with
      | .timers p batch => some { s with pc := .popping p tick batch }
      | _ => none
  | .popTimer index =>
      match s.pc with
      | .popping p tick batch =>
          match earliest s.handlesSched index with
          | some t => if t.deadline ≤ tick then some { s with
                handlesSched := s.handlesSched.eraseIdx index
                pc := .popping p tick (batch ++ [⟨.timer t.deadline, t.obj, t.kind, t.callback⟩]) }
              else none
          | none => none
      | _ => none
  | .timersDone =>
      match s.pc with
      | .popping p tick batch =>
          if s.handlesSched.all fun t => decide (tick < t.deadline)
            then some { s with pc := .batch p none batch }
          else none
      | _ => none
  | .pop =>
      match s.pc with
      | .batch p none (e :: rest) => some (popFront s p e rest)
      | _ => none
  | .finish =>
      match s.pc with
      | .batch p (some e) rest => some { s with
          finished := s.finished ++ [e]
          pc := .batch p none rest }
      | _ => none
  | .stepEnd =>
      match s.pc with
      | .batch p none [] => some (stepEnd s p)
      | _ => none
  | _ => none

/-- An action belongs either to a call or to the loop thread. -/
def step (s : EventLoop α) (a : Action α) : Option (EventLoop α) := (callStep s a).or (loopStep s a)

/-- The ways for a thread to take a step of a call. -/
inductive CallStepped (s : EventLoop α) : Action α → EventLoop α → Prop where
  | push (thread : Nat) (how : Scheduling) (callback : α) : s.calls thread = none →
      CallStepped s (.push thread how callback) { s with
        handlesReady := s.handlesReady ++ [how.entry callback s]
        pushes := s.pushes ++ [how.entry callback s]
        calls := Function.update s.calls thread (some (.count how.wakes)) }
  | count (thread : Nat) (wakes : Bool) : s.calls thread = some (.count wakes) →
      CallStepped s (.count thread) { s with
        counterReady := s.counterReady + 1
        calls := Function.update s.calls thread (if wakes then some .wake else none) }
  | wake (thread : Nat) : s.calls thread = some .wake →
      CallStepped s (.wake thread) { s with
        wakerPending := s.wakerPending || s.idle
        calls := Function.update s.calls thread none }
  | later (thread : Nat) (wakes : Bool) (timer : Timer α) : s.calls thread = none →
      s.schedLocked = false → CallStepped s (.later thread wakes timer) { s with
        handlesSched := s.handlesSched ++ [timer]
        calls := Function.update s.calls thread (if wakes then some .wake else none) }
  | cancel (obj : Nat) : CallStepped s (.cancel obj)
      { s with flags := Function.update s.flags obj true }
  | stop : CallStepped s .stop { s with stopping := true }

theorem callStep_stepped {s t : EventLoop α} {a : Action α} (h : callStep s a = some t) :
    CallStepped s a t := by
  cases a with
  | push | count | wake =>
      simp only [callStep] at h
      split at h <;> cases h
      next there =>
        constructor
        exact there
  | later thread wakes timer =>
      simp only [callStep] at h
      split at h
      · cases h
      next free =>
        split at h
        · cases h
        next unlocked =>
          cases h
          exact .later thread wakes timer free (Bool.eq_false_iff.mpr unlocked)
  | cancel obj =>
      cases h
      exact .cancel obj
  | stop =>
      cases h
      exact .stop
  | run | post | top | load | peek | enterPoll | pollReturns | swap | uncount | dispatch | timers
  | popTimer
  | timersDone | pop | finish | stepEnd => cases h

/-- The ways for the loop thread to take a step. -/
inductive LoopStepped (s : EventLoop α) : Action α → EventLoop α → Prop where
  | run : s.pc = .outside → LoopStepped s .run { s with pc := .top 0 }
  | post : s.pc = .outside → LoopStepped s .post { s with stopping := false }
  | leave (tickLast : Nat) : s.pc = .top tickLast → s.stopping = true →
      LoopStepped s .top { s with pc := .outside, exits := s.exits ++ [.ok] }
  | enter (tickLast : Nat) : s.pc = .top tickLast → s.stopping = false →
      LoopStepped s .top { s with pc := .stepStart tickLast }
  | ready (tick tickLast : Nat) : s.pc = .stepStart tickLast → 0 < s.counterReady →
      LoopStepped s (.load tick) { s with pc := afterPlan tickLast (readyPlan tick tickLast) }
  | noneReady (tick tickLast : Nat) : s.pc = .stepStart tickLast → ¬ 0 < s.counterReady →
      LoopStepped s (.load tick) { s with pc := .noneReady tickLast }
  | peek (tick tickLast : Nat) : s.pc = .noneReady tickLast →
      LoopStepped s (.peek tick) { s with
        pc := afterPlan tickLast (.poll (schedTime s.handlesSched tick)) }
  | enterPoll (tickLast : Nat) (timeout : Option Nat) : s.pc = .decided tickLast timeout →
      LoopStepped s .enterPoll { s with
        idle := if timeout = some 0 then s.idle else true
        pc := .polling tickLast timeout }
  | pollReturns (result : PollOutcome) (tick tickLast : Nat) (timeout : Option Nat) :
      s.pc = .polling tickLast timeout →
      LoopStepped s (.pollReturns result tick) { s with
        idle := if timeout = some 0 then s.idle else false
        wakerPending := false
        pc := .polled ⟨tick, false, result⟩ }
  | swap (p : Polled) : s.pc = .polled p →
      LoopStepped s .swap { s with
        handlesReady := []
        swaps := s.swaps + 1
        pc := .swapped p s.handlesReady }
  | uncount (p : Polled) (batch : List (Entry α)) : s.pc = .swapped p batch →
      LoopStepped s .uncount { s with
        counterReady := s.counterReady - BitVec.ofNat 64 batch.length
        pc := if p.skipPoll then .timers p batch else .dispatch p batch }
  | dispatch (handles : List (Entry α)) (signalled : Bool) (p : Polled) (batch : List (Entry α)) :
      s.pc = .dispatch p batch →
      LoopStepped s (.dispatch handles signalled) { s with
        sigLoopHandled := s.sigLoopHandled || signalled
        pc := .timers p (batch ++ handles.map fun h => { h with source := .io }) }
  | timers (tick : Nat) (p : Polled) (batch : List (Entry α)) : s.pc = .timers p batch →
      LoopStepped s (.timers tick) { s with pc := .popping p tick batch }
  | popTimer (index : Nat) (p : Polled) (tick : Nat) (batch : List (Entry α)) (t : Timer α) :
      s.pc = .popping p tick batch → earliest s.handlesSched index = some t → t.deadline ≤ tick →
      LoopStepped s (.popTimer index) { s with
        handlesSched := s.handlesSched.eraseIdx index
        pc := .popping p tick (batch ++ [⟨.timer t.deadline, t.obj, t.kind, t.callback⟩]) }
  | timersDone (p : Polled) (tick : Nat) (batch : List (Entry α)) : s.pc = .popping p tick batch →
      (∀ t ∈ s.handlesSched, tick < t.deadline) →
      LoopStepped s .timersDone { s with pc := .batch p none batch }
  | pop (p : Polled) (e : Entry α) (rest : List (Entry α)) : s.pc = .batch p none (e :: rest) →
      LoopStepped s .pop (popFront s p e rest)
  | finish (p : Polled) (running : Entry α) (rest : List (Entry α)) :
      s.pc = .batch p (some running) rest → LoopStepped s .finish { s with
        finished := s.finished ++ [running]
        pc := .batch p none rest }
  | stepEnd (p : Polled) : s.pc = .batch p none [] → LoopStepped s .stepEnd (Loop.stepEnd s p)

theorem loopStep_stepped {s t : EventLoop α} {a : Action α} (h : loopStep s a = some t) :
    LoopStepped s a t := by
  cases a with
  | run | post | peek | enterPoll | pollReturns | swap | uncount | dispatch | timers | pop | finish
  | stepEnd =>
      simp only [loopStep] at h
      split at h <;> cases h
      next hpc =>
        constructor
        exact hpc
  | top =>
      simp only [loopStep] at h
      split at h <;> cases h
      next tickLast hpc =>
        split_ifs with stopping
        · exact .leave tickLast hpc stopping
        · exact .enter tickLast hpc (Bool.eq_false_iff.mpr stopping)
  | load tick =>
      simp only [loopStep] at h
      split at h <;> cases h
      next tickLast hpc =>
        split_ifs with ready
        · exact .ready tick tickLast hpc ready
        · exact .noneReady tick tickLast hpc ready
  | popTimer index =>
      simp only [loopStep] at h
      split at h
      next p tick batch hpc =>
        split at h
        next t earliest =>
          split_ifs at h with due
          cases h
          exact .popTimer index p tick batch t hpc earliest due
        · cases h
      · cases h
  | timersDone =>
      simp only [loopStep] at h
      split at h
      next p tick batch hpc =>
        split_ifs at h with none_due
        cases h
        exact .timersDone p tick batch hpc (by simpa using none_due)
      · cases h
  | push | count | wake | later | cancel | stop => cases h

/-- After a step the loop goes on or has left; nothing else has changed but the flag of a
handled signal and the list of exits. -/
theorem stepEnd_cases (s : EventLoop α) (p : Polled) : ∃ handled pc exits,
    stepEnd s p = { s with sigLoopHandled := handled, pc := pc, exits := exits } ∧
      (pc = .top p.tickLast ∨ pc = .outside) := by
  unfold stepEnd
  split
  · exact ⟨_, _, _, rfl, .inl rfl⟩
  · split_ifs
    · exact ⟨_, _, _, rfl, .inl rfl⟩
    · exact ⟨_, _, _, rfl, .inr rfl⟩
  · exact ⟨_, _, _, rfl, .inr rfl⟩

end TokioLoop.Loop
