import Mathlib.Logic.Function.Basic
import TokioLoop.Lib.Runs

/-!
Scheduling on `TEventLoop`: `schedule_handle` with its flag checks, the scheduler
channel, and `_run` with its two local queues. Any thread may be inside one scheduling
call; the task of `_run` is a program counter whose `select!` takes any enabled
branch. A handle is named by the number of the call that created it.
-/
namespace TokioLoop.Scheduler

structure TokioTimer where
  handle : Nat
  when : Nat
  deriving DecidableEq, Repr

inductive ScheduledTask where
  | immediate (handle : Nat)
  | delayed (timer : TokioTimer)
  deriving DecidableEq, Repr

def ScheduledTask.handle : ScheduledTask → Nat
  | .immediate handle => handle
  | .delayed timer => timer.handle

/-- What a scheduling call still has to do: load `stopping`, load `closed`, send. -/
inductive CallPoint where
  | entered
  | notStopping
  | checked
  deriving DecidableEq, Repr

structure Call where
  handle : Nat
  delay : Option Nat
  point : CallPoint
  deriving DecidableEq, Repr

/-- A scheduling call that returned `Ok`: whether it passed the flag checks and
whether the loop was closed when it returned. -/
structure Returned where
  handle : Nat
  passed : Bool
  closed : Bool
  deriving DecidableEq, Repr

/-- Points of the task spawned by `_run`. -/
inductive Pc where
  | select
  | expiring (currentTime : Nat)
  | running (handle : Nat)
  | check
  deriving DecidableEq, Repr

/-- Locals of that task. -/
structure Run where
  delayedTasks : List TokioTimer
  currentHandles : List Nat
  pc : Pc
  deriving DecidableEq, Repr

/-- `sent`, `executed`, `skipped` and `returned` are histories. `left` lists the
handles in the local queues of a `_run` when it ended. -/
structure TEventLoop where
  scheduler : List ScheduledTask
  stopping : Bool
  closed : Bool
  sigListening : Bool
  cancelled : Nat → Bool
  calls : Nat → Option Call
  run : Option Run
  created : Nat
  sent : List Nat
  executed : List Nat
  skipped : List Nat
  left : List Nat
  returned : List Returned

def new : TEventLoop where
  scheduler := []
  stopping := false
  closed := false
  sigListening := false
  cancelled := fun _ => false
  calls := fun _ => none
  run := none
  created := 0
  sent := []
  executed := []
  skipped := []
  left := []
  returned := []

def Run.handles (r : Run) : List Nat := r.delayedTasks.map TokioTimer.handle ++ r.currentHandles

/-- The handles in the local queues of the current `_run`. -/
def TEventLoop.localHandles (s : TEventLoop) : List Nat := (s.run.map Run.handles).getD []

/-- Everything the current or the next `_run` will consume. -/
def TEventLoop.held (s : TEventLoop) : List Nat :=
  s.scheduler.map ScheduledTask.handle ++ s.localHandles

inductive Action where
  | call (thread : Nat) (delay : Option Nat)
  | loadStopping (thread : Nat)
  | loadClosed (thread : Nat)
  | send (thread now : Nat)
  | cancel (handle : Nat)
  | setStopping (val : Bool)
  | close
  | listen (val : Bool)
  | run
  | recvTask
  | timer (current currentTime : Nat)
  | popTimer (index : Nat)
  | expired
  | signal (num : Nat)
  | sleep
  | recvHandle
  | finish
  | checkStop
  | crash
  deriving DecidableEq, Repr

/-- The call of `thread` returns `Ok`. -/
def TEventLoop.returnOk (s : TEventLoop) (thread handle : Nat) (passed : Bool) : TEventLoop :=
  { s with
    calls := Function.update s.calls thread none
    returned := s.returned ++ [⟨handle, passed, s.closed⟩] }

def task (c : Call) (now : Nat) : ScheduledTask :=
  match c.delay with
  | some delay => .delayed ⟨c.handle, now + delay⟩
  | none => .immediate c.handle

/-- `call_soon`, `call_soon_threadsafe` and `_call_later`, up to and through
`schedule_handle`, and the calls that set flags. The channel is unbounded and the loop
owns both its ends, so `try_send` succeeds. -/
def callStep (s : TEventLoop) : Action → Option TEventLoop
  | .call thread delay =>
      match s.calls thread with
      | some _ => none
      | none => some { s with
          calls := Function.update s.calls thread (some ⟨s.created, delay, .entered⟩)
          created := s.created + 1 }
  | .loadStopping thread =>
      match s.calls thread with
      | some ⟨handle, delay, .entered⟩ =>
          some (if s.stopping then s.returnOk thread handle false
            else { s with calls := Function.update s.calls thread (some
              ⟨handle, delay, .notStopping⟩) })
      | _ => none
  | .loadClosed thread =>
      match s.calls thread with
      | some ⟨handle, delay, .notStopping⟩ =>
          some (if s.closed then s.returnOk thread handle false
            else { s with calls := Function.update s.calls thread (some ⟨handle, delay, .checked⟩)
              })
      | _ => none
  | .send thread now =>
      match s.calls thread with
      | some ⟨handle, delay, .checked⟩ =>
          let t := s.returnOk thread handle true
          some { t with
            scheduler := t.scheduler ++ [task ⟨handle, delay, .checked⟩ now]
            sent := t.sent ++ [handle] }
      | _ => none
  | .cancel handle => some { s with cancelled := Function.update s.cancelled handle true }
  | .setStopping val => if val || s.run.isNone then some { s with stopping := val } else none
  | .close => if s.run.isNone then some { s with closed := true } else none
  | .listen val => some { s with sigListening := val }
  | _ => none

/-- `_run` returns and its locals are dropped. -/
def TEventLoop.endRun (s : TEventLoop) (r : Run) : TEventLoop :=
  { s with run := none, left := s.left ++ r.handles }

def TEventLoop.goto (s : TEventLoop) (r : Run) (pc : Pc) : TEventLoop :=
  { s with run := some { r with pc := pc } }

/-- A branch of `select!` with its handler. -/
def selectStep (s : TEventLoop) (r : Run) : Action → Option TEventLoop
  | .recvTask =>
      match s.scheduler with
      | .immediate handle :: rest => some { s with
          scheduler := rest
          run := some { r with currentHandles := r.currentHandles ++ [handle], pc := .check } }
      | .delayed timer :: rest => some { s with
          scheduler := rest
          run := some { r with delayedTasks := r.delayedTasks ++ [timer], pc := .check } }
      | [] => none
  | .timer current currentTime =>
      match (r.delayedTasks.map TokioTimer.when).min? with
      | none => none
      | some nextTime =>
          some (s.goto r (if current < nextTime then .check else .expiring currentTime))
  | .signal num =>
      let t := if num = 2 ∨ num = 15 then { s with stopping := true } else s
      some (if t.sigListening then t.goto r .check else t.endRun r)
  | .sleep => if r.delayedTasks.isEmpty then some (s.goto r .check) else none
  | .recvHandle =>
      match r.currentHandles with
      | [] => none
      | handle :: rest =>
          some (if s.cancelled handle then { s with
              skipped := s.skipped ++ [handle]
              run := some { r with currentHandles := rest, pc := .check } }
            else { s with
              executed := s.executed ++ [handle]
              run := some { r with currentHandles := rest, pc := .running handle } })
  | _ => none

/-- The timer at `index` if none is due earlier: ties are popped in any order. -/
def earliest (heap : List TokioTimer) (index : Nat) : Option TokioTimer :=
  heap[index]?.filter fun t => heap.all fun u => decide (t.when ≤ u.when)

/-- One round of the loop that moves expired timers to the execution queue. -/
def expireStep (s : TEventLoop) (r : Run) (currentTime : Nat) : Action → Option TEventLoop
  | .popTimer index =>
      match earliest r.delayedTasks index with
      | none => none
      | some timer =>
          if timer.when ≤ currentTime then
            some (if s.cancelled timer.handle then { s with
                skipped := s.skipped ++ [timer.handle]
                run := some { r with delayedTasks := r.delayedTasks.eraseIdx index } }
              else { s with run := some { r with
                delayedTasks := r.delayedTasks.eraseIdx index
                currentHandles := r.currentHandles ++ [timer.handle] } })
          else none
  | .expired =>
      if r.delayedTasks.all fun t => decide (currentTime < t.when) then some (s.goto r .check)
        else none
  | _ => none

/-- The task of `_run`. `crash` is a panic inside a callback, which ends the task. -/
def runStep (s : TEventLoop) (a : Action) : Option TEventLoop :=
  match s.run with
  | none => if a = .run then some { s with run := some ⟨[], [], .select⟩ } else none
  | some r =>
      match r.pc with
      | .select => selectStep s r a
      | .expiring currentTime => expireStep s r currentTime a
      | .running _ =>
          match a with
          | .finish => some (s.goto r .check)
          | .crash => some (s.endRun r)
          | _ => none
      | .check =>
          if a = .checkStop then some (if s.stopping then s.endRun r else s.goto r .select)
            else none

def step (s : TEventLoop) (a : Action) : Option TEventLoop := (callStep s a).or (runStep s a)

/-- The ways for a thread to take a step of a call. -/
inductive CallStepped (s : TEventLoop) : Action → TEventLoop → Prop where
  | call (thread : Nat) (delay : Option Nat) : s.calls thread = none →
      CallStepped s (.call thread delay) { s with
        calls := Function.update s.calls thread (some ⟨s.created, delay, .entered⟩)
        created := s.created + 1 }
  | stopping (thread : Nat) (c : Call) : s.calls thread = some c →
      CallStepped s (.loadStopping thread) (s.returnOk thread c.handle false)
  | notStopping (thread handle : Nat) (delay : Option Nat) :
      s.calls thread = some ⟨handle, delay, .entered⟩ → CallStepped s (.loadStopping thread)
        { s with calls := Function.update s.calls thread (some ⟨handle, delay, .notStopping⟩) }
  | closed (thread : Nat) (c : Call) : s.calls thread = some c →
      CallStepped s (.loadClosed thread) (s.returnOk thread c.handle false)
  | notClosed (thread handle : Nat) (delay : Option Nat) :
      s.calls thread = some ⟨handle, delay, .notStopping⟩ → CallStepped s (.loadClosed thread)
        { s with calls := Function.update s.calls thread (some ⟨handle, delay, .checked⟩) }
  | send (thread now handle : Nat) (delay : Option Nat) :
      s.calls thread = some ⟨handle, delay, .checked⟩ →
      CallStepped s (.send thread now) { s.returnOk thread handle true with
        scheduler := s.scheduler ++ [task ⟨handle, delay, .checked⟩ now]
        sent := s.sent ++ [handle] }
  | cancel (handle : Nat) :
      CallStepped s (.cancel handle) { s with cancelled := Function.update s.cancelled handle true }
  | setStopping (val : Bool) : (∀ r, s.run = some r → val = true) →
      CallStepped s (.setStopping val) { s with stopping := val }
  | close : s.run = none → CallStepped s .close { s with closed := true }
  | listen (val : Bool) : CallStepped s (.listen val) { s with sigListening := val }

theorem callStep_stepped {s t : TEventLoop} {a : Action} (h : callStep s a = some t) :
    CallStepped s a t := by
  cases a with
  | call thread delay | send thread now =>
      simp only [callStep] at h
      split at h <;> cases h
      next there =>
        constructor
        exact there
  | loadStopping thread =>
      simp only [callStep] at h
      split at h <;> cases h
      next handle delay there =>
        split_ifs
        · exact .stopping thread ⟨handle, delay, .entered⟩ there
        · exact .notStopping thread handle delay there
  | loadClosed thread =>
      simp only [callStep] at h
      split at h <;> cases h
      next handle delay there =>
        split_ifs
        · exact .closed thread ⟨handle, delay, .notStopping⟩ there
        · exact .notClosed thread handle delay there
  | cancel handle =>
      cases h
      exact .cancel handle
  | setStopping val =>
      simp only [callStep] at h
      split_ifs at h with may
      cases h
      refine .setStopping val fun r run => ?_
      rw [run] at may
      simpa using may
  | close =>
      simp only [callStep] at h
      split_ifs at h with idle
      cases h
      exact .close (Option.isNone_iff_eq_none.mp idle)
  | listen val =>
      cases h
      exact .listen val
  | run | recvTask | timer | popTimer | expired | signal | sleep | recvHandle | finish | checkStop
  | crash => cases h

/-- The ways for the task of `_run` to take a step. -/
inductive RunStepped (s : TEventLoop) : Action → TEventLoop → Prop where
  | run : s.run = none → RunStepped s .run { s with run := some ⟨[], [], .select⟩ }
  | immediate (r : Run) (handle : Nat) (rest : List ScheduledTask) : s.run = some r →
      r.pc = .select → s.scheduler = .immediate handle :: rest → RunStepped s .recvTask { s with
        scheduler := rest
        run := some { r with currentHandles := r.currentHandles ++ [handle], pc := .check } }
  | delayed (r : Run) (timer : TokioTimer) (rest : List ScheduledTask) : s.run = some r →
      r.pc = .select → s.scheduler = .delayed timer :: rest → RunStepped s .recvTask { s with
        scheduler := rest
        run := some { r with delayedTasks := r.delayedTasks ++ [timer], pc := .check } }
  | early (r : Run) (current currentTime nextTime : Nat) : s.run = some r → r.pc = .select →
      (r.delayedTasks.map TokioTimer.when).min? = some nextTime → current < nextTime →
      RunStepped s (.timer current currentTime) (s.goto r .check)
  | due (r : Run) (current currentTime nextTime : Nat) : s.run = some r → r.pc = .select →
      (r.delayedTasks.map TokioTimer.when).min? = some nextTime → ¬ current < nextTime →
      RunStepped s (.timer current currentTime) (s.goto r (.expiring currentTime))
  | caught (r : Run) (num : Nat) : s.run = some r → r.pc = .select → s.sigListening = true →
      RunStepped s (.signal num)
        ((if num = 2 ∨ num = 15 then { s with stopping := true } else s).goto r .check)
  | uncaught (r : Run) (num : Nat) : s.run = some r → r.pc = .select → s.sigListening = false →
      RunStepped s (.signal num) ((if num = 2 ∨ num = 15 then { s with stopping := true }
        else s).endRun r)
  | sleep (r : Run) : s.run = some r → r.pc = .select → r.delayedTasks.isEmpty = true →
      RunStepped s .sleep (s.goto r .check)
  | skip (r : Run) (handle : Nat) (rest : List Nat) : s.run = some r → r.pc = .select →
      r.currentHandles = handle :: rest → s.cancelled handle = true →
      RunStepped s .recvHandle { s with
        skipped := s.skipped ++ [handle]
        run := some { r with currentHandles := rest, pc := .check } }
  | execute (r : Run) (handle : Nat) (rest : List Nat) : s.run = some r → r.pc = .select →
      r.currentHandles = handle :: rest → s.cancelled handle = false →
      RunStepped s .recvHandle { s with
        executed := s.executed ++ [handle]
        run := some { r with currentHandles := rest, pc := .running handle } }
  | discard (r : Run) (index currentTime : Nat) (timer : TokioTimer) : s.run = some r →
      r.pc = .expiring currentTime → earliest r.delayedTasks index = some timer →
      timer.when ≤ currentTime → s.cancelled timer.handle = true →
      RunStepped s (.popTimer index) { s with
        skipped := s.skipped ++ [timer.handle]
        run := some { r with delayedTasks := r.delayedTasks.eraseIdx index } }
  | expire (r : Run) (index currentTime : Nat) (timer : TokioTimer) : s.run = some r →
      r.pc = .expiring currentTime → earliest r.delayedTasks index = some timer →
      timer.when ≤ currentTime → s.cancelled timer.handle = false →
      RunStepped s (.popTimer index) { s with run := some { r with
        delayedTasks := r.delayedTasks.eraseIdx index
        currentHandles := r.currentHandles ++ [timer.handle] } }
  | expired (r : Run) (currentTime : Nat) : s.run = some r → r.pc = .expiring currentTime →
      (r.delayedTasks.all fun t => decide (currentTime < t.when)) = true →
      RunStepped s .expired (s.goto r .check)
  | finish (r : Run) (handle : Nat) : s.run = some r → r.pc = .running handle →
      RunStepped s .finish (s.goto r .check)
  | crash (r : Run) (handle : Nat) : s.run = some r → r.pc = .running handle →
      RunStepped s .crash (s.endRun r)
  | stops (r : Run) : s.run = some r → r.pc = .check → s.stopping = true →
      RunStepped s .checkStop (s.endRun r)
  | goesOn (r : Run) : s.run = some r → r.pc = .check → s.stopping = false →
      RunStepped s .checkStop (s.goto r .select)

theorem selectStep_stepped {s t : TEventLoop} {r : Run} {a : Action} (run : s.run = some r)
    (pc : r.pc = .select) (h : selectStep s r a = some t) : RunStepped s a t := by
  cases a with
  | recvTask =>
      simp only [selectStep] at h
      split at h <;> cases h
      next handle rest head => exact .immediate r handle rest run pc head
      next timer rest head => exact .delayed r timer rest run pc head
  | timer current currentTime =>
      simp only [selectStep] at h
      split at h <;> cases h
      next nextTime least =>
        split_ifs with early
        · exact .early r current currentTime nextTime run pc least early
        · exact .due r current currentTime nextTime run pc least early
  | signal num =>
      have same : (if num = 2 ∨ num = 15 then { s with stopping := true }
          else s).sigListening = s.sigListening := by
        split_ifs <;> rfl
      simp only [selectStep, same] at h
      split at h <;> cases h
      next listening => exact .caught r num run pc listening
      next deaf => exact .uncaught r num run pc (Bool.eq_false_iff.mpr deaf)
  | sleep =>
      simp only [selectStep] at h
      split_ifs at h with empty
      cases h
      exact .sleep r run pc empty
  | recvHandle =>
      simp only [selectStep] at h
      split at h <;> cases h
      next handle rest head =>
        split_ifs with off
        · exact .skip r handle rest run pc head off
        · exact .execute r handle rest run pc head (Bool.eq_false_iff.mpr off)
  | call | loadStopping | loadClosed | send | cancel | setStopping | close | listen | run | popTimer
  | expired
  | finish | checkStop | crash => cases h

theorem expireStep_stepped {s t : TEventLoop} {r : Run} {a : Action} {currentTime : Nat}
    (run : s.run = some r) (pc : r.pc = .expiring currentTime)
    (h : expireStep s r currentTime a = some t) : RunStepped s a t := by
  cases a with
  | popTimer index =>
      simp only [expireStep] at h
      split at h
      · cases h
      next timer least =>
        split_ifs at h with due off <;> cases h
        · exact .discard r index currentTime timer run pc least due off
        · exact .expire r index currentTime timer run pc least due (Bool.eq_false_iff.mpr off)
  | expired =>
      simp only [expireStep] at h
      split_ifs at h with all
      cases h
      exact .expired r currentTime run pc all
  | call | loadStopping | loadClosed | send | cancel | setStopping | close | listen | run | recvTask
  | timer
  | signal | sleep | recvHandle | finish | checkStop | crash => cases h

theorem runStep_stepped {s t : TEventLoop} {a : Action} (h : runStep s a = some t) :
    RunStepped s a t := by
  simp only [runStep] at h
  split at h
  next idle =>
    split_ifs at h with start
    cases h
    exact start ▸ .run idle
  next r run =>
    split at h
    next pc => exact selectStep_stepped run pc h
    next currentTime pc => exact expireStep_stepped run pc h
    next handle pc =>
      split at h <;> cases h
      · exact .finish r handle run pc
      · exact .crash r handle run pc
    next pc =>
      split_ifs at h with check stop <;> cases h <;> subst check
      · exact .stops r run pc stop
      · exact .goesOn r run pc (Bool.eq_false_iff.mpr stop)

end TokioLoop.Scheduler
