import Mathlib.Logic.Function.Basic
import TokioLoop.Lib.Raising
import TokioLoop.Lib.Runs

/-!
The calls that start, stop and close RLoop, as `loop.py` has them: methods that raise
and keep what they have done so far. Between the setup of a `run_forever` and its end
every other call may come, from callbacks and from other threads.

A thread is its identifier, which is not 0. The asynchronous generator hooks and the
running loop belong to a thread, the wakeup descriptor to the process.
-/
namespace TokioLoop.Lifecycle

open Runs

inductive Err where
  | runtimeError
  | unboundLocalError
  | osError
  deriving DecidableEq, Repr

/-- `asyncio`'s running loop of a thread. -/
inductive Running where
  | this
  | another
  deriving DecidableEq, Repr

/-- A `run_forever` in `_run`: its thread, its `_old_agen_hooks`, and the hooks there
were when it was called. -/
structure Frame (η : Type) where
  thread : Nat
  oldAgenHooks : η
  before : η

/-- `ssock` and `signals` belong to the Rust side: the two sockets, and the descriptors
with a `Signals` entry in `handles_io`. -/
structure Loop (η : Type) where
  closed : Bool
  stopping : Bool
  threadId : Nat
  ssockR : Option Nat
  ssockW : Option Nat
  ssock : Option (Nat × Nat)
  signals : Nat → Bool
  sigListening : Bool
  sigWfd : Int
  wakeupFd : Int
  hooks : Nat → η
  runningLoop : Nat → Option Running
  frame : Option (Frame η)

/-- What may go wrong while a run is set up: no socket pair, an error between the pair and
the registration of its first end, an error of `set_wakeup_fd`. -/
structure Setup where
  socketpair : Option (Nat × Nat)
  ssockSetFails : Bool
  ssockDelFails : Bool
  wakeupFails : Bool
  deriving DecidableEq

/-- What may go wrong at its end. -/
structure Teardown where
  wakeupFails : Bool
  ssockDelFails : Bool
  deriving DecidableEq

variable {η α : Type}

/-- Code that may raise; what it has done to the loop stays done. -/
abbrev Py (η α : Type) := Raising (Loop η) Err α

def failIf (fails : Bool) : Py η Unit := if fails then throw .osError else pure ()

def checkClosed : Py η Unit := do
  if (← get).closed then throw .runtimeError

def checkRunning (th : Nat) : Py η Unit := do
  if (← get).threadId ≠ 0 then throw .runtimeError
  if ((← get).runningLoop th).isSome then throw .runtimeError

/-- `_ssock_del`: the sockets are dropped at its end, if the poller gives the descriptor
up. -/
def ssockDel (fdR : Nat) (fails : Bool) : Py η Unit := do
  if (← get).signals fdR then
    modify fun s => { s with signals := Function.update s.signals fdR false }
    failIf fails
  modify fun s => { s with ssock := none }

/-- `_ssock_set`; the registration comes before the entry. -/
def ssockSet (fdR fdW : Nat) (fails : Bool) : Py η Unit := do
  modify fun s => { s with ssock := some (fdR, fdW) }
  failIf fails
  modify fun s => { s with signals := Function.update s.signals fdR true }

def ssockStart (env : Setup) : Py η Unit := do
  if (← get).ssockW.isSome then throw .runtimeError
  match env.socketpair with
  | none => throw .osError
  | some (r, w) =>
      modify fun s => { s with ssockR := some r, ssockW := some w }
      try ssockSet r w env.ssockSetFails
      catch e =>
        ssockDel r env.ssockDelFails
        modify fun s => { s with ssockR := none, ssockW := none }
        throw e

def ssockStop (env : Teardown) : Py η Unit := do
  match (← get).ssockR, (← get).ssockW with
  | some r, some _ =>
      ssockDel r env.ssockDelFails
      modify fun s => { s with ssockR := none, ssockW := none }
  | _, _ => throw .runtimeError

/-- `set_wakeup_fd`, which answers the descriptor before. -/
def setSigWfd (fd : Int) (fails : Bool) : Py η Int := do
  failIf fails
  let old := (← get).wakeupFd
  modify fun s => { s with wakeupFd := fd }
  return old

def signalsResume (main th : Nat) (env : Setup) : Py η Unit := do
  if th = main then
    if (← get).sigListening then throw .runtimeError
    match (← get).ssockW with
    | none => throw .runtimeError
    | some w =>
        let old ← setSigWfd w env.wakeupFails
        modify fun s => { s with sigWfd := old, sigListening := true }

def signalsPause (main th : Nat) (env : Teardown) : Py η Unit := do
  if th ≠ main then
    if (← get).sigListening then throw .runtimeError
  else
    if !(← get).sigListening then throw .runtimeError
    modify fun s => { s with sigListening := false }
    let _ ← setSigWfd (← get).sigWfd env.wakeupFails

def runForeverPre (main : Nat) (own : η) (th : Nat) (env : Setup) : Py η η := do
  checkClosed
  checkRunning th
  let oldAgenHooks := (← get).hooks th
  modify fun s => { s with hooks := Function.update s.hooks th own, threadId := th }
  ssockStart env
  signalsResume main th env
  modify fun s => { s with runningLoop := Function.update s.runningLoop th (some .this) }
  return oldAgenHooks

def runForeverPost (main th : Nat) (oldAgenHooks : η) (env : Teardown) : Py η Unit := do
  modify fun s => { s with runningLoop := Function.update s.runningLoop th none }
  signalsPause main th env
  ssockStop env
  modify fun s => { s with
    threadId := 0
    stopping := false
    hooks := Function.update s.hooks th oldAgenHooks }

/-- `run_forever` up to its `_run`. The `finally` clause needs `_old_agen_hooks`, which is
not bound if the setup raises. -/
def runForever (main : Nat) (own : η) (th : Nat) (env : Setup) : Py η Unit := do
  let before := (← get).hooks th
  try
    let oldAgenHooks ← runForeverPre main own th env
    modify fun s => { s with frame := some ⟨th, oldAgenHooks, before⟩ }
  catch _ => throw .unboundLocalError

/-- `_run` has returned or raised. -/
def finish (main : Nat) (f : Frame η) (env : Teardown) : Py η Unit := do
  modify fun s => { s with frame := none }
  runForeverPost main f.thread f.oldAgenHooks env

def signalsClear (main th : Nat) : Py η Unit := do
  if th = main then
    if (← get).sigListening then throw .runtimeError
    if (← get).ssockR.isSome then throw .runtimeError

/-- `close`, up to the shutdown of the executor. -/
def close (main th : Nat) : Py η Unit := do
  if (← get).threadId ≠ 0 then throw .runtimeError
  if !(← get).closed then
    modify fun s => { s with closed := true }
    signalsClear main th

def stop : Py η Unit := modify fun s => { s with stopping := true }

/-- `run_until_complete` up to its `run_forever`, which is a call of its own here; what
comes after it works on the future. -/
def runUntilComplete (th : Nat) : Py η Unit := do
  checkClosed
  checkRunning th

inductive Action (η : Type) where
  | runForever (th : Nat) (env : Setup)
  | runUntilComplete (th : Nat)
  | finish (env : Teardown)
  | stop
  | close (th : Nat)
  | setAsyncgenHooks (th : Nat) (hooks : η)
  | anotherLoop (th : Nat) (running : Bool)

def step (main : Nat) (own : η) (s : Loop η) : Action η → Option (Loop η)
  | .runForever th env =>
      if th = 0 then none else some (Raising.call (runForever main own th env) s).2
  | .runUntilComplete th => some (Raising.call (runUntilComplete th) s).2
  | .finish env => s.frame.map fun f => (Raising.call (finish main f env) s).2
  | .stop => some (Raising.call Lifecycle.stop s).2
  | .close th => some (Raising.call (close main th) s).2
  | .setAsyncgenHooks th hooks => some { s with hooks := Function.update s.hooks th hooks }
  | .anotherLoop th running =>
      if s.runningLoop th = some .this then none
      else
        some { s with
          runningLoop := Function.update s.runningLoop th (if running then some .another
              else none) }

/-- The closed and running checks do not let a run of this thread pass. -/
def Loop.Rejects (s : Loop η) (th : Nat) : Prop :=
  s.closed = true ∨ s.threadId ≠ 0 ∨ (s.runningLoop th).isSome = true

instance (s : Loop η) (th : Nat) : Decidable (s.Rejects th) := by
  unfold Loop.Rejects
  infer_instance

/-- The lifecycle state after a run of a thread that had the hooks `before`. -/
structure Restored (s : Loop η) (th : Nat) (before : η) : Prop where
  threadId : s.threadId = 0
  stopping : s.stopping = false
  ssockR : s.ssockR = none
  ssockW : s.ssockW = none
  ssock : s.ssock = none
  sigListening : s.sigListening = false
  hooks : s.hooks th = before

/-- A rejected call raises `RuntimeError` and changes nothing, and a run that was not
rejected leaves the lifecycle state restored, whether its setup raises or its `_run`
ends. -/
def Restores (main : Nat) (own : η) (s : Loop η) : Action η → Prop
  | .runForever th env =>
      (s.Rejects th → Raising.call (runForever main own th env) s = (.error .runtimeError, s)) ∧
      ∀ e t, Raising.call (runForever main own th env) s = (.error e, t) → ¬ s.Rejects th →
        Restored t th (s.hooks th)
  | .runUntilComplete th =>
      s.Rejects th → Raising.call (runUntilComplete th) s = (.error .runtimeError, s)
  | .finish env =>
      ∀ f, s.frame = some f → Restored (Raising.call (finish main f env) s).2 f.thread f.before
  | _ => True

/-- `run_forever` is called only where its checks pass, and no step of the setup or of
the teardown raises. -/
def Undisturbed (main : Nat) (s : Loop η) : Action η → Prop
  | .runForever th env =>
      ¬ s.Rejects th ∧ env.socketpair.isSome = true ∧ env.ssockSetFails = false ∧
      (th = main → env.wakeupFails = false)
  | .finish env =>
      ∀ f, s.frame = some f → env.ssockDelFails = false ∧ (f.thread = main →
        env.wakeupFails = false)
  | _ => True

/-- No run is going on. -/
structure Idle (s : Loop η) : Prop where
  frame : s.frame = none
  threadId : s.threadId = 0
  ssockR : s.ssockR = none
  ssockW : s.ssockW = none
  ssock : s.ssock = none
  signals : s.signals = fun _ => false
  sigListening : s.sigListening = false

/-- The run of `f` is going on. -/
structure Busy (main : Nat) (s : Loop η) (f : Frame η) : Prop where
  frame : s.frame = some f
  threadId : s.threadId = f.thread
  thread : f.thread ≠ 0
  pair : ∃ r w, s.ssockR = some r ∧ s.ssockW = some w ∧ s.signals = Function.update
      (fun _ => false) r true
  sigListening : s.sigListening = decide (f.thread = main)
  hooks : f.oldAgenHooks = f.before

def Inv (main : Nat) (s : Loop η) : Prop := Idle s ∨ ∃ f, Busy main s f

variable {main th : Nat} {own : η} {s t : Loop η} {f : Frame η}

theorem call_failIf (fails : Bool) (s : Loop η) :
    Raising.call (failIf fails) s = (if fails then .error .osError else .ok (), s) := by
  cases fails <;> rfl

theorem call_checkClosed (s : Loop η) :
    Raising.call checkClosed s = (if s.closed = true then .error .runtimeError else .ok (), s) := by
  simp only [checkClosed, Raising.call_bind, Raising.call_get, Raising.andThen_ok]
  split <;> rfl

theorem call_runUntilComplete (th : Nat) (s : Loop η) :
    Raising.call (runUntilComplete th) s = (if s.Rejects th then .error .runtimeError
      else .ok (), s) := by
  simp only [runUntilComplete, checkRunning, Raising.call_bind, call_checkClosed, Loop.Rejects]
  by_cases closed : s.closed = true
  · simp [closed]
  · by_cases idle : s.threadId = 0
    · by_cases other : (s.runningLoop th).isSome = true
      · simp [closed, idle, other]
      · simp [closed, idle, other]
    · simp [closed, idle]

theorem call_ssockDel (r : Nat) (fails : Bool) (s : Loop η) :
    Raising.call (ssockDel r fails) s =
      if s.signals r = true ∧ fails = true then
        (.error .osError, { s with signals := Function.update s.signals r false })
      else (.ok (), { s with signals := Function.update s.signals r false, ssock := none }) := by
  simp only [ssockDel, Raising.call_bind, Raising.call_get, Raising.andThen_ok]
  cases there : s.signals r with
  | true => cases fails <;> simp [call_failIf]
  | false =>
      have same : Function.update s.signals r false = s.signals := by
        rw [← there, Function.update_eq_self]
      simp [same]

/-- What goes wrong while the self-socket is set up leaves the thread identifier alone. -/
theorem call_ssockStart (env : Setup) (unset : s.ssockW = none) :
    (∃ e t, Raising.call (ssockStart env) s = (.error e, t) ∧ t.threadId = s.threadId ∧
        (env.socketpair = none ∨ env.ssockSetFails = true)) ∨
      (env.ssockSetFails = false ∧ ∃ r w, env.socketpair = some (r, w) ∧ Raising.call
        (ssockStart env) s = (.ok (), { s with
          ssockR := some r, ssockW := some w, ssock := some (r, w)
          signals := Function.update s.signals r true })) := by
  simp only [ssockStart, Raising.call_bind, Raising.call_get, Raising.andThen_ok, unset,
    Option.isSome_none, Bool.false_eq_true, if_false]
  cases pair : env.socketpair with
  | none => exact .inl ⟨.osError, s, rfl, rfl, .inl rfl⟩
  | some ends =>
      obtain ⟨r, w⟩ := ends
      cases fails : env.ssockSetFails with
      | true =>
          refine .inl ?_
          simp only [ssockSet, Raising.call_bind, Raising.call_modify, Raising.andThen_ok,
            Raising.call_tryCatch, call_failIf, if_true, Raising.andThen_error,
            Raising.orElse_error, call_ssockDel, or_true, and_true]
          split
          · exact ⟨_, _, rfl, rfl⟩
          · exact ⟨_, _, rfl, rfl⟩
      | false =>
          refine .inr ⟨rfl, r, w, rfl, ?_⟩
          simp [ssockSet, call_failIf]

theorem call_setSigWfd (fd : Int) (fails : Bool) (s : Loop η) :
    Raising.call (setSigWfd fd fails) s =
      if fails = true then (.error .osError, s)
          else (.ok s.wakeupFd, { s with wakeupFd := fd }) := by
  simp only [setSigWfd, Raising.call_bind, call_failIf]
  cases fails with
  | true => rfl
  | false => rfl

theorem call_signalsResume (main th : Nat) (env : Setup) {w : Nat} (pair : s.ssockW = some w)
    (off : s.sigListening = false) :
    (∃ e, Raising.call (signalsResume main th env) s = (.error e, s) ∧ th = main ∧
      env.wakeupFails = true) ∨ ((th = main → env.wakeupFails = false) ∧
      ∃ old wakeup, Raising.call (signalsResume main th env) s =
        (.ok (), { s with sigWfd := old, wakeupFd := wakeup, sigListening := decide (th = main) }))
        := by
  by_cases here : th = main
  · simp only [signalsResume, here, if_true, Raising.call_bind, Raising.call_get,
      Raising.andThen_ok, pair, off, Bool.false_eq_true, if_false, call_setSigWfd]
    cases fails : env.wakeupFails with
    | true => exact .inl ⟨_, rfl, trivial, rfl⟩
    | false => exact .inr ⟨fun _ => rfl, _, _, rfl⟩
  · refine .inr ⟨fun same => absurd same here, s.sigWfd, s.wakeupFd, ?_⟩
    simp [signalsResume, here, ← off]

theorem call_signalsPause (main th : Nat) (env : Teardown)
    (on : s.sigListening = decide (th = main)) :
    (∃ e, Raising.call (signalsPause main th env) s = (.error e, { s with sigListening := false }) ∧
        th = main ∧ env.wakeupFails = true) ∨
      ((th = main → env.wakeupFails = false) ∧ ∃ wakeup, Raising.call (signalsPause main th env) s =
        (.ok (), { s with wakeupFd := wakeup, sigListening := false })) := by
  by_cases here : th = main
  · rw [decide_eq_true here] at on
    simp only [signalsPause, here, ne_eq, not_true_eq_false, if_false, Raising.call_bind,
      Raising.call_get, Raising.andThen_ok, on, Bool.not_true, Bool.false_eq_true,
      Raising.call_modify, call_setSigWfd]
    cases fails : env.wakeupFails with
    | true => exact .inl ⟨_, rfl, trivial, rfl⟩
    | false => exact .inr ⟨fun _ => rfl, _, rfl⟩
  · rw [decide_eq_false here] at on
    have same : s = { s with wakeupFd := s.wakeupFd, sigListening := false } := by rw [← on]
    refine .inr ⟨fun equal => absurd equal here, s.wakeupFd, ?_⟩
    rw [← same]
    simp [signalsPause, here, on]

theorem call_runForeverPre (main th : Nat) (own : η) (env : Setup) (s : Loop η) :
    Raising.call (runForeverPre main own th env) s =
      if s.Rejects th then (.error .runtimeError, s)
      else
        Raising.call (do
          ssockStart env
          signalsResume main th env
          modify fun s => { s with runningLoop := Function.update s.runningLoop th (some .this) }
          return s.hooks th) { s with hooks := Function.update s.hooks th own, threadId :=
              th } := by
  have checks := call_runUntilComplete th s
  simp only [runUntilComplete, Raising.call_bind, call_checkClosed] at checks
  simp only [runForeverPre, Raising.call_bind, call_checkClosed]
  by_cases closed : s.closed = true
  · have rejected : s.Rejects th := .inl closed
    simp [closed, rejected]
  · rw [if_neg closed, Raising.andThen_ok] at checks ⊢
    rw [Raising.call_bind, checks]
    split
    · rfl
    · simp only [Raising.call_bind, Raising.call_get, Raising.call_modify, Raising.andThen_ok]

/-- A rejected `run_forever` stops at its checks, and its `finally` clause has no
`_old_agen_hooks`. -/
theorem call_runForever_rejected (env : Setup) (rejected : s.Rejects th) :
    Raising.call (runForever main own th env) s = (.error .unboundLocalError, s) := by
  simp [runForever, call_runForeverPre, rejected]

/-- An accepted `run_forever` of an idle loop: if a step of its setup raises, then its
thread identifier stays. -/
theorem call_runForever_accepted (own : η) (env : Setup) (idle : Idle s) (nonzero : th ≠ 0)
    (accepted : ¬ s.Rejects th) :
    (∃ t, Raising.call (runForever main own th env) s = (.error .unboundLocalError, t) ∧
      t.threadId = th ∧
        ¬ Undisturbed main s (.runForever th env)) ∨
      (Undisturbed main s (.runForever th env) ∧
        ∃ t, Raising.call (runForever main own th env) s = (.ok (), t) ∧
        Busy main t ⟨th, s.hooks th, s.hooks th⟩) := by
  simp only [runForever, Raising.call_bind, Raising.call_get, Raising.andThen_ok,
    Raising.call_tryCatch, call_runForeverPre, if_neg accepted]
  rcases call_ssockStart (s := { s with hooks := Function.update s.hooks th own, threadId := th })
      env idle.ssockW with
    ⟨e, t, raised, kept, why⟩ | ⟨set, r, w, pair, started⟩
  · rw [raised]
    refine .inl ⟨t, rfl, kept, fun good => ?_⟩
    rcases why with none | fails
    · have pair := good.2.1
      rw [none] at pair
      cases pair
    · rw [good.2.2.1] at fails
      cases fails
  · rw [started, Raising.andThen_ok]
    rcases call_signalsResume (s := { s with
        hooks := Function.update s.hooks th own, threadId := th, ssockR := some r, ssockW := some w
        ssock := some (r, w), signals := Function.update s.signals r true }) main th env rfl
            idle.sigListening with
      ⟨e, raised, here, fails⟩ | ⟨fine, old, wakeup, resumed⟩
    · rw [Raising.call_bind, raised]
      refine .inl ⟨_, rfl, rfl, fun good => ?_⟩
      rw [good.2.2.2 here] at fails
      cases fails
    · rw [Raising.call_bind, resumed]
      refine .inr ⟨⟨accepted, by rw [pair]; rfl, set, fine⟩, _, rfl, ?_⟩
      exact ⟨rfl, rfl, nonzero, ⟨r, w, rfl, rfl, by rw [idle.signals]⟩, rfl, rfl⟩

/-- The end of a run: if a step of the teardown raises, then its thread identifier
stays. -/
theorem call_finish (env : Teardown) (busy : Busy main s f) :
    (∃ e t, Raising.call (finish main f env) s = (.error e, t) ∧ t.threadId = f.thread ∧
        ¬ Undisturbed main s (.finish env)) ∨
      (Undisturbed main s (.finish env) ∧ ∃ t, Raising.call (finish main f env) s = (.ok (), t) ∧
        Idle t ∧ Restored t f.thread f.before) := by
  obtain ⟨r, w, ssockR, ssockW, signals⟩ := busy.pair
  simp only [finish, runForeverPost, Raising.call_bind, Raising.call_modify, Raising.andThen_ok]
  rcases call_signalsPause (s := { s with
      frame := none
      runningLoop := Function.update s.runningLoop f.thread none }) main f.thread env
          busy.sigListening with
    ⟨e, raised, here, fails⟩ | ⟨fine, wakeup, paused⟩
  · rw [raised, Raising.andThen_error]
    refine .inl ⟨e, _, rfl, busy.threadId, fun good => ?_⟩
    rw [(good f busy.frame).2 here] at fails
    cases fails
  · rw [paused, Raising.andThen_ok]
    simp only [ssockStop, Raising.call_bind, Raising.call_get, Raising.andThen_ok, ssockR, ssockW,
      call_ssockDel, signals, Function.update_self, true_and]
    cases fails : env.ssockDelFails with
    | true =>
        refine .inl ⟨.osError, _, rfl, busy.threadId, fun good => ?_⟩
        rw [(good f busy.frame).1] at fails
        cases fails
    | false =>
        refine .inr ⟨fun g same => ?_, _, rfl, ?_, ?_⟩
        · cases busy.frame.symm.trans same
          exact ⟨fails, fine⟩
        · refine ⟨rfl, rfl, rfl, rfl, rfl, ?_, rfl⟩
          funext fd
          by_cases same : fd = r
          · simp [same]
          · simp [same]
        · refine ⟨rfl, rfl, rfl, rfl, rfl, rfl, ?_⟩
          simp [busy.hooks]

/-- `close` leaves all but the `closed` flag as it was. -/
theorem call_close (main th : Nat) (s : Loop η) :
    ∃ closed, (Raising.call (close main th) s).2 = { s with closed := closed } := by
  simp only [close, signalsClear, Raising.call_bind, Raising.call_get, Raising.andThen_ok]
  by_cases idle : s.threadId = 0
  · by_cases closed : s.closed = true
    · refine ⟨s.closed, (?_ : _ = s)⟩
      simp [idle, closed]
    · refine ⟨true, ?_⟩
      by_cases here : th = main
      · cases on : s.sigListening <;> cases pair : s.ssockR <;> simp [idle, closed, here, on, pair]
      · simp [idle, closed, here]
  · refine ⟨s.closed, (?_ : _ = s)⟩
    simp [idle]

theorem Busy.rejects (busy : Busy main s f) (th : Nat) : s.Rejects th :=
  .inr (.inl (busy.threadId.trans_ne busy.thread))

/-- A step that touches neither the self-socket nor the run keeps both phases. -/
theorem Inv.congr (inv : Inv main s)
    (same : (t.frame, t.threadId, t.ssockR, t.ssockW, t.ssock, t.signals, t.sigListening) =
      (s.frame, s.threadId, s.ssockR, s.ssockW, s.ssock, s.signals, s.sigListening)) :
      Inv main t := by
  simp only [Prod.mk.injEq] at same
  obtain ⟨frame, threadId, ssockR, ssockW, ssock, signals, listening⟩ := same
  rcases inv with idle | ⟨f, busy⟩
  · exact .inl ⟨frame.trans idle.frame, threadId.trans idle.threadId, ssockR.trans idle.ssockR,
      ssockW.trans idle.ssockW, ssock.trans idle.ssock, signals.trans idle.signals,
      listening.trans idle.sigListening⟩
  · obtain ⟨r, w, read, write, entry⟩ := busy.pair
    exact .inr ⟨f, frame.trans busy.frame, threadId.trans busy.threadId, busy.thread,
      ⟨r, w, ssockR.trans read, ssockW.trans write, signals.trans entry⟩,
      listening.trans busy.sigListening, busy.hooks⟩

theorem step_inv (s : Loop η) (a : Action η) (t : Loop η) (inv : Inv main s)
    (good : Undisturbed main s a) (h : step main own s a = some t) : Inv main t := by
  cases a with
  | runForever th env =>
      obtain ⟨nonzero, rfl⟩ := Option.ite_none_left_eq_some.mp h |>.imp_right Option.some.inj
      rcases inv with idle | ⟨f, busy⟩
      · rcases call_runForever_accepted own env idle nonzero good.1 with
          ⟨_, -, -, bad⟩ | ⟨-, t, entered, running⟩
        · exact absurd good bad
        · rw [entered]
          exact .inr ⟨_, running⟩
      · exact absurd (busy.rejects th) good.1
  | runUntilComplete th =>
      cases h
      rw [call_runUntilComplete]
      exact inv
  | finish env =>
      obtain ⟨f, frame, rfl⟩ := Option.map_eq_some_iff.mp h
      rcases inv with idle | ⟨g, busy⟩
      · rw [idle.frame] at frame
        cases frame
      · cases busy.frame.symm.trans frame
        rcases call_finish env busy with ⟨_, _, -, -, bad⟩ | ⟨-, t, left, idle, -⟩
        · exact absurd good bad
        · rw [left]
          exact .inl idle
  | stop =>
      cases h
      exact inv.congr rfl
  | close th =>
      cases h
      obtain ⟨closed, same⟩ := call_close main th s
      rw [same]
      exact inv.congr rfl
  | setAsyncgenHooks th hooks =>
      cases h
      exact inv.congr rfl
  | anotherLoop th running =>
      obtain ⟨-, rfl⟩ := Option.ite_none_left_eq_some.mp h |>.imp_right Option.some.inj
      exact inv.congr rfl

theorem step_restores_iff (s : Loop η) (a : Action η) (t : Loop η) (inv : Inv main s)
    (h : step main own s a = some t) : Undisturbed main s a ↔ Restores main own s a := by
  cases a with
  | runForever th env =>
      obtain ⟨nonzero, -⟩ := Option.ite_none_left_eq_some.mp h
      by_cases rejected : s.Rejects th
      · refine iff_of_false (fun good => good.1 rejected) fun restores => ?_
        have raised := restores.1 rejected
        rw [call_runForever_rejected env rejected] at raised
        cases raised
      · have idle : Idle s := inv.resolve_right fun ⟨f, busy⟩ => rejected (busy.rejects th)
        rcases call_runForever_accepted own env idle nonzero rejected with
          ⟨t, raised, leaked, bad⟩ | ⟨good, t, entered, -⟩
        · refine iff_of_false bad fun restores => ?_
          exact nonzero (leaked.symm.trans (restores.2 _ _ raised rejected).threadId)
        · refine iff_of_true good ⟨fun rejects => absurd rejects rejected, fun e u raised => ?_⟩
          rw [entered] at raised
          cases raised
  | runUntilComplete th =>
      refine iff_of_true trivial fun rejected => ?_
      rw [call_runUntilComplete, if_pos rejected]
  | finish env =>
      obtain ⟨f, frame, -⟩ := Option.map_eq_some_iff.mp h
      rcases inv with idle | ⟨g, busy⟩
      · rw [idle.frame] at frame
        cases frame
      · cases busy.frame.symm.trans frame
        rcases call_finish env busy with ⟨e, t, raised, leaked, bad⟩ | ⟨good, t, left, -, restored⟩
        · refine iff_of_false bad fun restores => busy.thread ?_
          have clear := (restores f frame).threadId
          rw [raised] at clear
          exact leaked.symm.trans clear
        · refine iff_of_true good fun g same => ?_
          cases frame.symm.trans same
          rw [left]
          exact restored
  | stop | close _ | setAsyncgenHooks _ _ | anotherLoop _ _ => exact Iff.rfl

/-- In every sequence of calls the lifecycle state is restored by each run and kept by
each rejected call, exactly when no `run_forever` is rejected by its own checks and no
step of a setup or of a teardown raises. -/
theorem lifecycle_restored_iff {actions : List (Action η)} (start : Idle s)
    (h : run (step main own) s actions = some t) :
    Guarded (step main own) (Restores main own) s actions ↔
    Guarded (step main own) (Undisturbed main) s actions :=
  (guarded_congr_kept step_inv step_restores_iff h (.inl start)).symm

/-- A new loop; every thread has these hooks. -/
def Loop.new (hooks : η) : Loop η :=
  ⟨false, false, 0, none, none, none, fun _ => false, false, -1, -1, fun _ => hooks, fun _ =>
    none, none⟩

theorem new_idle (hooks : η) : Idle (Loop.new hooks) := ⟨rfl, rfl, rfl, rfl, rfl, rfl, rfl⟩

/-- A run in the main thread, stopped from another one, and then the loop is closed. -/
theorem lifecycle_restored_stopped :
    Guarded (step 1 true) (Restores 1 true) (Loop.new false)
      [.runUntilComplete 1, .runForever 1 ⟨some (5, 6), false, false, false⟩, .stop,
        .finish ⟨false, false⟩, .close 1] := by
  refine (lifecycle_restored_iff (new_idle false) rfl).mpr ?_
  refine guarded_cons rfl trivial (guarded_cons rfl ?_
    (guarded_cons rfl trivial (guarded_cons rfl ?_ (guarded_cons rfl trivial trivial))))
  · exact ⟨by decide, rfl, rfl, fun _ => rfl⟩
  · exact fun f _ => ⟨rfl, fun _ => rfl⟩

/-- `run_forever` on a closed loop raises `UnboundLocalError`. -/
theorem rejected_run_raises_unbound :
    ¬ ∀ (s t : Loop Bool) (actions : List (Action Bool)),
    Idle s → run (step 1 true) s actions = some t →
      Guarded (step 1 true) (Restores 1 true) s actions := by
  intro claim
  have whole : Guarded (step 1 true) (Restores 1 true) (Loop.new false)
      ([.close 1] ++ [.runForever 1 ⟨some (5, 6), false, false, false⟩]) :=
      claim _ _ _ (new_idle false) rfl
  have rejected := (whole.next rfl).1 (.inl rfl)
  cases rejected

end TokioLoop.Lifecycle
