import TokioLoop.LoopMachine

/-! One call of `run_until_complete` on top of the loop machine. The handle runner
catches what a callback raises, the Python exception handler may raise again, and the
done callback decides whether to stop: the three are joined in `Session.step`. A context
that `run_in_ctx` may not enter or leave sets an exception that nobody fetches, and the first
call of the done callback fails with it.

Of asyncio it is assumed that a future schedules its done callbacks with `call_soon`
when it is settled, and that a task step re-raises `SystemExit` and
`KeyboardInterrupt` after settling the task with them. -/
namespace TokioLoop.Loop

inductive Exc where
  | ordinary
  | cancelledError
  | systemExit
  | keyboardInterrupt
  deriving DecidableEq, Repr

/-- `isinstance(exc, (SystemExit, KeyboardInterrupt))` -/
def Exc.interrupts : Exc → Bool
  | .systemExit | .keyboardInterrupt => true
  | .ordinary | .cancelledError => false

inductive Outcome where
  | result
  | exception (exc : Exc)
  | cancelled
  deriving DecidableEq, Repr

/-- The exception a task step re-raises after settling its task. -/
def Outcome.reraised : Outcome → Option Exc
  | .exception exc => if exc.interrupts then some exc else none
  | .result | .cancelled => none

/-- `_run_until_complete_cb`: whether it calls `stop()`. -/
def runUntilCompleteCb : Outcome → Bool
  | .cancelled => true
  | .exception exc => !exc.interrupts
  | .result => true

/-- What the user's exception handler, if there is one, and the default handler raise. -/
structure Handlers where
  custom : Option (Option Exc)
  default : Option Exc
  deriving DecidableEq, Repr

/-- `_default_exception_handler` under the guard both call sites share. -/
def Handlers.guarded (h : Handlers) : Option Exc := h.default.filter Exc.interrupts

/-- `_exception_handler`: the exception it raises, if any. -/
def exceptionHandler (h : Handlers) : Option Exc :=
  match h.custom with
  | none => h.guarded
  | some none => none
  | some (some exc) => if exc.interrupts then some exc else h.guarded

/-- How `run_in_ctx` fares with the context of a handle: it enters and leaves it; it is the
current one already, cannot be entered again, but is left; or it is refused both times. An I/O
handle that calls no Python leaves a set exception where it is, as after a refused exit. -/
inductive Entering where
  | entered
  | current
  | refused
  deriving DecidableEq, Repr

inductive Callback where
  | taskStep
  | untilComplete
  | user
  deriving DecidableEq, Repr

inductive Phase where
  | checked
  | called
  | running
  | returned
  deriving DecidableEq, Repr

/-- `registered` says that the future holds `_run_until_complete_cb`, `seen` is the
outcome that callback was run with. `pending` says that an exception is set while no
callback runs. `logged` is what reached `log_exception`, and `dropped` what `log_exception`
returned as an error. -/
structure Session where
  loop : EventLoop Callback
  phase : Phase
  outcome : Option Outcome
  registered : Bool
  seen : Option Outcome
  reraise : Option Exc
  pending : Bool
  logged : List Exc
  dropped : List Exc

/-- `run_until_complete` past its checks, with a future that may be done already. -/
def Session.start (loop : EventLoop Callback) (outcome : Option Outcome) : Session where
  loop := loop
  phase := .checked
  outcome := outcome
  registered := false
  seen := none
  reraise := none
  pending := false
  logged := []
  dropped := []

/-- `Handle::run`: every error of the callback goes to `log_exception`, and every
error of `log_exception` is dropped. What a refused exit sets takes the place of the
callback's error, and stays if there is none. -/
def Session.handleRun (s : Session) (entering : Entering) (raised : Option Exc)
    (h : Handlers) : Session :=
  match raised with
  | none => { s with pending := entering == .refused }
  | some exc => { s with
      pending := false
      logged := s.logged ++ [if entering = .refused then .ordinary else exc]
      dropped := s.dropped ++ (exceptionHandler h).toList }

inductive SessionAction where
  | addDoneCallback (obj : Nat)
  | enter
  | leave
  | settle (thread obj : Nat) (outcome : Outcome)
  | finish (entering : Entering) (raised : Option Exc) (h : Handlers)
  | other (a : Action Callback)
  deriving DecidableEq, Repr

def Session.running (s : Session) : Option Callback :=
  match s.loop.pc with
  | .batch _ (some e) _ => some e.callback
  | _ => none

/-- Actions of the loop that the session does not take itself. -/
def Session.mayTake (s : Session) : Action Callback → Bool
  | .push _ _ callback => callback != .untilComplete
  | .later _ _ timer => timer.callback != .untilComplete
  | .dispatch handles _ => handles.all fun e => e.callback != .untilComplete
  | .run | .post => s.phase == .returned
  | .finish => false
  | _ => true

/-- The future hands its done callback to `call_soon`. -/
def Session.callSoon (s : Session) (thread obj : Nat) : Option Session :=
  (step s.loop (.push thread (.callSoon obj) .untilComplete)).map fun l => { s with loop := l }

/-- The future gets its outcome and gives up its done callbacks. -/
def Session.settled (s : Session) (o : Outcome) : Session :=
  { s with
    outcome := some o
    registered := false
    reraise := if s.running = some .taskStep then o.reraised else none }

/-- An exception is set while the callback of a handle with such a context runs. -/
def Session.disturbed (s : Session) (entering : Entering) : Bool :=
  s.pending || entering != .entered

/-- `_run_until_complete_cb` in its handle. Under an exception `fut.cancelled()` raises
`SystemError`. -/
def Session.untilComplete (s : Session) (entering : Entering) (h : Handlers)
    (o : Outcome) : Session :=
  let t := { s with seen := some o }
  if s.disturbed entering then t.handleRun entering (some .ordinary) h
  else if runUntilCompleteCb o then { t with loop := { s.loop with stopping := true } }.handleRun
    entering none h
  else t.handleRun entering none h

/-- The code of the running callback as far as it is the session's. -/
def Session.callback (s : Session) (entering : Entering) (raised : Option Exc)
    (h : Handlers) : Callback → Session
  | .untilComplete =>
      match s.outcome with
      | none => s.handleRun entering (some .ordinary) h
      | some o => s.untilComplete entering h o
  | .taskStep => { s.handleRun entering (s.reraise.or raised) h with reraise := none }
  | .user => s.handleRun entering raised h

def Session.step (s : Session) : SessionAction → Option Session
  | .addDoneCallback obj =>
      if s.phase = .checked then
        if s.outcome.isSome then (s.callSoon 0 obj).map fun t => { t with phase := .called }
        else some { s with registered := true, phase := .called }
      else none
  | .enter =>
      if s.phase = .called then (Loop.step s.loop .run).map fun l =>
        { s with loop := l, phase := .running }
      else none
  | .leave =>
      if s.phase = .running then
        (Loop.step s.loop .post).map fun l =>
            { s with loop := l, registered := false, phase := .returned }
      else none
  | .settle thread obj o =>
      if s.outcome.isSome then none
      else if s.registered then (s.settled o).callSoon thread obj
      else some (s.settled o)
  | .finish entering raised h =>
      match s.running with
      | some c =>
          let t := s.callback entering raised h c
          (Loop.step t.loop .finish).map fun l => { t with loop := l }
      | none => none
  | .other a =>
      if s.mayTake a then (Loop.step s.loop a).map fun l => { s with loop := l } else none

/-- The future is done, its done callback was run, nothing asked the loop to stop and
the `_run` of this call goes on. -/
structure Session.Stuck (s : Session) : Prop where
  done : s.outcome.isSome
  processed : s.seen.isSome
  asked : s.loop.stopping = false
  inside : s.phase = .running ∧ s.loop.pc ≠ .outside

/-- The condition on a step: the done callback is run when the loop is stopping already, or
with an outcome other than `SystemExit` and `KeyboardInterrupt` and no exception set. -/
def Ends (s : Session) : SessionAction → Prop
  | .finish entering _ _ => s.running = some .untilComplete → s.phase = .running → ∀ o ∈ s.outcome,
      s.loop.stopping = true ∨
        (o ≠ .exception .systemExit ∧ o ≠ .exception .keyboardInterrupt) ∧
        s.disturbed entering = false
  | _ => True

instance (s : Session) : (a : SessionAction) → Decidable (Ends s a)
  | .finish _ _ _ => inferInstanceAs (Decidable (_ → _ → ∀ o ∈ s.outcome, _))
  | .addDoneCallback _ | .enter | .leave | .settle _ _ _ | .other _ =>
      inferInstanceAs (Decidable True)

/-- Before `_run` the done callback was not run, and while it goes on nothing but that
callback and the code of others decides whether the loop is stopping. -/
structure Session.Inv (s : Session) : Prop where
  early : s.phase = .checked ∨ s.phase = .called → s.loop.pc = .outside ∧ s.seen = none
  same : ∀ o, s.seen = some o → s.outcome = some o

theorem callStep_frame {α : Type} {s t : EventLoop α} {a : Action α} (h : callStep s a = some t) :
    t.pc = s.pc ∧ (s.stopping = true → t.stopping = true) := by
  cases callStep_stepped h with
  | push | count | wake | later | cancel => exact ⟨rfl, id⟩
  | stop => exact ⟨rfl, fun _ => rfl⟩

theorem loopStep_outside {α : Type} {s t : EventLoop α} {a : Action α} (h : loopStep s a = some t)
    (notRun : a ≠ .run) (outside : s.pc = .outside) : t.pc = .outside := by
  cases a <;> simp only [loopStep, outside] at h <;> cases h
  case run => exact absurd rfl notRun
  case post => rfl

theorem step_outside {α : Type} {s t : EventLoop α} {a : Action α} (h : step s a = some t)
    (notRun : a ≠ .run) (outside : s.pc = .outside) : t.pc = .outside := by
  rcases Option.or_eq_some_iff.mp h with hcall | ⟨_, hloop⟩
  · rw [(callStep_frame hcall).1, outside]
  · exact loopStep_outside hloop notRun outside

/-- A loop action inside a session, other than the ends of `_run_forever`. -/
theorem Session.Inv.takes {s : Session} (inv : s.Inv) {a : Action Callback} {l : EventLoop Callback}
    (h : Loop.step s.loop a = some l) (notRun : a ≠ .run) : { s with loop := l }.Inv where
  early phase := ⟨step_outside h notRun (inv.early phase).1, (inv.early phase).2⟩
  same := inv.same

theorem Session.Inv.callSoon {s t : Session} (inv : s.Inv) {thread obj : Nat}
    (h : s.callSoon thread obj = some t) : t.Inv ∧ t.phase = s.phase := by
  obtain ⟨l, hl, rfl⟩ := Option.map_eq_some_iff.mp h
  exact ⟨inv.takes hl (by simp), rfl⟩

theorem Session.handleRun_frame (s : Session) (entering : Entering) (raised : Option Exc)
    (h : Handlers) : (s.handleRun entering raised h).loop = s.loop ∧
    (s.handleRun entering raised h).phase = s.phase ∧
      (s.handleRun entering raised h).outcome = s.outcome ∧
      (s.handleRun entering raised h).seen = s.seen := by
  cases raised <;> exact ⟨rfl, rfl, rfl, rfl⟩

theorem Session.running_inside {s : Session} {c : Callback} (h : s.running = some c) :
    s.loop.pc ≠ .outside := by
  intro outside
  simp [Session.running, outside] at h

/-- What the code of a callback leaves: only the done callback of a settled future looks at the
outcome, and stops the loop if the outcome and the exceptions that are set let it. -/
structure Session.Called (s : Session) (entering : Entering) (c : Callback)
    (t : Session) : Prop where
  phase : t.phase = s.phase
  outcome : t.outcome = s.outcome
  pc : t.loop.pc = s.loop.pc
  seen : t.seen = if c = .untilComplete then s.outcome.or s.seen else s.seen
  stopping : t.loop.stopping = true ↔ s.loop.stopping = true ∨ c = .untilComplete ∧
    s.disturbed entering = false ∧ ∃ o, s.outcome = some o ∧ runUntilCompleteCb o = true

theorem Session.callback_called (s : Session) (entering : Entering) (raised : Option Exc)
    (h : Handlers) (c : Callback) : s.Called entering c (s.callback entering raised h c) := by
  have frame := fun (t : Session) (raised : Option Exc) => t.handleRun_frame entering raised h
  cases c with
  | taskStep =>
      obtain ⟨loop, phase, outcome, seen⟩ := frame s (s.reraise.or raised)
      exact ⟨phase, outcome, congrArg EventLoop.pc loop, seen,
        by rw [show (s.callback entering raised h .taskStep).loop = s.loop from loop]; simp⟩
  | user =>
      obtain ⟨loop, phase, outcome, seen⟩ := frame s raised
      exact ⟨phase, outcome, congrArg EventLoop.pc loop, seen,
        by rw [show (s.callback entering raised h .user).loop = s.loop from loop]; simp⟩
  | untilComplete =>
      cases done : s.outcome with
      | none =>
          obtain ⟨loop, phase, outcome, seen⟩ := frame s (some .ordinary)
          simp only [Session.callback, done]
          exact ⟨phase, outcome, congrArg EventLoop.pc loop,
            by simpa [done] using seen, by rw [loop]; simp [done]⟩
      | some o =>
          simp only [Session.callback, done]
          simp only [Session.untilComplete]
          split_ifs with disturbed stops
          · obtain ⟨loop, phase, outcome, seen⟩ := frame { s with seen := some o } (some .ordinary)
            exact ⟨phase, outcome, congrArg EventLoop.pc loop, by simpa [done] using seen,
              by rw [loop]; simp [disturbed]⟩
          · obtain ⟨loop, phase, outcome, seen⟩ := frame { s with
              seen := some o, loop := { s.loop with stopping := true } } none
            refine ⟨phase, outcome, by rw [loop], by simpa [done] using seen, ?_⟩
            rw [loop]
            exact iff_of_true rfl (.inr ⟨rfl, Bool.eq_false_iff.mpr disturbed, o, done, stops⟩)
          · obtain ⟨loop, phase, outcome, seen⟩ := frame { s with seen := some o } none
            exact ⟨phase, outcome, congrArg EventLoop.pc loop, by simpa [done] using seen,
              by rw [loop]; simp [done, stops]⟩

theorem Session.Inv.callback {s t : Session} (inv : s.Inv) {c : Callback}
    (running : s.running = some c) {entering : Entering} (called : s.Called entering c t) :
    t.Inv := by
  refine ⟨fun phase => absurd (inv.early (called.phase ▸ phase)).1 (running_inside running),
    fun o seen => ?_⟩
  rw [called.outcome]
  rw [called.seen] at seen
  split_ifs at seen
  · rcases Option.or_eq_some_iff.mp seen with done | ⟨-, before⟩
    · exact done
    · exact inv.same o before
  · exact inv.same o seen

theorem Session.Inv.fresh {s : Session} (inv : s.Inv) (pending : ¬ s.outcome.isSome) :
    s.seen = none := by
  cases seen : s.seen with
  | none => rfl
  | some p => simp [inv.same p seen] at pending

theorem Session.Inv.settled {s : Session} (inv : s.Inv) (o : Outcome)
    (pending : ¬ s.outcome.isSome) : (s.settled o).Inv := by
  refine ⟨inv.early, ?_⟩
  intro p seen
  cases (inv.fresh pending).symm.trans seen

theorem Session.Inv.step {s t : Session} (inv : s.Inv) {a : SessionAction} (h : s.step a = some t) :
    t.Inv := by
  cases a with
  | addDoneCallback obj =>
      simp only [Session.step] at h
      split_ifs at h with phase done
      · obtain ⟨u, hu, rfl⟩ := Option.map_eq_some_iff.mp h
        obtain ⟨invu, samePhase⟩ := inv.callSoon hu
        exact ⟨fun _ => invu.early (.inl (samePhase.trans phase)), invu.same⟩
      · cases h
        exact ⟨fun _ => inv.early (.inl phase), inv.same⟩
  | enter =>
      simp only [Session.step] at h
      split_ifs at h with phase
      obtain ⟨l, hl, rfl⟩ := Option.map_eq_some_iff.mp h
      refine ⟨?_, inv.same⟩
      rintro (h | h) <;> cases h
  | leave =>
      simp only [Session.step] at h
      split_ifs at h with phase
      obtain ⟨l, hl, rfl⟩ := Option.map_eq_some_iff.mp h
      refine ⟨?_, inv.same⟩
      rintro (h | h) <;> cases h
  | settle thread obj o =>
      simp only [Session.step] at h
      split_ifs at h with done registered
      · exact ((inv.settled o done).callSoon h).1
      · cases h
        exact inv.settled o done
  | finish entering raised handlers =>
      simp only [Session.step] at h
      split at h
      next c running =>
        obtain ⟨l, hl, rfl⟩ := Option.map_eq_some_iff.mp h
        exact (inv.callback running (s.callback_called entering raised handlers c)).takes hl
          (by simp)
      · cases h
  | other a =>
      simp only [Session.step] at h
      split_ifs at h with may
      obtain ⟨l, hl, rfl⟩ := Option.map_eq_some_iff.mp h
      by_cases returned : s.phase = .returned
      · exact ⟨fun phase => (by simp [returned] at phase), inv.same⟩
      · refine inv.takes hl ?_
        rintro rfl
        simp [Session.mayTake, returned] at may

/-- A stuck session was stuck before a step that settles nothing, runs no done callback and
takes back no `stop()`. -/
theorem Session.Stuck.before {s t : Session} (stuck : t.Stuck) (outcome : t.outcome = s.outcome)
    (seen : t.seen = s.seen) (phase : t.phase = s.phase)
    (stopping : s.loop.stopping = true → t.loop.stopping = true)
    (pc : s.loop.pc = .outside → t.loop.pc = .outside) : s.Stuck where
  done := outcome ▸ stuck.done
  processed := seen ▸ stuck.processed
  asked := Bool.eq_false_iff.mpr fun asked => Bool.eq_false_iff.mp stuck.asked (stopping asked)
  inside := ⟨phase ▸ stuck.inside.1, fun outside => stuck.inside.2 (pc outside)⟩

end TokioLoop.Loop
