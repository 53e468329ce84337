import Mathlib.Data.List.Nodup

/-!
The callback handles of both loops: what their entry points store and how they call it. A
handle has its arguments as one tuple, none or one argument, and its context; the macros
`run_in_ctx` enter the context, call and leave it, and ignore whether that worked.

A context is entered at most once at a time, by whatever thread; one that is entered is
refused, and only the current one can be left. What is refused sets an exception that nobody
fetches: it is pending during the next call, and a callable that returns under it has failed.
-/
namespace TokioLoop.Contexts

/-- A Python object, as far as calls look at it. -/
inductive Obj where
  | other (id : Nat)
  | tuple (items : List Obj)

abbrev Ctx := Nat

/-- The contexts entered in the loop's thread, the current one first, and those entered in
other threads. -/
structure Thread where
  stack : List Ctx
  elsewhere : Ctx → Bool
  once : stack.Nodup

def Thread.current (w : Thread) : Option Ctx := w.stack.head?

def Thread.Entered (w : Thread) (ctx : Ctx) : Prop := ctx ∈ w.stack ∨ w.elsewhere ctx = true

instance (w : Thread) (ctx : Ctx) : Decidable (w.Entered ctx) := inferInstanceAs (Decidable (_ ∨ _))

/-- `PyContext_Enter` -/
def contextEnter (w : Thread) (ctx : Ctx) : Thread :=
  if h : w.Entered ctx then w
  else { w with stack := ctx :: w.stack, once := List.nodup_cons.mpr ⟨fun there => h (.inl there),
    w.once⟩ }

/-- `PyContext_Exit` -/
def contextExit (w : Thread) (ctx : Ctx) : Thread :=
  if w.current = some ctx then { w with stack := w.stack.tail, once := w.once.tail } else w

inductive Error where
  | raised (id : Nat)
  | runtimeError
  | systemError
  | typeError
  deriving DecidableEq

/-- How the code of a callable ends; `cleared` says that an exception which was pending is
gone. -/
inductive Result where
  | returns (cleared : Bool)
  | raises (err : Error)
  deriving DecidableEq

def Result.errors : Result → List Error
  | .returns _ => []
  | .raises err => [err]

/-- A callable, with its arguments, the thread and the exception that is pending. It leaves
the contexts of its thread as it found them. -/
structure Callable where
  id : Nat
  body : List Obj → Thread → Option Error → Thread × Result
  balanced : ∀ args w pending, (body args w pending).1.stack = w.stack

/-- A call of a callback: its arguments, the current context and the pending exception, and
how it ended. -/
structure Invocation where
  callback : Callable
  args : List Obj
  context : Option Ctx
  pending : Option Error
  result : Result

/-- What the loop sees of its callbacks: the calls and the exceptions it logs. -/
structure World where
  thread : Thread
  pending : Option Error
  invoked : List Invocation
  logged : List (Callable × Error)

/-- A call with the check of its result. The flag says that it gives no object. -/
def call (cb : Callable) (args : List Obj) (w : World) : World × Bool :=
  let (thread, result) := cb.body args w.thread w.pending
  let invoked := w.invoked ++ [⟨cb, args, w.thread.current, w.pending, result⟩]
  match result with
  | .raises err => ({ w with thread, invoked, pending := some err }, true)
  | .returns cleared =>
      if w.pending.isNone || cleared then ({ w with thread, invoked, pending := none }, false)
      else ({ w with thread, invoked, pending := some .systemError }, true)

def callNoArgs (cb : Callable) (w : World) : World × Bool := call cb [] w

def callOneArg (cb : Callable) (arg : Obj) (w : World) : World × Bool := call cb [arg] w

/-- `PyObject_CallObject`: anything but a tuple is a `TypeError`. -/
def callObject (cb : Callable) (args : Obj) (w : World) : World × Bool :=
  match args with
  | .tuple items => call cb items w
  | .other _ => ({ w with pending := some .typeError }, true)

def World.enter (w : World) (ctx : Ctx) : World :=
  { w with
    thread := contextEnter w.thread ctx
    pending := if w.thread.Entered ctx then some .runtimeError else w.pending }

def World.exit (w : World) (ctx : Ctx) : World :=
  { w with
    thread := contextExit w.thread ctx
    pending := if w.thread.current = some ctx then w.pending else some .runtimeError }

/-- The macros: enter, call, exit. -/
def runIn (ctx : Ctx) (f : World → World × Bool) (w : World) : World × Bool :=
  let (w, null) := f (w.enter ctx)
  (w.exit ctx, null)

def runInCtx0 (ctx : Ctx) (cb : Callable) : World → World × Bool := runIn ctx (callNoArgs cb)

def runInCtx1 (ctx : Ctx) (cb : Callable) (arg : Obj) : World → World × Bool :=
  runIn ctx (callOneArg cb arg)

def runInCtx (ctx : Ctx) (cb : Callable) (args : Obj) : World → World × Bool :=
  runIn ctx (callObject cb args)

/-- `CBHandle`, `CBHandleNoArgs` and `CBHandleOneArg`, which the Tokio loop has under the
names `TCBHandle` and so on. -/
inductive Handle where
  | cb (callback : Callable) (args : Obj) (context : Ctx)
  | noArgs (callback : Callable) (context : Ctx)
  | oneArg (callback : Callable) (arg : Obj) (context : Ctx)

def Handle.new (callback : Callable) (args : Obj) (context : Ctx) : Handle :=
  .cb callback args context

def Handle.new0 (callback : Callable) (context : Ctx) : Handle := .noArgs callback context

def Handle.new1 (callback : Callable) (arg : Obj) (context : Ctx) : Handle :=
  .oneArg callback arg context

def Handle.callback : Handle → Callable
  | .cb callback _ _ | .noArgs callback _ | .oneArg callback _ _ => callback

/-- `from_owned_ptr_or_err`, which fetches the exception if there is no object, and
`log_exception`. -/
def Handle.logs (h : Handle) (r : World × Bool) : World :=
  if r.2 then
    { r.1 with pending := none, logged :=
        r.1.logged ++ [(h.callback, r.1.pending.getD .systemError)] }
  else r.1

/-- `Handle::run`; on PyPy a single argument goes into a tuple. -/
def Handle.run (pypy : Bool) (h : Handle) (w : World) : World :=
  h.logs <| match h with
    | .cb callback args context => runInCtx context callback args w
    | .noArgs callback context => runInCtx0 context callback w
    | .oneArg callback arg context =>
        if pypy then runInCtx context callback (.tuple [arg]) w
          else runInCtx1 context callback arg w

/-- `THandle::run`: a `TCBHandle` does not enter its context. -/
def Handle.runTokio (pypy : Bool) (h : Handle) (w : World) : World :=
  h.logs <| match h with
    | .cb callback args _ => callObject callback args w
    | .noArgs callback context => runInCtx0 context callback w
    | .oneArg callback arg context =>
        if pypy then runInCtx context callback (.tuple [arg]) w
          else runInCtx1 context callback arg w

/-- The context a loop was made with, and the copy of the current one that `copy_context`
gives. -/
structure Site where
  baseCtx : Ctx
  copied : Ctx

/-- A handle for the ready queue, or for the timers after a delay. -/
structure Scheduled where
  handle : Handle
  delay : Option Nat

section EventLoop
variable (s : Site) (callback : Callable) (context : Option Ctx)

def schedule0 : Scheduled := ⟨.new0 callback (context.getD s.baseCtx), none⟩

def schedule1 (arg : Obj) : Scheduled := ⟨.new1 callback arg (context.getD s.baseCtx), none⟩

/-- It makes the handle of `schedule1`. -/
def schedule (args : Obj) : Scheduled := ⟨.new1 callback args (context.getD s.baseCtx), none⟩

def scheduleLater0 (delay : Nat) : Scheduled :=
  ⟨.new0 callback (context.getD s.baseCtx), some delay⟩

def scheduleLater1 (delay : Nat) (arg : Obj) : Scheduled :=
  ⟨.new1 callback arg (context.getD s.baseCtx), some delay⟩

def scheduleLater (delay : Nat) (args : Obj) : Scheduled :=
  ⟨.new callback args (context.getD s.baseCtx), some delay⟩

def callSoon (args : Obj) : Scheduled := ⟨.new callback args (context.getD s.copied), none⟩

def callSoonThreadsafe (args : Obj) : Scheduled :=
  ⟨.new callback args (context.getD s.baseCtx), none⟩

end EventLoop

def callLater (callback : Callable) (delay : Nat) (args : Obj) (context : Ctx) : Scheduled :=
  ⟨.new callback args context, some delay⟩

namespace Tokio

variable (s : Site) (callback : Callable) (context : Option Ctx)

def schedule (args : Obj) : Scheduled := ⟨.new callback args (context.getD s.baseCtx), none⟩

def callSoonThreadsafe (args : Obj) : Scheduled :=
  ⟨.new callback args (context.getD s.copied), none⟩

end Tokio

/-- An entry point with the arguments it is given. -/
inductive Entry where
  | schedule0
  | schedule1 (arg : Obj)
  | schedule (args : List Obj)
  | scheduleLater0 (delay : Nat)
  | scheduleLater1 (delay : Nat) (arg : Obj)
  | scheduleLater (delay : Nat) (args : List Obj)
  | callSoon (args : List Obj)
  | callSoonThreadsafe (args : List Obj)
  | callLater (delay : Nat) (args : List Obj)

def Entry.args : Entry → List Obj
  | .schedule0 | .scheduleLater0 _ => []
  | .schedule1 arg | .scheduleLater1 _ arg => [arg]
  | .schedule args | .scheduleLater _ args | .callSoon args | .callSoonThreadsafe args | .callLater
      _ args => args

inductive LoopKind where
  | rloop
  | tokio
  deriving DecidableEq

/-- The context of a callback scheduled without one; `call_later` copies it before it calls
`_call_later`. -/
def Entry.default (l : LoopKind) (s : Site) : Entry → Ctx
  | .callSoon _ | .callLater _ _ => s.copied
  | .callSoonThreadsafe _ => if l = .rloop then s.baseCtx else s.copied
  | _ => s.baseCtx

/-- The context a callback is scheduled with. -/
def Entry.context (l : LoopKind) (s : Site) (e : Entry) (context : Option Ctx) : Ctx :=
  context.getD (e.default l s)

/-- The two loops differ in `schedule` and in the default of `call_soon_threadsafe`. -/
def Entry.scheduled (l : LoopKind) (s : Site) (callback : Callable) (context : Option Ctx)
    (e : Entry) : Scheduled :=
  match e with
  | .schedule0 => Contexts.schedule0 s callback context
  | .schedule1 arg => Contexts.schedule1 s callback context arg
  | .schedule args =>
      match l with
      | .rloop => Contexts.schedule s callback context (.tuple args)
      | .tokio => Tokio.schedule s callback context (.tuple args)
  | .scheduleLater0 delay => Contexts.scheduleLater0 s callback context delay
  | .scheduleLater1 delay arg => Contexts.scheduleLater1 s callback context delay arg
  | .scheduleLater delay args => Contexts.scheduleLater s callback context delay (.tuple args)
  | .callSoon args => Contexts.callSoon s callback context (.tuple args)
  | .callSoonThreadsafe args =>
      match l with
      | .rloop => Contexts.callSoonThreadsafe s callback context (.tuple args)
      | .tokio => Tokio.callSoonThreadsafe s callback context (.tuple args)
  | .callLater delay args => Contexts.callLater callback delay (.tuple args) (e.context l s context)

def LoopKind.run (l : LoopKind) (pypy : Bool) (h : Handle) (w : World) : World :=
  match l with
  | .rloop => h.run pypy w
  | .tokio => h.runTokio pypy w

/-- The handle calls its callback once, with these arguments in this context and no exception
pending. What the callback raises is logged and nothing else, the context current before is
current again, and no exception is left. -/
structure Invokes (callback : Callable) (args : List Obj) (ctx : Ctx) (w w' : World) : Prop where
  once : ∃ result, w'.invoked = w.invoked ++ [⟨callback, args, some ctx, none, result⟩] ∧
    w'.logged = w.logged ++ result.errors.map (callback, ·)
  restored : w'.thread.current = w.thread.current
  settled : w'.pending = none

/-- The entry point stores the arguments as a tuple to be spread. -/
def Entry.spreads : Entry → Bool
  | .schedule _ | .scheduleLater _ _ | .callSoon _ | .callSoonThreadsafe _ | .callLater _ _ => true
  | _ => false

/-- The condition. No exception is pending. On RLoop the entry point is not `schedule`; on
Tokio the context of a tuple of arguments is current as it is. Otherwise no one has entered
it. -/
def Suits (l : LoopKind) (e : Entry) (ctx : Ctx) (w : World) : Prop :=
  (match l with
    | .rloop => (∀ args, e ≠ .schedule args) ∧ ¬ w.thread.Entered ctx
    | .tokio => if e.spreads then w.thread.current = some ctx else ¬ w.thread.Entered ctx) ∧
  w.pending = none

variable {cb : Callable} {args : List Obj} {ctx : Ctx} {w w' : World}

@[simp] theorem logs_invoked (h : Handle) (r : World × Bool) :
    (h.logs r).invoked = r.1.invoked := by
  rw [Handle.logs]
  split_ifs <;> rfl

@[simp] theorem logs_thread (h : Handle) (r : World × Bool) : (h.logs r).thread = r.1.thread := by
  rw [Handle.logs]
  split_ifs <;> rfl

theorem call_invoked (cb : Callable) (args : List Obj) (w : World) : (call cb args w).1.invoked =
    w.invoked ++ [⟨cb, args, w.thread.current, w.pending,
      (cb.body args w.thread w.pending).2⟩] := by
  simp only [call]
  split
  · rfl
  · split_ifs <;> rfl

theorem call_thread (cb : Callable) (args : List Obj) (w : World) :
    (call cb args w).1.thread = (cb.body args w.thread w.pending).1 := by
  simp only [call]
  split
  · rfl
  · split_ifs <;> rfl

/-- Without a pending exception the call ends as the callable does. -/
theorem call_quiet {w : World} (quiet : w.pending = none) (cb : Callable) (args : List Obj) :
    (call cb args w).1.pending = (cb.body args w.thread w.pending).2.errors.head? ∧
      (call cb args w).2 = (cb.body args w.thread w.pending).2.errors.head?.isSome ∧
      (call cb args w).1.logged = w.logged := by
  simp only [call, quiet]
  split
  next err raises => simp [raises, Result.errors]
  next cleared returns => simp [returns, Result.errors]

/-- The exception of a call is logged, and none is left. -/
theorem logs_errors {r : World × Bool} {errors : List Error} (one : errors.length ≤ 1) (h : Handle)
    (pending : r.1.pending = errors.head?) (null : r.2 = errors.head?.isSome) :
    (h.logs r).logged = r.1.logged ++ errors.map (h.callback, ·) ∧ (h.logs r).pending = none := by
  match errors with
  | [] => simp [Handle.logs, null, pending]
  | [err] => simp [Handle.logs, null, pending]
  | _ :: _ :: _ => simp at one

theorem Result.errors_length (r : Result) : r.errors.length ≤ 1 := by
  cases r with
  | returns => exact Nat.zero_le 1
  | raises => exact Nat.le_refl 1

theorem contextEnter_free {w : Thread} (free : ¬ w.Entered ctx) :
    (contextEnter w ctx).stack = ctx :: w.stack := by
  rw [contextEnter, dif_neg free]

/-- The context on top is left by the exit. -/
theorem contextExit_top {w : Thread} {stack : List Ctx} (top : w.stack = ctx :: stack) :
    (contextExit w ctx).current = stack.head? := by
  have current : w.current = some ctx := congrArg List.head? top
  rw [contextExit, if_pos current]
  exact congrArg (List.head? ∘ List.tail) top

/-- The macros invoke the callback exactly if the context was free and no exception was
pending. -/
theorem runIn_invokes_iff {given : List Obj} {h : Handle} (own : h.callback = cb) :
    Invokes cb args ctx w (h.logs (runIn ctx (call cb given) w)) ↔
      given = args ∧ ¬ w.thread.Entered ctx ∧ w.pending = none := by
  have calls : (h.logs (runIn ctx (call cb given) w)).invoked = w.invoked ++ [⟨cb, given,
      (contextEnter w.thread ctx).current, if w.thread.Entered ctx then some .runtimeError
      else w.pending, (cb.body given (contextEnter w.thread ctx) (w.enter ctx).pending).2⟩] :=
    (logs_invoked _ _).trans (call_invoked cb given (w.enter ctx))
  constructor
  · rintro ⟨⟨result, once, -⟩, -, -⟩
    have last := List.singleton_inj.mp (List.append_cancel_left (calls.symm.trans once))
    have none : (if w.thread.Entered ctx then some Error.runtimeError else w.pending) = none :=
      congrArg Invocation.pending last
    split_ifs at none with entered
    exact ⟨congrArg Invocation.args last, entered, none⟩
  · rintro ⟨rfl, free, quiet⟩
    have enters : (w.enter ctx).pending = none := (if_neg free).trans quiet
    obtain ⟨pending, null, logged⟩ := call_quiet enters cb given
    -- the callable leaves the context on top, so that the exit is not refused
    have top : (call cb given (w.enter ctx)).1.thread.stack = ctx :: w.thread.stack := by
      rw [call_thread, cb.balanced]
      exact contextEnter_free free
    have current : (call cb given (w.enter ctx)).1.thread.current = some ctx :=
      congrArg List.head? top
    have exits : (runIn ctx (call cb given) w).1.pending =
      (call cb given (w.enter ctx)).1.pending := if_pos current
    obtain ⟨logs, settled⟩ := logs_errors (Result.errors_length _) h (exits.trans pending) null
    refine ⟨⟨(cb.body given (contextEnter w.thread ctx) (w.enter ctx).pending).2, ?_, ?_⟩, ?_,
      settled⟩
    · rw [calls, if_neg free, quiet, Thread.current, contextEnter_free free]
      rfl
    · rw [logs, own]
      exact congrArg (· ++ _) logged
    · rw [logs_thread]
      exact contextExit_top top

/-- A call without the macros is in the context exactly if that is current. -/
theorem callObject_invokes_iff {h : Handle} (own : h.callback = cb) :
    Invokes cb args ctx w (h.logs (callObject cb (.tuple args) w)) ↔
      w.thread.current = some ctx ∧ w.pending = none := by
  have calls : (h.logs (callObject cb (.tuple args) w)).invoked =
      w.invoked ++ [⟨cb, args, w.thread.current, w.pending, (cb.body args w.thread w.pending).2⟩] :=
    (logs_invoked _ _).trans (call_invoked cb args w)
  constructor
  · rintro ⟨⟨result, once, -⟩, -, -⟩
    have last := List.singleton_inj.mp (List.append_cancel_left (calls.symm.trans once))
    exact ⟨congrArg Invocation.context last, congrArg Invocation.pending last⟩
  · rintro ⟨current, quiet⟩
    obtain ⟨pending, null, logged⟩ := call_quiet quiet cb args
    obtain ⟨logs, settled⟩ := logs_errors (r := callObject cb (.tuple args) w)
      (Result.errors_length _) h pending null
    refine ⟨⟨(cb.body args w.thread none).2, by rw [calls, current, quiet], ?_⟩, ?_, settled⟩
    · rw [logs, own, quiet]
      exact congrArg (· ++ _) logged
    · rw [logs_thread, Thread.current, Thread.current]
      refine congrArg List.head? ?_
      exact (congrArg Thread.stack (call_thread cb args w)).trans
        (cb.balanced args w.thread w.pending)

/-- A tuple is not one of its items. -/
theorem ne_singleton_tuple (args : List Obj) : [Obj.tuple args] ≠ args := by
  intro same
  have size := congrArg sizeOf same
  simp only [List.cons.sizeOf_spec, Obj.tuple.sizeOf_spec, List.nil.sizeOf_spec] at size
  omega

theorem oneArg_invokes_iff {pypy : Bool} {arg : Obj} {h : Handle} (own : h.callback = cb) :
    Invokes cb args ctx w (h.logs (if pypy then runInCtx ctx cb (.tuple [arg]) w
      else runInCtx1 ctx cb arg w)) ↔ [arg] = args ∧ ¬ w.thread.Entered ctx ∧ w.pending = none := by
  split_ifs
  · exact runIn_invokes_iff own
  · exact runIn_invokes_iff own

/-- A callback is invoked as it was scheduled, on either loop and through every entry point,
exactly if the condition holds when its handle runs. -/
theorem invoked_alike_iff (l : LoopKind) (pypy : Bool) (s : Site) (callback : Callable)
    (context : Option Ctx) (e : Entry) (w : World) :
    Invokes callback e.args (e.context l s context) w
        (l.run pypy (e.scheduled l s callback context).handle w) ↔
      Suits l e (e.context l s context) w := by
  cases l with
  | rloop =>
      cases e with
      | schedule args =>
          refine (oneArg_invokes_iff (by rfl)).trans (iff_of_false ?_ ?_)
          · exact fun invokes => ne_singleton_tuple args invokes.1
          · exact fun suits => suits.1.1 args rfl
      | schedule1 | scheduleLater1 =>
          refine (oneArg_invokes_iff (by rfl)).trans (and_assoc.symm.trans (and_congr_left' ?_))
          exact and_congr_left' (iff_of_true rfl fun _ => Entry.noConfusion)
      | schedule0 | scheduleLater0 | scheduleLater | callSoon | callSoonThreadsafe | callLater =>
          refine (runIn_invokes_iff (by rfl)).trans (and_assoc.symm.trans (and_congr_left' ?_))
          exact and_congr_left' (iff_of_true rfl fun _ => Entry.noConfusion)
  | tokio =>
      cases e with
      | schedule1 | scheduleLater1 => exact (oneArg_invokes_iff (by rfl)).trans (and_iff_right rfl)
      | schedule0 | scheduleLater0 => exact (runIn_invokes_iff (by rfl)).trans (and_iff_right rfl)
      | schedule | scheduleLater | callSoon | callSoonThreadsafe
      | callLater => exact callObject_invokes_iff (by rfl)

/-- A callable that does nothing. -/
def nothing (id : Nat) : Callable := ⟨id, fun _ w _ => (w, .returns false), fun _ _ _ => rfl⟩

/-- The loop's thread in its base context, 0. -/
def based : World := ⟨⟨[0], fun _ => false, List.nodup_singleton 0⟩, none, [], []⟩

/-- On RLoop `schedule` with one argument passes the tuple, and on Tokio `call_soon` with a
context stays in the one that is current. -/
theorem schedule_passes_tuple :
    ((LoopKind.rloop.run false ((Entry.schedule [.other 1]).scheduled .rloop ⟨0, 7⟩ (nothing 3)
      (some 5)).handle
        based).invoked = [⟨nothing 3, [.tuple [.other 1]], some 5, none, .returns false⟩] ∧
      ¬ Invokes (nothing 3) [.other 1] 5 based
        (LoopKind.rloop.run false ((Entry.schedule [.other 1]).scheduled .rloop ⟨0, 7⟩ (nothing 3)
          (some 5)).handle based)) ∧
    ((LoopKind.tokio.run false ((Entry.callSoon [.other 1]).scheduled .tokio ⟨0, 7⟩ (nothing 3)
      (some 5)).handle
        based).invoked = [⟨nothing 3, [.other 1], some 0, none, .returns false⟩] ∧
      ¬ Invokes (nothing 3) [.other 1] 5 based
        (LoopKind.tokio.run false ((Entry.callSoon [.other 1]).scheduled .tokio ⟨0, 7⟩ (nothing 3)
          (some 5)).handle based)) := by
  refine ⟨⟨rfl, ?_⟩, rfl, ?_⟩
  · rintro ⟨⟨result, once, -⟩, -, -⟩
    have same : [Obj.tuple [.other 1]] = [.other 1] :=
      congrArg Invocation.args (List.singleton_inj.mp once)
    cases same
  · rintro ⟨⟨result, once, -⟩, -, -⟩
    have same : some 0 = some 5 := congrArg Invocation.context (List.singleton_inj.mp once)
    cases same

end TokioLoop.Contexts
