import TokioLoop.IoTable
import TokioLoop.TokioTimers
import TokioLoop.TokioPending

/-!
The reader and writer callbacks of TokioLoop: the table `io_callbacks` of `TEventLoop`
beside its scheduler. A call of `add_reader` or `add_writer` stores a handle, schedules
the same one at once, and returns another object with the same callback.

The table is compared with the map of `IoTable`, from descriptors to an optional reader
and an optional writer. A callback is the number of the scheduling call of its addition.
-/
namespace TokioLoop.IoSlots

open Runs Tcp

/-- `io_callbacks`: the reader and the writer of a descriptor. -/
abbrev IoCallbacks (κ : Type) := Nat → Option (Option κ × Option κ)

variable {κ : Type}

def addReader (t : IoCallbacks κ) (fd : Nat) (handle : κ) : IoCallbacks κ :=
  Function.update t fd (some (some handle, none))

def addWriter (t : IoCallbacks κ) (fd : Nat) (handle : κ) : IoCallbacks κ :=
  Function.update t fd (some (none, some handle))

def removeReader (t : IoCallbacks κ) (fd : Nat) : IoCallbacks κ × Bool :=
  match t fd with
  | some (reader, _) => (Function.update t fd none, reader.isSome)
  | none => (t, false)

def removeWriter (t : IoCallbacks κ) (fd : Nat) : IoCallbacks κ × Bool :=
  match t fd with
  | some (_, writer) => (Function.update t fd none, writer.isSome)
  | none => (t, false)

def tcpStreamBound (t : IoCallbacks κ) (fd : Nat) : Bool :=
  match t fd with
  | some (reader, writer) => reader.isSome || writer.isSome
  | none => false

/-- One call on the table, with what a removal answers. -/
def exec (t : IoCallbacks κ) : Io.Call κ → IoCallbacks κ × Option Bool
  | .addReader fd handle => (addReader t fd handle, none)
  | .addWriter fd handle => (addWriter t fd handle, none)
  | .removeReader fd => ((removeReader t fd).1, some (removeReader t fd).2)
  | .removeWriter fd => ((removeWriter t fd).1, some (removeWriter t fd).2)

def slot (entry : Option κ × Option κ) : Dir → Option κ
  | .readable => entry.1
  | .writable => entry.2

/-- The table as the abstract map. -/
def slots (t : IoCallbacks κ) : Io.Slots κ := fun fd d => (t fd).bind fun entry => slot entry d

/-- `made` has the numbers of the handles that an addition scheduled, and `cancelled` the
flags of the objects that the additions returned. -/
structure Loop where
  loop : Scheduler.TEventLoop
  ioCallbacks : IoCallbacks Nat
  made : Nat → Bool
  cancelled : Nat → Bool

def new : Loop := ⟨Scheduler.new, fun _ => none, fun _ => false, fun _ => false⟩

/-- `loop` is any step of the scheduler; a thread goes on with the scheduling of an addition
by such steps. -/
inductive Action where
  | loop (a : Scheduler.Action)
  | add (thread : Nat) (d : Dir) (fd : Nat)
  | remove (d : Dir) (fd : Nat)
  | tcpStreamBound (fd : Nat)
  | cancelReturned (handle : Nat)

/-- The addition of a handle. -/
def addition (d : Dir) (fd handle : Nat) : Io.Call Nat :=
  match d with
  | .readable => .addReader fd handle
  | .writable => .addWriter fd handle

def removal (d : Dir) (fd : Nat) : Io.Call Nat :=
  match d with
  | .readable => .removeReader fd
  | .writable => .removeWriter fd

/-- A handle is cancelled once it is there, the one that an addition schedules is not
handed out, and a closed loop does not run. -/
def Permitted (s : Loop) : Scheduler.Action → Prop
  | .cancel handle => handle < s.loop.created ∧ s.made handle = false
  | .run => s.loop.closed = false
  | _ => True

instance (s : Loop) (a : Scheduler.Action) : Decidable (Permitted s a) := by
  unfold Permitted
  split <;> infer_instance

def step (s : Loop) : Action → Option Loop
  | .loop a =>
      if Permitted s a then (Scheduler.step s.loop a).map fun loop => { s with loop } else none
  | .add thread d fd =>
      (Scheduler.callStep s.loop (.call thread none)).map fun loop =>
        { s with
          loop
          ioCallbacks := (exec s.ioCallbacks (addition d fd s.loop.created)).1
          made := Function.update s.made s.loop.created true }
  | .remove d fd => some { s with ioCallbacks := (exec s.ioCallbacks (removal d fd)).1 }
  | .tcpStreamBound _ => some s
  | .cancelReturned handle =>
      if s.made handle ∧ s.loop.returned.any fun r => r.handle == handle then
        some { s with cancelled := Function.update s.cancelled handle true }
      else none

/-- A call does to the slots what the abstract map does, with its answer; and no run that
goes on from a cancellation executes the callback of the cancelled handle. -/
def Faithful (s : Loop) : Action → Prop
  | .loop _ => True
  | .add _ d fd =>
      let call := addition d fd s.loop.created
      (slots (exec s.ioCallbacks call).1, (exec s.ioCallbacks call).2) = call.spec
      (slots s.ioCallbacks)
  | .remove d fd =>
      let call := removal d fd
      (slots (exec s.ioCallbacks call).1, (exec s.ioCallbacks call).2) = call.spec
      (slots s.ioCallbacks)
  | .tcpStreamBound fd =>
      tcpStreamBound s.ioCallbacks fd = true ↔ ∃ d, (slots s.ioCallbacks fd d).isSome = true
  | .cancelReturned handle =>
      ∀ t actions u, step s (.cancelReturned handle) = some t → run step t actions = some u →
      handle ∈ u.loop.executed → handle ∈ s.loop.executed

/-- The scheduled handle still has its turn before it: it waits in the scheduler channel of
a loop that is not closed, or in the execution channel of a run that goes on, or is the
next one there. -/
def Due (s : Scheduler.TEventLoop) (handle : Nat) : Prop :=
  (.immediate handle ∈ s.scheduler ∧ s.closed = false) ∨
    ∃ r, s.run = some r ∧ handle ∈ r.currentHandles ∧
      (s.stopping = false ∨ (r.pc = .select ∧ r.currentHandles.head? = some handle))

/-- The other slot of the descriptor is empty, and a handle is cancelled when its callback
is not due any more. -/
def Apart (s : Loop) : Action → Prop
  | .add _ d fd | .remove d fd => slots s.ioCallbacks fd (Io.other d) = none
  | .cancelReturned handle => ¬ Due s.loop handle
  | _ => True

theorem slots_update (t : IoCallbacks κ) (fd : Nat) (entry : Option (Option κ × Option κ)) :
    slots (Function.update t fd entry) =
      fun gd e => if gd = fd then entry.bind (slot · e) else slots t gd e := by
  funext gd e
  simp only [slots, Function.update_apply]
  split <;> rfl

theorem exec_removed (t : IoCallbacks κ) (d : Dir) (fd : Nat) :
    exec t (match d with | .readable => .removeReader fd | .writable => .removeWriter fd :
      Io.Call κ) = (Function.update t fd none, some (slots t fd d).isSome) := by
  cases there : t fd with
  | none =>
      have same : Function.update t fd none = t := by rw [← there, Function.update_eq_self]
      cases d <;> simp [exec, removeReader, removeWriter, slots, there, same]
  | some entry => cases d <;> simp [exec, removeReader, removeWriter, slots, slot, there]

/-- What a call makes of the slots, the other one of its descriptor included. -/
theorem slots_exec (t : IoCallbacks κ) (call : Io.Call κ) :
    slots (exec t call).1 =
      fun fd d => if fd = call.fd then (if d = call.dir then call.puts else none)
      else slots t fd d := by
  have cleared : (fun fd d => if fd = call.fd then (none : Option κ) else slots t fd d) =
      slots (Function.update t call.fd none) := by rw [slots_update]; rfl
  cases call with
  | addReader fd handle =>
      simp only [exec, addReader, slots_update, Io.Call.fd, Io.Call.dir, Io.Call.puts]
      funext gd e
      cases e <;> rfl
  | addWriter fd handle =>
      simp only [exec, addWriter, slots_update, Io.Call.fd, Io.Call.dir, Io.Call.puts]
      funext gd e
      cases e <;> rfl
  | removeReader fd =>
      simp only [Io.Call.puts, ite_self, cleared]
      exact congrArg (fun r => slots r.1) (exec_removed t .readable fd)
  | removeWriter fd =>
      simp only [Io.Call.puts, ite_self, cleared]
      exact congrArg (fun r => slots r.1) (exec_removed t .writable fd)

theorem exec_answer (t : IoCallbacks κ) (call : Io.Call κ) :
    (exec t call).2 = (call.spec (slots t)).2 := by
  cases call with
  | addReader fd handle | addWriter fd handle => rfl
  | removeReader fd => exact congrArg Prod.snd (exec_removed t .readable fd)
  | removeWriter fd => exact congrArg Prod.snd (exec_removed t .writable fd)

/-- A call is one on the abstract map exactly if the other slot is empty. -/
theorem exec_spec_iff (t : IoCallbacks κ) (call : Io.Call κ) :
    (slots (exec t call).1, (exec t call).2) = call.spec (slots t) ↔
    slots t call.fd (Io.other call.dir) = none := by
  rw [Prod.ext_iff, and_iff_left (exec_answer t call)]
  simp only [slots_exec, Io.Call.spec]
  constructor
  · intro same
    have other := congrFun (congrFun same call.fd) (Io.other call.dir)
    simp only [if_true, Io.other_ne, if_false, and_false] at other
    exact other.symm
  · intro empty
    funext fd d
    by_cases here : fd = call.fd
    · subst here
      obtain rfl | rfl := Io.eq_or_eq_other call.dir d
      · simp
      · simp [Io.other_ne, empty]
    · simp [here]

theorem tcpStreamBound_iff (t : IoCallbacks κ) (fd : Nat) :
    tcpStreamBound t fd = true ↔ ∃ d, (slots t fd d).isSome = true := by
  simp only [tcpStreamBound, slots]
  cases t fd with
  | none => simp
  | some entry =>
      simp only [Bool.or_eq_true, Option.bind_some]
      constructor
      · rintro (reader | writer)
        · exact ⟨.readable, reader⟩
        · exact ⟨.writable, writer⟩
      · rintro ⟨d, there⟩
        cases d with
        | readable => exact .inl there
        | writable => exact .inr there

/-- What a step of the task of `_run` leaves of the flags of the loop, and how it comes to
its `select!`. -/
structure Flags (s t : Scheduler.TEventLoop) : Prop where
  closed : t.closed = s.closed
  stopping : t.stopping = false → s.stopping = false
  select : ∀ r, t.run = some r → r.pc = .select → s.run = none ∨ s.stopping = false

variable {s t : Scheduler.TEventLoop} {r : Scheduler.Run} {a : Scheduler.Action}

theorem runStep_flags (h : Scheduler.runStep s a = some t) : Flags s t := by
  -- only the check of the flag leads to a `select!`
  have elsewhere {u : Scheduler.TEventLoop} {r : Scheduler.Run} (run : u.run = some r)
    (other : r.pc ≠ .select)
      (closed : u.closed = s.closed) (stopping : u.stopping = false → s.stopping = false) :
      Flags s u := by
    refine ⟨closed, stopping, fun r' run' select => ?_⟩
    cases run.symm.trans run'
    exact absurd select other
  have ended {u : Scheduler.TEventLoop} (run : u.run = none) (closed : u.closed = s.closed)
      (stopping : u.stopping = false → s.stopping = false) : Flags s u := by
    refine ⟨closed, stopping, fun r' run' => ?_⟩
    cases run.symm.trans run'
  cases Scheduler.runStep_stepped h with
  | run idle => exact ⟨rfl, id, fun _ _ _ => .inl idle⟩
  | discard r index currentTime timer run pc | expire r index currentTime timer run pc =>
      exact elsewhere rfl (by rw [pc]; exact Scheduler.Pc.noConfusion) rfl id
  | immediate | delayed | early | due | sleep | skip | execute | expired | finish =>
      exact elsewhere rfl Scheduler.Pc.noConfusion rfl id
  | caught =>
      refine elsewhere rfl Scheduler.Pc.noConfusion ?_ ?_
      · split_ifs <;> rfl
      · split_ifs
        · exact Bool.noConfusion
        · exact id
  | uncaught =>
      refine ended rfl ?_ ?_
      · split_ifs <;> rfl
      · split_ifs
        · exact Bool.noConfusion
        · exact id
  | crash | stops => exact ended rfl rfl id
  | goesOn r run pc off => exact ⟨rfl, id, fun _ _ _ => .inr off⟩

/-- A handle that is executed was at the front of the execution channel of a `select!`. -/
theorem executes_front {n : Nat} (h : Scheduler.step s a = some t) (after : n ∈ t.executed) :
    n ∈ s.executed ∨ ∃ r, s.run = some r ∧ r.pc = .select ∧ r.currentHandles.head? = some n := by
  cases Scheduler.step_moves h with
  | quiet _ _ _ _ _ exec _ _ => exact .inl (exec ▸ after)
  | start _ ht | immediate _ _ _ _ _ ht | delayed _ _ _ _ _ ht | expire _ _ _ _ _ _ _ _ _ ht
  | discard _ _ _ _ _ _ ht =>
      subst ht
      exact .inl after
  | send _ _ _ _ _ _ exec _ _ => exact .inl (exec ▸ after)
  | receive r handle rest pc run head _ _ _ exec _ =>
      have select : r.pc = .select := by
        rcases Option.or_eq_some_iff.mp h with call | ⟨-, h⟩
        · cases call
        cases Scheduler.runStep_stepped h with
        | skip r' _ _ run' select | execute r' _ _ run' select =>
            cases run.symm.trans run'
            exact select
      rw [exec] at after
      split_ifs at after
      · exact .inl after
      · refine (List.mem_append.mp after).imp_right fun here => ⟨r, run, select, ?_⟩
        rw [head, List.mem_singleton.mp here, List.head?_cons]

/-- What a step of the scheduler leaves of its calls, numbers and flags. -/
structure Frame (s : Scheduler.TEventLoop) (a : Scheduler.Action) (t : Scheduler.TEventLoop) :
    Prop where
  calls : ∀ thread c, t.calls thread = some c →
    (∃ c', s.calls thread = some c' ∧ c.handle = c'.handle ∧ c.delay = c'.delay) ∨
      (a = .call thread c.delay ∧ c.handle = s.created)
  created : s.created ≤ t.created
  cancelled : ∀ n, t.cancelled n = true → s.cancelled n = true ∨ a = .cancel n
  closed : t.closed = false → s.closed = false
  running : ∀ r, t.run = some r → s.closed = false → t.closed = false
  stopping : ∀ r, t.run = some r → t.stopping = false → s.stopping = false

theorem callStep_frame (h : Scheduler.callStep s a = some t) : Frame s a t := by
  have keep : ∀ thread c, s.calls thread = some c →
      (∃ c', s.calls thread = some c' ∧ c.handle = c'.handle ∧ c.delay = c'.delay) ∨
        (a = .call thread c.delay ∧ c.handle = s.created) :=
        fun thread c there => .inl ⟨c, there, rfl, rfl⟩
  have update : ∀ (thread : Nat) (entry : Option Scheduler.Call),
      (∀ c, entry = some c → (∃ c', s.calls thread = some c' ∧ c.handle = c'.handle ∧
        c.delay = c'.delay) ∨ (a = .call thread c.delay ∧ c.handle = s.created)) →
      ∀ other c, Function.update s.calls thread entry other = some c →
        (∃ c', s.calls other = some c' ∧ c.handle = c'.handle ∧ c.delay = c'.delay) ∨
          (a = .call other c.delay ∧ c.handle = s.created) := by
    intro thread entry fits other c there
    rw [Function.update_apply] at there
    split at there
    next same => exact same ▸ fits c there
    next => exact keep other c there
  have returns := fun (thread : Nat) => update thread none fun c same =>
    absurd same (Option.some_ne_none c).symm
  cases Scheduler.callStep_stepped h with
  | call thread delay =>
      refine ⟨update thread _ fun c same => ?_, Nat.le_succ _, fun _ => .inl, id, fun _ _ => id,
        fun _ _ => id⟩
      cases same
      exact .inr ⟨rfl, rfl⟩
  | stopping thread | closed thread | send thread =>
      exact ⟨returns thread, Nat.le_refl _, fun _ => .inl, id, fun _ _ => id, fun _ _ => id⟩
  | notStopping thread handle delay there | notClosed thread handle delay there =>
      refine ⟨update thread _ fun c same => ?_, Nat.le_refl _, fun _ => .inl, id, fun _ _ => id,
        fun _ _ => id⟩
      cases same
      exact .inl ⟨_, there, rfl, rfl⟩
  | cancel handle =>
      refine ⟨keep, Nat.le_refl _, fun n off => ?_, id, fun _ _ => id, fun _ _ => id⟩
      have off' : Function.update s.cancelled handle true n = true := off
      rw [Function.update_apply] at off'
      split at off'
      next same => exact .inr (by rw [same])
      next => exact .inl off'
  | setStopping val may =>
      refine ⟨keep, Nat.le_refl _, fun _ => .inl, id, fun _ _ => id, fun r run off => ?_⟩
      have off' : val = false := off
      exact absurd (may r run) (Bool.eq_false_iff.mp off')
  | close idle =>
      refine ⟨keep, Nat.le_refl _, fun _ => .inl, Bool.noConfusion, fun r run _ => ?_,
        fun _ _ => id⟩
      have run' : s.run = some r := run
      exact absurd (idle.symm.trans run') (Option.some_ne_none r).symm
  | listen val => exact ⟨keep, Nat.le_refl _, fun _ => .inl, id, fun _ _ => id, fun _ _ => id⟩

theorem step_frame (h : Scheduler.step s a = some t) : Frame s a t := by
  rcases Option.or_eq_some_iff.mp h with call | ⟨-, task⟩
  · exact callStep_frame call
  · have frame := Scheduler.runStep_frame task
    have flags := runStep_flags task
    exact
      { calls := fun thread c there => .inl ⟨c, frame.calls ▸ there, rfl, rfl⟩
        created := frame.created.ge
        cancelled := fun n off => .inl (frame.cancelled ▸ off)
        closed := fun on => flags.closed.symm.trans on
        running := fun _ _ on => flags.closed.trans on
        stopping := fun _ _ => flags.stopping }

theorem immediate_back {n : Nat} (move : Scheduler.Move s a t)
    (after : .immediate n ∈ t.scheduler) : .immediate n ∈ s.scheduler ∨
    ∃ thread c, s.calls thread = some c ∧ c.handle = n := by
  cases move with
  | quiet _ _ _ same _ _ _ _ | receive _ _ _ _ _ _ same _ _ _ _ => exact .inl (same ▸ after)
  | start _ ht | expire _ _ _ _ _ _ _ _ _ ht | discard _ _ _ _ _ _ ht =>
      subst ht
      exact .inl after
  | immediate r handle rest _ head ht | delayed r timer rest _ head ht =>
      subst ht
      exact .inl (head ▸ List.mem_cons_of_mem _ after)
  | send thread now c call more _ _ _ _ =>
      rw [more] at after
      refine (List.mem_append.mp after).imp_right fun here => ⟨thread, c, call, ?_⟩
      rw [← Scheduler.task_handle c now, ← List.mem_singleton.mp here]
      rfl

/-- A timer in one of the two queues for delayed tasks. -/
def Delayed (s : Scheduler.TEventLoop) (timer : Scheduler.TokioTimer) : Prop :=
  .delayed timer ∈ s.scheduler ∨ ∃ r, s.run = some r ∧ timer ∈ r.delayedTasks

theorem delayed_back {timer : Scheduler.TokioTimer} (move : Scheduler.Move s a t)
    (after : Delayed t timer) : Delayed s timer ∨
    ∃ thread c, s.calls thread = some c ∧ c.handle = timer.handle ∧ c.delay ≠ none := by
  have heap : ∀ {r r' : Scheduler.Run}, s.run = some r → t.run = some r' →
    t.scheduler = s.scheduler →
      (∀ x ∈ r'.delayedTasks, x ∈ r.delayedTasks) → Delayed s timer := by
    intro r r' run run' same sub
    rcases after with scheduled | ⟨r'', run'', mem⟩
    · exact .inl (same ▸ scheduled)
    · cases run'.symm.trans run''
      exact .inr ⟨r, run, sub _ mem⟩
  cases move with
  | quiet _ _ _ same _ _ _ kept =>
      refine .inl ?_
      rcases after with scheduled | ⟨r', run', mem⟩
      · exact .inl (same ▸ scheduled)
      · obtain ⟨r, run, equal, -⟩ := kept r' run'
        exact .inr ⟨r, run, equal ▸ mem⟩
  | start _ ht =>
      subst ht
      refine .inl (after.imp_right ?_)
      rintro ⟨r', run', mem⟩
      cases run'
      cases mem
  | send thread now c call more _ _ _ run =>
      rcases after with scheduled | ⟨r', run', mem⟩
      · rw [more] at scheduled
        rcases List.mem_append.mp scheduled with old | new
        · exact .inl (.inl old)
        · refine .inr ⟨thread, c, call, ?_, fun none => ?_⟩
          · rw [← Scheduler.task_handle c now, ← List.mem_singleton.mp new]
            rfl
          · have same := List.mem_singleton.mp new
            rw [Scheduler.task, none] at same
            cases same
      · exact .inl (.inr ⟨r', run ▸ run', mem⟩)
  | immediate r handle rest run head ht =>
      subst ht
      refine .inl ?_
      rcases after with scheduled | ⟨r', run', mem⟩
      · exact .inl (head ▸ List.mem_cons_of_mem _ scheduled)
      · cases run'
        exact .inr ⟨r, run, mem⟩
  | delayed r first rest run head ht =>
      subst ht
      refine .inl ?_
      rcases after with scheduled | ⟨r', run', mem⟩
      · exact .inl (head ▸ List.mem_cons_of_mem _ scheduled)
      · cases run'
        rcases List.mem_append.mp mem with old | new
        · exact .inr ⟨r, run, old⟩
        · exact .inl (head ▸ List.mem_singleton.mp new ▸ List.mem_cons_self)
  | expire r index _ _ run _ _ _ _ ht | discard r index _ run _ _ ht =>
      subst ht
      exact .inl (heap run rfl rfl fun x mem => List.mem_of_mem_eraseIdx mem)
  | receive r handle rest pc run _ same _ _ _ run' =>
      exact .inl (heap run run' same fun x mem => mem)

theorem starts_run {r : Scheduler.Run} (move : Scheduler.Move s a t) (idle : s.run = none)
    (run : t.run = some r) : a = .run := by
  cases move with
  | quiet _ _ _ _ _ _ _ kept =>
      obtain ⟨r', before, -⟩ := kept r run
      rw [idle] at before
      cases before
  | start => rfl
  | send _ _ _ _ _ _ _ _ same =>
      rw [same, idle] at run
      cases run
  | immediate _ _ _ before _ _ | delayed _ _ _ before _ _ | expire _ _ _ _ before _ _ _ _ _
  | discard _ _ _ before _ _ _ | receive _ _ _ _ before _ _ _ _ _ _ =>
      rw [idle] at before
      cases before

/-- A handle that is due after a step was due before, if it is not in a call and not
delayed. -/
theorem due_back {n : Nat} (h : Scheduler.step s a = some t)
    (apart : ∀ thread c, s.calls thread = some c → c.handle ≠ n)
    (prompt : ∀ timer, Delayed s timer → timer.handle ≠ n)
    (on : ∀ r, s.run = some r → s.closed = false) (due : Due t n) : Due s n := by
  have frame := step_frame h
  rcases due with ⟨scheduled, still⟩ | ⟨r', run', mem, going⟩
  · refine .inl ⟨(immediate_back (Scheduler.step_moves h) scheduled).resolve_right ?_,
      frame.closed still⟩
    rintro ⟨thread, c, call, same⟩
    exact apart thread c call same
  · rcases Option.or_eq_some_iff.mp h with call | ⟨-, task⟩
    · have run : s.run = some r' := (Scheduler.callStep_run call).symm.trans run'
      exact .inr ⟨r', run, mem, going.imp_left (frame.stopping r' run')⟩
    · have flags := runStep_flags task
      have goes : ∀ r, s.run = some r → s.stopping = false := by
        intro r run
        rcases going with off | ⟨select, -⟩
        · exact flags.stopping off
        · refine (flags.select r' run' select).resolve_left fun idle => ?_
          rw [idle] at run
          cases run
      have current : ∀ r, s.run = some r → n ∈ r.currentHandles → Due s n := fun r run queued =>
        .inr ⟨r, run, queued, .inl (goes r run)⟩
      cases Scheduler.runStep_moves task with
      | quiet _ _ _ _ _ _ _ kept =>
          obtain ⟨r, run, -, same⟩ := kept r' run'
          exact current r run (same ▸ mem)
      | start _ ht =>
          subst ht
          cases run'
          cases mem
      | send _ _ _ _ _ _ _ _ same => exact current r' (same ▸ run') mem
      | immediate r handle rest run head ht =>
          subst ht
          cases run'
          rcases List.mem_append.mp mem with old | new
          · exact current r run old
          · refine .inl ⟨?_, on r run⟩
            rw [head, List.mem_singleton.mp new]
            exact List.mem_cons_self
      | delayed r timer rest run head ht =>
          subst ht
          cases run'
          exact current r run mem
      | expire r index currentTime timer run _ least _ _ ht =>
          subst ht
          cases run'
          rcases List.mem_append.mp mem with old | new
          · exact current r run old
          · have there := List.mem_of_getElem? (Option.filter_eq_some_iff.mp least).1
            exact absurd (List.mem_singleton.mp new).symm (prompt timer (.inr ⟨r, run, there⟩))
      | discard r index timer run _ _ ht =>
          subst ht
          cases run'
          exact current r run mem
      | receive r handle rest pc run head _ _ _ _ same =>
          cases same.symm.trans run'
          exact current r run (head ▸ List.mem_cons_of_mem handle mem)

/-- The handles of the additions are scheduled without a delay and are not cancelled. -/
structure Inv (s : Loop) : Prop where
  books : Scheduler.Books s.loop
  below : ∀ n, s.made n = true → n < s.loop.created
  fresh : ∀ n, s.loop.cancelled n = true → n < s.loop.created
  live : ∀ n, s.made n = true → s.loop.cancelled n = false
  calls : ∀ thread c, s.loop.calls thread = some c → s.made c.handle = true → c.delay = none
  prompt : ∀ timer, Delayed s.loop timer → s.made timer.handle = false
  on : ∀ r, s.loop.run = some r → s.loop.closed = false

theorem new_inv : Inv new where
  books := Scheduler.books_new
  below _ made := by cases made
  fresh _ off := by cases off
  live _ _ := rfl
  calls _ _ call := by cases call
  prompt timer delayed := by
    rcases delayed with scheduled | ⟨r, run, -⟩
    · cases scheduled
    · cases run
  on _ run := by cases run

theorem Delayed.below {timer : Scheduler.TokioTimer} (books : Scheduler.Books s)
    (delayed : Delayed s timer) : timer.handle < s.created := by
  refine books.below _ (books.account.mem_iff.mp ?_)
  simp only [Scheduler.TEventLoop.account, Scheduler.TEventLoop.held,
    Scheduler.TEventLoop.localHandles, List.mem_append, or_assoc]
  rcases delayed with scheduled | ⟨r, run, mem⟩
  · exact .inl (List.mem_map_of_mem scheduled)
  · refine .inr (.inl ?_)
    rw [run]
    exact List.mem_append_left _ (List.mem_map_of_mem mem)

/-- A step of the scheduler, under the marks that an addition leaves. -/
theorem Inv.scheduled {s u : Loop} {a : Scheduler.Action} (inv : Inv s)
    (h : Scheduler.step s.loop a = some u.loop)
    (kept : ∀ n, n < s.loop.created → u.made n = s.made n)
    (below : ∀ n, u.made n = true → n < u.loop.created)
    (called : ∀ thread delay, a = .call thread delay → u.made s.loop.created = true → delay = none)
    (permitted : Permitted s a) : Inv u := by
  have frame := step_frame h
  have old : ∀ n, u.loop.cancelled n = true → n < s.loop.created ∧ u.made n = false := by
    intro n off
    have here : n < s.loop.created ∧ s.made n = false := by
      rcases frame.cancelled n off with before | rfl
      · refine ⟨inv.fresh n before, Bool.eq_false_of_not_eq_true fun marked => ?_⟩
        rw [inv.live n marked] at before
        cases before
      · exact permitted
    exact ⟨here.1, (kept n here.1).trans here.2⟩
  exact
    { books := inv.books.step h
      below := below
      fresh := fun n off => (old n off).1.trans_le frame.created
      live := by
        intro n marked
        refine Bool.eq_false_of_not_eq_true fun off => ?_
        rw [(old n off).2] at marked
        cases marked
      calls := by
        intro thread c call marked
        rcases frame.calls thread c call with ⟨c', before, handle, delay⟩ | ⟨now, handle⟩
        · have lower := (inv.books.pending thread c' before).1
          rw [handle, kept _ lower] at marked
          exact delay.trans (inv.calls thread c' before marked)
        · rw [handle] at marked
          exact called thread c.delay now marked
      prompt := by
        intro timer delayed
        rcases delayed_back (Scheduler.step_moves h) delayed with
          before | ⟨thread, c, call, handle, late⟩
        · exact (kept _ (before.below inv.books)).trans (inv.prompt timer before)
        · have lower := (inv.books.pending thread c call).1
          rw [← handle, kept _ lower]
          exact Bool.eq_false_of_not_eq_true fun marked => late (inv.calls thread c call marked)
      on := by
        intro r run
        refine frame.running r run ?_
        cases before : s.loop.run with
        | none =>
            cases starts_run (Scheduler.step_moves h) before run
            exact permitted
        | some r' => exact inv.on r' before }

theorem step_inv {s u : Loop} {a : Action} (inv : Inv s) (h : step s a = some u) : Inv u := by
  cases a with
  | loop a =>
      obtain ⟨permitted, taken⟩ := Option.ite_none_right_eq_some.mp h
      obtain ⟨t, one, rfl⟩ := Option.map_eq_some_iff.mp taken
      refine inv.scheduled one (fun _ _ => rfl) (fun n marked => ?_) (fun thread delay _ marked =>
        ?_) permitted
      · exact (inv.below n marked).trans_le (step_frame one).created
      · exact absurd (inv.below _ marked) (Nat.lt_irrefl _)
  | add thread d fd =>
      obtain ⟨t, call, rfl⟩ := Option.map_eq_some_iff.mp h
      have one : Scheduler.step s.loop (.call thread none) = some t :=
        Option.or_eq_some_iff.mpr (.inl call)
      have next : t.created = s.loop.created + 1 := by
        cases Scheduler.callStep_stepped call
        rfl
      refine inv.scheduled one (fun n lower => ?_) (fun n marked => ?_)
        (fun _ delay same _ => ?_) trivial
      · exact Function.update_of_ne (Nat.ne_of_lt lower) true s.made
      · have marked' : Function.update s.made s.loop.created true n = true := marked
        rw [Function.update_apply] at marked'
        refine lt_of_lt_of_eq ?_ next.symm
        split at marked'
        next here => exact here ▸ Nat.lt_succ_self _
        next => exact (inv.below n marked').trans (Nat.lt_succ_self _)
      · cases same
        rfl
  | remove d fd =>
      cases h
      exact ⟨inv.books, inv.below, inv.fresh, inv.live, inv.calls, inv.prompt, inv.on⟩
  | tcpStreamBound fd =>
      cases h
      exact inv
  | cancelReturned handle =>
      obtain ⟨-, rfl⟩ := Option.ite_none_right_eq_some.mp h |>.imp_right Option.some.inj
      exact ⟨inv.books, inv.below, inv.fresh, inv.live, inv.calls, inv.prompt, inv.on⟩

/-- The step of the scheduler under a step of the machine, if there is one. -/
theorem step_loop {s u : Loop} {a : Action} (h : step s a = some u) :
    u.loop = s.loop ∨ ∃ a', Scheduler.step s.loop a' = some u.loop := by
  cases a with
  | loop a =>
      obtain ⟨-, taken⟩ := Option.ite_none_right_eq_some.mp h
      obtain ⟨t, one, rfl⟩ := Option.map_eq_some_iff.mp taken
      exact .inr ⟨a, one⟩
  | add thread d fd =>
      obtain ⟨t, call, rfl⟩ := Option.map_eq_some_iff.mp h
      exact .inr ⟨.call thread none, Option.or_eq_some_iff.mpr (.inl call)⟩
  | remove d fd | tcpStreamBound fd =>
      cases h
      exact .inl rfl
  | cancelReturned handle =>
      obtain ⟨-, rfl⟩ := Option.ite_none_right_eq_some.mp h |>.imp_right Option.some.inj
      exact .inl rfl

/-- The handle of an addition that has returned and is not due. -/
structure Passed (s : Loop) (n : Nat) : Prop where
  inv : Inv s
  made : s.made n = true
  apart : ∀ thread c, s.loop.calls thread = some c → c.handle ≠ n
  past : ¬ Due s.loop n

theorem Passed.step {s u : Loop} {a : Action} {n : Nat} (passed : Passed s n)
    (h : step s a = some u) : Passed u n ∧ (n ∈ u.loop.executed → n ∈ s.loop.executed) := by
  have inv := passed.inv
  have made : u.made n = true := by
    cases a with
    | loop a =>
        obtain ⟨-, taken⟩ := Option.ite_none_right_eq_some.mp h
        obtain ⟨t, -, rfl⟩ := Option.map_eq_some_iff.mp taken
        exact passed.made
    | add thread d fd =>
        obtain ⟨t, -, rfl⟩ := Option.map_eq_some_iff.mp h
        exact (Function.update_of_ne (Nat.ne_of_lt (inv.below n passed.made)) true s.made).trans
          passed.made
    | remove d fd | tcpStreamBound fd =>
        cases h
        exact passed.made
    | cancelReturned handle =>
        obtain ⟨-, rfl⟩ := Option.ite_none_right_eq_some.mp h |>.imp_right Option.some.inj
        exact passed.made
  rcases step_loop h with same | ⟨a', one⟩
  · refine ⟨⟨step_inv inv h, made, ?_, ?_⟩, ?_⟩
    · rw [same]
      exact passed.apart
    · rw [same]
      exact passed.past
    · rw [same]
      exact id
  · have prompt : ∀ timer, Delayed s.loop timer → timer.handle ≠ n := by
      rintro timer delayed rfl
      have unmarked := inv.prompt timer delayed
      rw [passed.made] at unmarked
      cases unmarked
    refine ⟨⟨step_inv inv h, made, fun thread c call => ?_, fun due => ?_⟩, fun after => ?_⟩
    · rcases (step_frame one).calls thread c call with ⟨c', before, handle, -⟩ | ⟨-, handle⟩
      · rw [handle]
        exact passed.apart thread c' before
      · rw [handle]
        exact (Nat.ne_of_lt (inv.below n passed.made)).symm
    · exact passed.past (due_back one passed.apart prompt inv.on due)
    · refine (executes_front one after).resolve_right ?_
      rintro ⟨r, run, select, front⟩
      exact passed.past (.inr ⟨r, run, List.mem_of_mem_head? front, .inr ⟨select, front⟩⟩)

theorem Passed.run {s u : Loop} {actions : List Action} {n : Nat} (passed : Passed s n)
    (h : Runs.run IoSlots.step s actions = some u) (after : n ∈ u.loop.executed) :
    n ∈ s.loop.executed := by
  induction actions generalizing s with
  | nil => exact Option.some.inj h ▸ after
  | cons a actions ih =>
      obtain ⟨t, first, rest⟩ := run_cons_iff.mp h
      obtain ⟨next, back⟩ := passed.step first
      exact back (ih next rest)

theorem runStep_only (h : Scheduler.runStep s a = some t) : Scheduler.callStep s a = none := by
  cases Scheduler.runStep_stepped h <;> rfl

/-- What the task of `_run` can come to, the machine can, unless the loop is closed. -/
theorem reaches_task {s : Loop} {t : Scheduler.TEventLoop} (on : s.loop.closed = false)
    (h : Reachable Scheduler.runStep s.loop t) : Reachable IoSlots.step s { s with loop := t } := by
  obtain ⟨actions, h⟩ := h
  induction actions generalizing s with
  | nil =>
      cases h
      exact .refl
  | cons a actions ih =>
      obtain ⟨u, first, rest⟩ := run_cons_iff.mp h
      have alone := runStep_only first
      have permitted : Permitted s a := by
        cases a with
        | cancel => cases alone
        | run => exact on
        | _ => trivial
      have one : IoSlots.step s (.loop a) = some { s with loop := u } := by
        simp only [IoSlots.step, if_pos permitted, Scheduler.step, alone, Option.none_or, first,
          Option.map_some]
      exact .head one (ih (s := { s with loop := u }) ((runStep_flags first).closed.trans on) rest)

/-- A closed loop is needed to keep an immediate task in the scheduler channel for good. -/
theorem scheduled_executes {s : Loop} {n : Nat} (scheduled : .immediate n ∈ s.loop.scheduler)
    (on : s.loop.closed = false) (live : s.loop.cancelled n = false) :
    ∃ u, Reachable IoSlots.step s u ∧ n ∈ u.loop.executed := by
  have idle : ∀ s : Loop, s.loop.run = none → .immediate n ∈ s.loop.scheduler →
    s.loop.closed = false →
      s.loop.cancelled n = false → ∃ u, Reachable IoSlots.step s u ∧ n ∈ u.loop.executed := by
    intro s run scheduled on live
    have lower : IoSlots.step s (.loop (.setStopping false)) =
        some { s with loop := { s.loop with stopping := false } } := by
      simp [IoSlots.step, Permitted, Scheduler.step, Scheduler.callStep, run]
    have start : IoSlots.step { s with loop := { s.loop with stopping := false } } (.loop .run) =
        some { s with loop := { s.loop with stopping := false, run := some ⟨[], [], .select⟩ }
          } := by
      simp [IoSlots.step, Permitted, Scheduler.step, Scheduler.callStep, Scheduler.runStep, run, on]
    obtain ⟨t, reached, done⟩ := Scheduler.executes_waiting
      (s := { s.loop with stopping := false, run := some ⟨[], [], .select⟩ }) ⟨rfl, rfl, live⟩
      (.inr scheduled)
    exact ⟨_, .head lower (.head start (reaches_task on reached)), done⟩
  cases run : s.loop.run with
  | none => exact idle s run scheduled on live
  | some r =>
      cases stopping : s.loop.stopping with
      | false =>
          obtain ⟨t, reached, done⟩ :=
            Scheduler.executes_waiting ⟨run, stopping, live⟩ (.inr scheduled)
          exact ⟨_, reaches_task on reached, done⟩
      | true =>
          obtain ⟨t, reached, ended, same, still⟩ := Scheduler.run_ends ⟨run, stopping, live⟩
          have opened : t.closed = false := by
            obtain ⟨actions, h⟩ := reached
            exact run_invariant (I := fun t => t.closed = false)
              (fun _ _ _ on one => (runStep_flags one).closed.trans on) h on
          obtain ⟨u, rest, done⟩ := idle { s with loop := t } ended (same ▸ scheduled) opened still
          exact ⟨u, (reaches_task on reached).trans rest, done⟩

/-- A due handle can still be executed. -/
theorem due_executes {s : Loop} {n : Nat} (inv : Inv s) (live : s.loop.cancelled n = false)
    (due : Due s.loop n) : ∃ u, Reachable IoSlots.step s u ∧ n ∈ u.loop.executed := by
  rcases due with ⟨scheduled, on⟩ | ⟨r, run, mem, goes | ⟨select, front⟩⟩
  · exact scheduled_executes scheduled on live
  · obtain ⟨t, reached, done⟩ := Scheduler.executes_waiting ⟨run, goes, live⟩ (.inl mem)
    exact ⟨_, reaches_task (inv.on r run) reached, done⟩
  · obtain ⟨rest, head⟩ := List.head?_eq_some_iff.mp front
    have first : Scheduler.runStep s.loop .recvHandle = some { s.loop with
        executed := s.loop.executed ++ [n]
        run := some { r with currentHandles := rest, pc := .running n } } := by
      simp only [Scheduler.runStep, run, select, Scheduler.selectStep, head, live,
        Bool.false_eq_true, if_false]
    exact ⟨_, reaches_task (inv.on r run) (.head first .refl),
      List.mem_append_right _ (List.mem_singleton_self n)⟩

/-- A due handle has not been executed. -/
theorem Due.not_executed {n : Nat} (books : Scheduler.Books s)
    (due : Due s n) : n ∉ s.executed := by
  have held : n ∈ s.held := by
    simp only [Scheduler.TEventLoop.held, Scheduler.TEventLoop.localHandles, List.mem_append]
    rcases due with ⟨scheduled, -⟩ | ⟨r, run, mem, -⟩
    · exact .inl (List.mem_map_of_mem scheduled)
    · refine .inr ?_
      rw [run]
      exact List.mem_append_right _ mem
  have once : (s.held ++ s.executed).Nodup := by
    have all := books.account.nodup_iff.mpr books.once
    exact (List.nodup_append.mp (List.nodup_append.mp all).1).1
  exact fun done => (List.nodup_append.mp once).2.2 n held n done rfl

theorem addition_call (d : Dir) (fd handle : Nat) :
    (addition d fd handle).fd = fd ∧ (addition d fd handle).dir = d := by
  cases d <;> exact ⟨rfl, rfl⟩

theorem removal_call (d : Dir) (fd : Nat) : (removal d fd).fd = fd ∧ (removal d fd).dir = d := by
  cases d <;> exact ⟨rfl, rfl⟩

theorem step_faithful_iff (s : Loop) (a : Action) (t : Loop) (inv : Inv s) (h : step s a = some t) :
    Apart s a ↔ Faithful s a := by
  cases a with
  | loop a => exact Iff.rfl
  | add thread d fd =>
      obtain ⟨here, dir⟩ := addition_call d fd s.loop.created
      simp only [Apart, Faithful, exec_spec_iff, here, dir]
  | remove d fd =>
      obtain ⟨here, dir⟩ := removal_call d fd
      simp only [Apart, Faithful, exec_spec_iff, here, dir]
  | tcpStreamBound fd => exact iff_of_true trivial (tcpStreamBound_iff s.ioCallbacks fd)
  | cancelReturned handle =>
      obtain ⟨⟨made, returned⟩, same⟩ := Option.ite_none_right_eq_some.mp h
      obtain ⟨r, there, equal⟩ := List.any_eq_true.mp returned
      rw [beq_iff_eq] at equal
      have next : t.loop = s.loop := by rw [← Option.some.inj same]
      constructor
      · intro past u actions v one run after
        cases h.symm.trans one
        have passed : Passed t handle :=
          { inv := step_inv inv h
            made := by
              rw [← Option.some.inj same]
              exact made
            apart := by
              rw [next, ← equal]
              exact fun thread c call => ((inv.books.pending thread c call).2.2 r there).symm
            past := by
              rw [next]
              exact past }
        exact next ▸ passed.run run after
      · intro never due
        obtain ⟨u, ⟨actions, run⟩, done⟩ := due_executes (s := t) (step_inv inv h)
          (next ▸ inv.live handle made) (next ▸ due)
        exact due.not_executed inv.books (never t actions u h run done)

/-- In every run of a new loop each call on the slots is one on the abstract map, and a
cancelled callback is not executed, exactly when no call meets a callback in the other
slot of its descriptor and no handle is cancelled while its callback is due. -/
theorem slots_independent_iff {actions : List Action} {t : Loop}
    (h : run step new actions = some t) : Guarded step Faithful new actions ↔
    Guarded step Apart new actions :=
  (guarded_congr_run (fun _ _ _ inv one => step_inv inv one) step_faithful_iff h new_inv).symm

/-- A reader that has run, is cancelled and removed, next to a writer of another
descriptor. -/
def separate : List Action :=
  [.add 0 .readable 3, .loop (.loadStopping 0), .loop (.loadClosed 0), .loop (.send 0 0),
      .add 1 .writable 4,
    .loop .run, .loop .recvTask, .loop .checkStop, .loop .recvHandle, .cancelReturned 0,
    .tcpStreamBound 3, .remove .readable 3]

theorem slots_independent_separate : Guarded step Faithful new separate := by
  refine (slots_independent_iff rfl).mpr ?_
  refine guarded_cons rfl rfl (guarded_cons rfl trivial
    (guarded_cons rfl trivial (guarded_cons rfl trivial
      (guarded_cons rfl rfl (guarded_cons rfl trivial
      (guarded_cons rfl trivial (guarded_cons rfl trivial
      (guarded_cons rfl trivial (guarded_cons rfl ?_ (guarded_cons rfl trivial
        (guarded_cons rfl rfl trivial)))))))))))
  rintro (⟨scheduled, -⟩ | ⟨r, run, mem, -⟩)
  · cases scheduled
  · cases run
    cases mem

/-- `add_writer` after `add_reader` on one descriptor takes the reader away. -/
theorem writer_clears_reader :
    ¬ ∀ (actions : List Action) (t : Loop), run step new actions = some t →
    Guarded step Faithful new actions := by
  intro claim
  have whole : Guarded step Faithful new ([.add 0 .readable 3] ++ [.add 1 .writable 3]) :=
    claim _ _ rfl
  have last := whole.next rfl
  have lost := congrFun (congrFun (congrArg Prod.fst last) 3) .readable
  cases lost

end TokioLoop.IoSlots
