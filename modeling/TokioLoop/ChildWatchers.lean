import Mathlib.Data.List.Nodup
import Mathlib.Logic.Function.Basic
import TokioLoop.Lib.Runs

/-!
`_ThreadedChildWatcher`: a thread for each child process that waits for its pid and reports
the return code to the loop, next to the process table of the kernel, in which the pid of
a child is free again once somebody has waited for it.

A child has a number of its own, in the order of their creation. `reap` is a `waitpid` by
anybody else, such as the `poll` of a `Popen`.
-/
namespace TokioLoop.ChildWatchers

open Runs

/-- The process that has a pid; `status` is there once it has exited. -/
structure Proc where
  child : Nat
  status : Option Nat
  deriving DecidableEq, Repr

/-- `_waitstatus_to_exitcode`; a status that is neither of an exit nor of a signal is
returned as it is. -/
def waitstatusToExitcode (status : Nat) : Int :=
  if status % 128 = 0 then status / 256 % 256
  else if status % 128 = 127 then status
  else -(status % 128)

/-- A thread inside `waitpid`, before the check of the loop, before `call_soon_threadsafe`,
before the `pop` of its entry, and at its end, which the `pop` may raise at. -/
inductive Stage where
  | waiting
  | waited
  | reporting
  | leaving
  | finished
  | failed
  deriving DecidableEq, Repr

/-- `child` is the one the thread was started for, and `reaped` the one that its `waitpid`
has waited for with its status, `none` after a `ChildProcessError`. -/
structure Thread where
  child : Nat
  pid : Nat
  stage : Stage
  reaped : Option (Nat × Nat)
  deriving DecidableEq, Repr

def Thread.returncode (th : Thread) : Int :=
  match th.reaped with
  | none => 255
  | some (_, status) => waitstatusToExitcode status

/-- A callback that the thread with a number has handed over to `call_soon_threadsafe`. -/
structure Report where
  thread : Nat
  pid : Nat
  returncode : Int
  deriving DecidableEq, Repr

/-- `fresh` is a child that is created and not added yet, `entries` are `_threads`, and
`overwritten` counts the entries that were replaced. -/
structure Watch where
  procs : Nat → Option Proc
  spawned : Nat
  fresh : Option (Nat × Nat)
  threads : List Thread
  entries : Nat → Option Nat
  overwritten : Nat → Nat
  closed : Bool
  reports : List Report

def initial : Watch where
  procs := fun _ => none
  spawned := 0
  fresh := none
  threads := []
  entries := fun _ => none
  overwritten := fun _ => 0
  closed := false
  reports := []

def Watch.put (s : Watch) (i : Nat) (th : Thread) : Watch :=
  { s with threads := s.threads.set i th }

def Watch.setProc (s : Watch) (pid : Nat) (proc : Option Proc) : Watch :=
  { s with procs := Function.update s.procs pid proc }

/-- `Popen`, which gets a pid that is free. -/
def Watch.spawn (s : Watch) (pid : Nat) : Watch :=
  { s with
    procs := Function.update s.procs pid (some ⟨s.spawned, none⟩)
    spawned := s.spawned + 1
    fresh := some (s.spawned, pid) }

/-- `add_child_handler` -/
def Watch.addChildHandler (s : Watch) (child pid : Nat) : Watch :=
  { s with
    fresh := none
    threads := s.threads ++ [⟨child, pid, .waiting, none⟩]
    entries := Function.update s.entries pid (some s.threads.length)
    overwritten :=
      if (s.entries pid).isSome then Function.update s.overwritten pid (s.overwritten pid + 1)
        else s.overwritten }

/-- The return of `waitpid`, which blocks while the process runs. -/
def Watch.waitpid (s : Watch) (i : Nat) (th : Thread) : Option Watch :=
  match s.procs th.pid with
  | none => some (s.put i { th with stage := .waited })
  | some ⟨_, none⟩ => none
  | some ⟨child, some status⟩ =>
      some ((s.put i { th with stage := .waited, reaped := some (child, status) }).setProc
        th.pid none)

def Watch.push (s : Watch) (i : Nat) (th : Thread) : Watch :=
  { s.put i { th with stage := .leaving } with
    reports := s.reports ++ [⟨i, th.pid, th.returncode⟩] }

/-- `self._threads.pop(expected_pid)` -/
def Watch.pop (s : Watch) (i : Nat) (th : Thread) : Watch :=
  match s.entries th.pid with
  | some _ =>
      { s.put i { th with stage := .finished } with
        entries := Function.update s.entries th.pid none }
  | none => s.put i { th with stage := .failed }

/-- One step of `_do_waitpid`. -/
def Watch.advance (s : Watch) (i : Nat) (th : Thread) : Option Watch :=
  match th.stage with
  | .waiting => s.waitpid i th
  | .waited => some (s.put i { th with stage := if s.closed then .leaving else .reporting })
  | .reporting => some (s.push i th)
  | .leaving => some (s.pop i th)
  | .finished | .failed => none

inductive Action where
  | spawn (pid : Nat)
  | add
  | exits (pid status : Nat)
  | reap (pid : Nat)
  | thread (i : Nat)
  | close
  deriving DecidableEq, Repr

def step (s : Watch) : Action → Option Watch
  | .spawn pid => if s.fresh = none ∧ s.procs pid = none ∧ 0 < pid then some (s.spawn pid) else none
  | .add => s.fresh.map fun f => s.addChildHandler f.1 f.2
  | .exits pid status =>
      match s.procs pid with
      | some ⟨child, none⟩ => some (s.setProc pid (some ⟨child, some status⟩))
      | _ => none
  | .reap pid =>
      match s.procs pid with
      | some ⟨_, some _⟩ => some (s.setProc pid none)
      | _ => none
  | .thread i => (s.threads[i]?).bind fun th => s.advance i th
  | .close => some { s with closed := true }

variable {s t : Watch} {i j : Nat} {th : Thread}

theorem put_get (there : s.threads[i]? = some th) (new : Thread) (j : Nat) :
    (s.put i new).threads[j]? = if j = i then some new else s.threads[j]? := by
  obtain ⟨inside, -⟩ := List.getElem?_eq_some_iff.mp there
  simp only [Watch.put, List.getElem?_set, inside, if_true]
  by_cases same : i = j
  · rw [if_pos same, if_pos same.symm]
  · rw [if_neg same, if_neg fun back => same back.symm]

/-- The ways of a thread, each with the thread it leaves. -/
inductive Advanced (s : Watch) (i : Nat) (th : Thread) : Thread → Watch → Prop where
  | lost : th.stage = .waiting → s.procs th.pid = none →
      Advanced s i th { th with stage := .waited } (s.put i { th with stage := .waited })
  | reaped (child status : Nat) : th.stage = .waiting → s.procs th.pid = some ⟨child, some status⟩ →
      Advanced s i th { th with stage := .waited, reaped := some (child, status) }
        ((s.put i { th with stage := .waited, reaped := some (child, status) }).setProc th.pid none)
  | checked : th.stage = .waited →
      Advanced s i th { th with stage := if s.closed then .leaving else .reporting }
        (s.put i { th with stage := if s.closed then .leaving else .reporting })
  | pushed : th.stage = .reporting → Advanced s i th { th with stage := .leaving } (s.push i th)
  | popped (k : Nat) : th.stage = .leaving → s.entries th.pid = some k →
      Advanced s i th { th with stage := .finished }
        { s.put i { th with stage := .finished } with
          entries := Function.update s.entries th.pid none }
  | missed : th.stage = .leaving → s.entries th.pid = none →
      Advanced s i th { th with stage := .failed } (s.put i { th with stage := .failed })

theorem advance_advanced (h : s.advance i th = some t) : ∃ new, Advanced s i th new t := by
  unfold Watch.advance at h
  cases stage : th.stage with
  | waiting =>
      rw [stage] at h
      dsimp only [Watch.waitpid] at h
      split at h
      next gone =>
        cases h
        exact ⟨_, .lost stage gone⟩
      next => cases h
      next child status zombie =>
        cases h
        exact ⟨_, .reaped child status stage zombie⟩
  | waited =>
      rw [stage] at h
      cases h
      exact ⟨_, .checked stage⟩
  | reporting =>
      rw [stage] at h
      cases h
      exact ⟨_, .pushed stage⟩
  | leaving =>
      rw [stage] at h
      dsimp only [Watch.pop] at h
      split at h
      next k entry =>
        cases h
        exact ⟨_, .popped k stage entry⟩
      next entry =>
        cases h
        exact ⟨_, .missed stage entry⟩
  | finished | failed =>
      rw [stage] at h
      cases h

/-- What a thread's step leaves alone. -/
theorem Advanced.frame {new : Thread} (h : Advanced s i th new t) :
    new.child = th.child ∧ new.pid = th.pid ∧ t.threads = s.threads.set i new ∧
    t.spawned = s.spawned ∧
      t.fresh = s.fresh ∧ t.closed = s.closed ∧ t.overwritten = s.overwritten ∧
      ∀ pid proc, t.procs pid = some proc → s.procs pid = some proc := by
  cases h with
  | lost | checked | pushed | popped | missed =>
      exact ⟨rfl, rfl, rfl, rfl, rfl, rfl, rfl, fun _ _ => id⟩
  | reaped child status =>
      refine ⟨rfl, rfl, rfl, rfl, rfl, rfl, rfl, fun pid proc found => ?_⟩
      simp only [Watch.setProc, Watch.put, Function.update_apply] at found
      split at found
      · cases found
      · exact found

/-- A child is new or has a thread inside `waitpid`. -/
def Awaits (s : Watch) (child pid : Nat) : Prop :=
  s.fresh = some (child, pid) ∨
    ∃ (i : Nat) (th : Thread), s.threads[i]? = some th ∧ th.stage = .waiting ∧ th.child = child ∧
    th.pid = pid

/-- Numbers of children are used once. -/
structure Sound (s : Watch) : Prop where
  thread : ∀ (i : Nat) (th : Thread), s.threads[i]? = some th → th.child < s.spawned
  blank : ∀ (i : Nat) (th : Thread), s.threads[i]? = some th → th.stage = .waiting →
      th.reaped = none
  fresh : ∀ child pid, s.fresh = some (child, pid) → child < s.spawned ∧
    ∀ (i : Nat) (th : Thread), s.threads[i]? = some th → th.child ≠ child
  distinct : ∀ (i j : Nat) (th other : Thread), s.threads[i]? = some th →
      s.threads[j]? = some other →
    th.child = other.child → i = j

/-- Each thread that has waited has waited for its own child. -/
def Truthful (s : Watch) : Prop :=
  ∀ (i : Nat) (th : Thread), s.threads[i]? = some th → th.stage ≠ .waiting →
    ∃ status, th.reaped = some (th.child, status)

/-- Each child that is awaited still has its pid. -/
def Owned (s : Watch) : Prop :=
  ∀ child pid, Awaits s child pid → ∃ status, s.procs pid = some ⟨child, status⟩

/-- Nobody else waits for a child that is awaited. -/
def NotStolen (s : Watch) : Action → Prop
  | .reap pid => ∀ child, ¬ Awaits s child pid
  | .spawn _ | .add | .exits _ _ | .thread _ | .close => True

theorem Awaits.lt (sound : Sound s) {child pid : Nat} (h : Awaits s child pid) :
    child < s.spawned := by
  rcases h with new | ⟨i, th, there, -, rfl, -⟩
  · exact (sound.fresh child pid new).1
  · exact sound.thread i th there

theorem threads_append (th : Thread) (i : Nat) (other : Thread)
    (there : (s.threads ++ [th])[i]? = some other) :
    s.threads[i]? = some other ∨ i = s.threads.length ∧ other = th := by
  rcases Nat.lt_trichotomy i s.threads.length with inside | rfl | outside
  · rw [List.getElem?_append_left inside] at there
    exact .inl there
  · rw [List.getElem?_concat_length] at there
    cases there
    exact .inr ⟨rfl, rfl⟩
  · rw [List.getElem?_eq_none (by rw [List.length_append, List.length_singleton]; omega)] at there
    cases there

theorem Sound.addChildHandler (h : Sound s) {child pid : Nat} (new : s.fresh = some (child, pid)) :
    Sound (s.addChildHandler child pid) where
  thread := by
    intro i th there
    rcases threads_append _ i th there with old | ⟨-, rfl⟩
    · exact h.thread i th old
    · exact (h.fresh child pid new).1
  blank := by
    intro i th there waiting
    rcases threads_append _ i th there with old | ⟨-, rfl⟩
    · exact h.blank i th old waiting
    · rfl
  fresh := fun child pid none => by cases none
  distinct := by
    intro i j th other first second same
    rcases threads_append _ i th first with old | ⟨here, rfl⟩
    · rcases threads_append _ j other second with old' | ⟨-, rfl⟩
      · exact h.distinct i j th other old old' same
      · exact absurd same ((h.fresh child pid new).2 i th old)
    · rcases threads_append _ j other second with old' | ⟨here', -⟩
      · exact absurd same.symm ((h.fresh child pid new).2 j other old')
      · rw [here, here']

/-- A thread after a step is the one before it or the one that moved. -/
theorem Advanced.thread_cases {new other : Thread} (h : Advanced s i th new t)
    (there : s.threads[i]? = some th) (found : t.threads[j]? = some other) : j = i ∧ other = new ∨
    j ≠ i ∧ s.threads[j]? = some other := by
  obtain ⟨-, -, threads, -⟩ := h.frame
  rw [threads] at found
  have look := put_get there new j
  rw [Watch.put] at look
  rw [look] at found
  split at found
  next same =>
    cases found
    exact .inl ⟨same, rfl⟩
  next apart => exact .inr ⟨apart, found⟩

theorem Advanced.other {new other : Thread} (h : Advanced s i th new t)
    (there : s.threads[i]? = some th) (apart : j ≠ i) (old : s.threads[j]? = some other) :
    t.threads[j]? = some other := by
  obtain ⟨-, -, threads, -⟩ := h.frame
  have look := put_get there new j
  rw [Watch.put] at look
  rw [threads, look, if_neg apart, old]

theorem Advanced.self {new : Thread} (h : Advanced s i th new t) (there : s.threads[i]? = some th) :
    t.threads[i]? = some new := by
  obtain ⟨-, -, threads, -⟩ := h.frame
  have look := put_get there new i
  rw [Watch.put] at look
  rw [threads, look, if_pos rfl]

/-- A thread never waits again, and what it has waited for stays. -/
theorem Advanced.moved {new : Thread} (h : Advanced s i th new t) :
    new.stage ≠ .waiting ∧ (th.stage ≠ .waiting → new.reaped = th.reaped) := by
  cases h with
  | lost waiting => exact ⟨by simp, fun moved => absurd waiting moved⟩
  | reaped child status waiting => exact ⟨by simp, fun moved => absurd waiting moved⟩
  | checked =>
      refine ⟨?_, fun _ => rfl⟩
      dsimp only
      split <;> simp
  | pushed | popped | missed => exact ⟨by simp, fun _ => rfl⟩

theorem Sound.advance {new : Thread} (sound : Sound s) (there : s.threads[i]? = some th)
    (h : Advanced s i th new t) :
    Sound t := by
  obtain ⟨child, -, -, spawned, fresh, -, -, -⟩ := h.frame
  -- every thread of the new state has the child of a thread at the same place
  have before : ∀ (j : Nat) (other : Thread), t.threads[j]? = some other →
      ∃ old : Thread, s.threads[j]? = some old ∧ old.child = other.child := by
    intro j other found
    rcases h.thread_cases there found with ⟨rfl, rfl⟩ | ⟨-, old⟩
    · exact ⟨th, there, child.symm⟩
    · exact ⟨other, old, rfl⟩
  constructor
  · intro j other found
    obtain ⟨old, there', same⟩ := before j other found
    rw [spawned, ← same]
    exact sound.thread j old there'
  · intro j other found waiting
    rcases h.thread_cases there found with ⟨rfl, rfl⟩ | ⟨-, old⟩
    · exact absurd waiting h.moved.1
    · exact sound.blank j other old waiting
  · intro c pid new'
    rw [fresh] at new'
    rw [spawned]
    refine ⟨(sound.fresh c pid new').1, fun j other found => ?_⟩
    obtain ⟨old, there', same⟩ := before j other found
    rw [← same]
    exact (sound.fresh c pid new').2 j old there'
  · intro j k one two first second same
    obtain ⟨old, there', same'⟩ := before j one first
    obtain ⟨old', there'', same''⟩ := before k two second
    exact sound.distinct j k old old' there' there'' (by rw [same', same'', same])

theorem step_sound (s : Watch) (a : Action) (t : Watch) (sound : Sound s) (h : step s a = some t) :
    Sound t := by
  cases a with
  | spawn pid =>
      simp only [step, Option.ite_none_right_eq_some, Option.some.injEq] at h
      obtain ⟨⟨-, -, -⟩, rfl⟩ := h
      exact {
        thread := fun i th there => Nat.lt_succ_of_lt (sound.thread i th there)
        blank := sound.blank
        fresh := by
          intro child pid' new
          cases new
          exact ⟨Nat.lt_succ_self _, fun i th there => Nat.ne_of_lt (sound.thread i th there)⟩
        distinct := sound.distinct }
  | add =>
      obtain ⟨⟨child, pid⟩, new, rfl⟩ := Option.map_eq_some_iff.mp h
      exact sound.addChildHandler new
  | exits pid status =>
      simp only [step] at h
      split at h
      · cases h
        exact ⟨sound.thread, sound.blank, sound.fresh, sound.distinct⟩
      · cases h
  | reap pid =>
      simp only [step] at h
      split at h
      · cases h
        exact ⟨sound.thread, sound.blank, sound.fresh, sound.distinct⟩
      · cases h
  | thread i =>
      obtain ⟨th, there, moved⟩ := Option.bind_eq_some_iff.mp h
      obtain ⟨new, advanced⟩ := advance_advanced moved
      exact sound.advance there advanced
  | close =>
      cases h
      exact ⟨sound.thread, sound.blank, sound.fresh, sound.distinct⟩

/-- Every thread waits for its own child, and can. -/
def Faithful (s : Watch) : Prop := Truthful s ∧ Owned s

theorem awaits_spawn {pid child pid' : Nat} (none : s.fresh = .none) :
    Awaits (s.spawn pid) child pid' ↔ (child = s.spawned ∧ pid' = pid) ∨ Awaits s child pid' := by
  simp only [Awaits, Watch.spawn, none, Option.some.injEq, Prod.mk.injEq]
  grind

theorem awaits_add {child pid child' pid' : Nat} (new : s.fresh = some (child, pid)) :
    Awaits (s.addChildHandler child pid) child' pid' ↔ Awaits s child' pid' := by
  constructor
  · rintro (none | ⟨i, th, there, waiting, rfl, rfl⟩)
    · cases none
    · rcases threads_append _ i th there with old | ⟨-, rfl⟩
      · exact .inr ⟨i, th, old, waiting, rfl, rfl⟩
      · exact .inl new
  · rintro (again | ⟨i, th, there, waiting, rfl, rfl⟩)
    · rw [new] at again
      cases again
      exact .inr ⟨s.threads.length, _, List.getElem?_concat_length, rfl, rfl, rfl⟩
    · obtain ⟨inside, -⟩ := List.getElem?_eq_some_iff.mp there
      exact .inr ⟨i, th, (List.getElem?_append_left inside).trans there, waiting, rfl, rfl⟩

/-- A thread that moves leaves the others where they are. -/
theorem Advanced.awaits {new : Thread} (h : Advanced s i th new t) (there : s.threads[i]? = some th)
    {child pid : Nat} : Awaits s child pid ↔
      (th.stage = .waiting ∧ th.child = child ∧ th.pid = pid) ∨ Awaits t child pid := by
  obtain ⟨-, -, -, -, fresh, -⟩ := h.frame
  constructor
  · rintro (new' | ⟨j, other, found, waiting, rfl, rfl⟩)
    · exact .inr (.inl (fresh.trans new'))
    · by_cases same : j = i
      · subst same
        cases there.symm.trans found
        exact .inl ⟨waiting, rfl, rfl⟩
      · exact .inr (.inr ⟨j, other, h.other there same found, waiting, rfl, rfl⟩)
  · rintro (⟨waiting, rfl, rfl⟩ | new' | ⟨j, other, found, waiting, rfl, rfl⟩)
    · exact .inr ⟨i, th, there, waiting, rfl, rfl⟩
    · exact .inl (fresh.symm.trans new')
    · rcases h.thread_cases there found with ⟨-, rfl⟩ | ⟨-, old⟩
      · exact absurd waiting h.moved.1
      · exact .inr ⟨j, other, old, waiting, rfl, rfl⟩

/-- The other children that are awaited are not the one of a thread. -/
theorem Sound.apart {new : Thread} (sound : Sound s) (h : Advanced s i th new t)
    (there : s.threads[i]? = some th) {child pid : Nat} (awaits : Awaits t child pid) :
    child ≠ th.child := by
  obtain ⟨-, -, -, -, fresh, -⟩ := h.frame
  rcases awaits with new' | ⟨j, other, found, waiting, rfl, rfl⟩
  · exact fun same => (sound.fresh child pid (fresh.symm.trans new')).2 i th there same.symm
  · rcases h.thread_cases there found with ⟨-, rfl⟩ | ⟨apart, old⟩
    · exact absurd waiting h.moved.1
    · exact fun same => apart (sound.distinct j i other th old there same)

/-- A step of a thread keeps the faith. -/
theorem Faithful.advance {new : Thread} (sound : Sound s) (faithful : Faithful s)
    (there : s.threads[i]? = some th) (h : Advanced s i th new t) : Faithful t := by
  obtain ⟨truthful, owned⟩ := faithful
  have mine : th.stage = .waiting → ∃ status, s.procs th.pid = some ⟨th.child, status⟩ :=
    fun waiting => owned _ _ ((h.awaits there).mpr (.inl ⟨waiting, rfl, rfl⟩))
  constructor
  · intro j other found past
    rcases h.thread_cases there found with ⟨rfl, rfl⟩ | ⟨-, old⟩
    · obtain ⟨child, -⟩ := h.frame
      cases h with
      | lost waiting gone =>
          obtain ⟨status, found⟩ := mine waiting
          cases gone.symm.trans found
      | reaped child status waiting zombie =>
          obtain ⟨status', found⟩ := mine waiting
          cases zombie.symm.trans found
          exact ⟨status, rfl⟩
      | checked stage => exact truthful j th there (by simp [stage])
      | pushed stage => exact truthful j th there (by simp [stage])
      | popped k stage => exact truthful j th there (by simp [stage])
      | missed stage => exact truthful j th there (by simp [stage])
    · exact truthful j other old past
  · intro child pid awaits
    have before : Awaits s child pid := (h.awaits there).mpr (.inr awaits)
    obtain ⟨status, found⟩ := owned child pid before
    have apart := sound.apart h there awaits
    refine ⟨status, ?_⟩
    cases h with
    | lost | checked | pushed | popped | missed => exact found
    | reaped child' status' waiting zombie =>
        simp only [Watch.setProc, Watch.put, Function.update_apply]
        split
        next same =>
          obtain ⟨status'', own⟩ := mine waiting
          rw [same] at found
          cases own.symm.trans found
          exact absurd rfl apart
        next => exact found

/-- A faithful state stays so exactly through the steps that steal nothing. -/
theorem step_faithful_iff {a : Action} (sound : Sound s) (faithful : Faithful s)
    (h : step s a = some t) : Faithful t ↔ NotStolen s a := by
  obtain ⟨truthful, owned⟩ := faithful
  cases a with
  | spawn pid =>
      simp only [step, Option.ite_none_right_eq_some, Option.some.injEq] at h
      obtain ⟨⟨none, free, -⟩, rfl⟩ := h
      refine iff_of_true ⟨truthful, fun child pid' awaits => ?_⟩ trivial
      simp only [Watch.spawn, Function.update_apply]
      rcases (awaits_spawn none).mp awaits with ⟨rfl, rfl⟩ | old
      · exact ⟨.none, if_pos rfl⟩
      · obtain ⟨status, found⟩ := owned child pid' old
        refine ⟨status, ?_⟩
        rw [if_neg, found]
        rintro rfl
        cases free.symm.trans found
  | add =>
      obtain ⟨⟨child, pid⟩, new, rfl⟩ := Option.map_eq_some_iff.mp h
      refine iff_of_true ⟨fun i th there past => ?_, fun child' pid' awaits => ?_⟩ trivial
      · rcases threads_append _ i th there with old | ⟨-, rfl⟩
        · exact truthful i th old past
        · exact absurd rfl past
      · exact owned child' pid' ((awaits_add new).mp awaits)
  | exits pid status =>
      simp only [step] at h
      split at h
      next child running =>
        cases h
        refine iff_of_true ⟨truthful, fun child' pid' awaits => ?_⟩ trivial
        obtain ⟨status', found⟩ := owned child' pid' awaits
        simp only [Watch.setProc, Function.update_apply]
        by_cases same : pid' = pid
        · subst same
          cases running.symm.trans found
          exact ⟨some status, if_pos rfl⟩
        · exact ⟨status', by rw [if_neg same, found]⟩
      next => cases h
  | reap pid =>
      simp only [step] at h
      split at h
      next child status zombie =>
        cases h
        constructor
        · rintro ⟨-, still⟩ child' awaits
          obtain ⟨status', found⟩ := still child' pid awaits
          simp only [Watch.setProc, Function.update_self] at found
          cases found
        · intro free
          refine ⟨truthful, fun child' pid' awaits => ?_⟩
          obtain ⟨status', found⟩ := owned child' pid' awaits
          refine ⟨status', ?_⟩
          simp only [Watch.setProc, Function.update_apply]
          rw [if_neg, found]
          rintro rfl
          exact free child' awaits
      next => cases h
  | thread i =>
      obtain ⟨th, there, moved⟩ := Option.bind_eq_some_iff.mp h
      obtain ⟨new, advanced⟩ := advance_advanced moved
      exact iff_of_true (Faithful.advance sound ⟨truthful, owned⟩ there advanced) trivial
  | close =>
      cases h
      exact iff_of_true ⟨truthful, owned⟩ trivial

/-- What a thread has waited for is not made good later, and a child that has lost its pid
does not get it back. -/
theorem faithful_of_step {a : Action} (sound : Sound s) (h : step s a = some t)
    (faithful : Faithful t) :
    Faithful s := by
  obtain ⟨truthful, owned⟩ := faithful
  cases a with
  | spawn pid =>
      simp only [step, Option.ite_none_right_eq_some, Option.some.injEq] at h
      obtain ⟨⟨none, free, -⟩, rfl⟩ := h
      refine ⟨truthful, fun child pid' awaits => ?_⟩
      obtain ⟨status, found⟩ := owned child pid' ((awaits_spawn none).mpr (.inr awaits))
      simp only [Watch.spawn, Function.update_apply] at found
      split at found
      · cases found
        exact absurd (awaits.lt sound) (Nat.lt_irrefl _)
      · exact ⟨status, found⟩
  | add =>
      obtain ⟨⟨child, pid⟩, new, rfl⟩ := Option.map_eq_some_iff.mp h
      refine ⟨fun i th there past => ?_, fun child' pid' awaits =>
        owned child' pid' ((awaits_add new).mpr awaits)⟩
      obtain ⟨inside, -⟩ := List.getElem?_eq_some_iff.mp there
      exact truthful i th ((List.getElem?_append_left inside).trans there) past
  | exits pid status =>
      simp only [step] at h
      split at h
      next child running =>
        cases h
        refine ⟨truthful, fun child' pid' awaits => ?_⟩
        obtain ⟨status', found⟩ := owned child' pid' awaits
        simp only [Watch.setProc, Function.update_apply] at found
        split at found
        next same =>
          cases found
          exact ⟨none, same ▸ running⟩
        next => exact ⟨status', found⟩
      next => cases h
  | reap pid =>
      simp only [step] at h
      split at h
      next child status zombie =>
        cases h
        refine ⟨truthful, fun child' pid' awaits => ?_⟩
        obtain ⟨status', found⟩ := owned child' pid' awaits
        simp only [Watch.setProc, Function.update_apply] at found
        split at found
        · cases found
        · exact ⟨status', found⟩
      next => cases h
  | thread i =>
      obtain ⟨th, there, moved⟩ := Option.bind_eq_some_iff.mp h
      obtain ⟨new, advanced⟩ := advance_advanced moved
      obtain ⟨child, -, -, -, -, -, -, procs⟩ := advanced.frame
      constructor
      · intro j other found past
        by_cases same : j = i
        · subst same
          cases there.symm.trans found
          rw [← advanced.moved.2 past, ← child]
          exact truthful j new (advanced.self there) advanced.moved.1
        · exact truthful j other (advanced.other there same found) past
      · intro child' pid' awaits
        rcases (advanced.awaits there).mp awaits with ⟨waiting, rfl, rfl⟩ | later
        · obtain ⟨status, own⟩ := truthful i new (advanced.self there) advanced.moved.1
          cases advanced with
          | lost _ gone => cases (sound.blank i th there waiting).symm.trans own
          | reaped child' status' _ zombie =>
              have same : child' = th.child := (Prod.mk.inj (Option.some.inj own)).1
              exact ⟨some status', same ▸ zombie⟩
          | checked stage | pushed stage => cases waiting.symm.trans stage
          | popped k stage => cases waiting.symm.trans stage
          | missed stage => cases waiting.symm.trans stage
        · obtain ⟨status, found⟩ := owned child' pid' later
          exact ⟨status, procs pid' _ found⟩
  | close =>
      cases h
      exact ⟨truthful, owned⟩

theorem initial_sound : Sound initial where
  thread := fun _ _ there => by cases there
  blank := fun _ _ there => by cases there
  fresh := fun _ _ new => by cases new
  distinct := fun _ _ _ _ there => by cases there

theorem initial_faithful : Faithful initial := by
  refine ⟨fun _ _ there => (by cases there), ?_⟩
  rintro child pid (new | ⟨i, th, there, -⟩)
  · cases new
  · cases there

theorem faithful_iff {actions : List Action} (h : run step initial actions = some t) :
    Faithful t ↔ Guarded step NotStolen initial actions :=
  run_exact (C := fun _ => True) (I := Sound) (P := Faithful)
      (fun s a t _ sound one => step_sound s a t sound one)
    (fun _ _ _ _ sound faithful one => step_faithful_iff sound faithful one)
    (fun _ _ _ _ sound lost one faithful => lost (faithful_of_step sound one faithful)) h
    (fun _ _ => trivial) initial_sound initial_faithful

def Watch.reportsOf (s : Watch) (i : Nat) : List Report := s.reports.filter fun r => r.thread == i

/-- A thread reports once at most, with what it has waited for, and not at all only if the
loop was closed. -/
structure Reported (s : Watch) : Prop where
  before : ∀ (i : Nat) (th : Thread), s.threads[i]? = some th →
    th.stage = .waiting ∨ th.stage = .waited ∨ th.stage = .reporting → s.reportsOf i = []
  after : ∀ (i : Nat) (th : Thread), s.threads[i]? = some th →
    th.stage = .leaving ∨ th.stage = .finished ∨ th.stage = .failed →
      s.reportsOf i = [⟨i, th.pid, th.returncode⟩] ∨ s.reportsOf i = [] ∧ s.closed = true
  absent : ∀ i, s.threads[i]? = none → s.reportsOf i = []

theorem reportsOf_push (j : Nat) :
    (s.push i th).reportsOf j = if j = i then s.reportsOf i ++ [⟨i, th.pid, th.returncode⟩]
    else s.reportsOf j := by
  simp only [Watch.reportsOf, Watch.push, List.filter_append, List.filter_cons, beq_iff_eq,
    List.filter_nil]
  by_cases same : j = i
  · subst same
    simp
  · rw [if_neg same, if_neg fun back => same back.symm, List.append_nil]

theorem reportsOf_advanced {new : Thread} (h : Advanced s i th new t) (j : Nat) : t.reportsOf j =
    if j = i ∧ th.stage = .reporting then s.reportsOf i ++ [⟨i, th.pid, th.returncode⟩]
        else s.reportsOf j := by
  cases h with
  | lost stage | checked stage | missed stage => exact (if_neg (by simp [stage])).symm
  | reaped child status stage => exact (if_neg (by simp [stage])).symm
  | popped k stage => exact (if_neg (by simp [stage])).symm
  | pushed stage =>
      rw [reportsOf_push]
      simp only [stage, and_true]

theorem Reported.advance {new : Thread} (reported : Reported s) (there : s.threads[i]? = some th)
    (h : Advanced s i th new t) : Reported t := by
  obtain ⟨-, -, threads, -, -, closed, -⟩ := h.frame
  constructor
  · intro j other found early
    rw [reportsOf_advanced h]
    rcases h.thread_cases there found with ⟨rfl, rfl⟩ | ⟨apart, old⟩
    · cases h with
      | lost stage => simp [stage, reported.before j th there (.inl stage)]
      | reaped child status stage => simp [stage, reported.before j th there (.inl stage)]
      | checked stage => simp [stage, reported.before j th there (.inr (.inl stage))]
      | pushed | popped | missed => simp at early
    · simp [apart, reported.before j other old early]
  · intro j other found late
    rw [reportsOf_advanced h, closed]
    rcases h.thread_cases there found with ⟨rfl, rfl⟩ | ⟨apart, old⟩
    · cases h with
      | lost | reaped => simp at late
      | checked stage =>
          right
          dsimp only at late
          split at late
          next shut => simp [stage, shut, reported.before j th there (.inr (.inl stage))]
          next => simp at late
      | pushed stage =>
          left
          simp [stage, reported.before j th there (.inr (.inr stage)), Thread.returncode]
      | popped k stage =>
          rw [if_neg (by simp [stage])]
          exact reported.after j th there (.inl stage)
      | missed stage =>
          rw [if_neg (by simp [stage])]
          exact reported.after j th there (.inl stage)
    · rw [if_neg (by simp [apart])]
      exact reported.after j other old late
  · intro j none
    have apart : j ≠ i := by
      rintro rfl
      cases none.symm.trans (h.self there)
    rw [reportsOf_advanced h, if_neg (by simp [apart])]
    apply reported.absent
    have look := put_get there new j
    rw [Watch.put] at look
    rw [threads, look, if_neg apart] at none
    exact none

theorem step_reported (s : Watch) (a : Action) (t : Watch) (reported : Reported s)
    (h : step s a = some t) :
    Reported t := by
  cases a with
  | spawn pid =>
      simp only [step, Option.ite_none_right_eq_some, Option.some.injEq] at h
      obtain ⟨-, rfl⟩ := h
      exact ⟨reported.before, reported.after, reported.absent⟩
  | add =>
      obtain ⟨⟨child, pid⟩, new, rfl⟩ := Option.map_eq_some_iff.mp h
      have beyond : s.reportsOf s.threads.length = [] :=
        reported.absent _ (List.getElem?_eq_none (Nat.le_refl _))
      constructor
      · intro i th there early
        rcases threads_append _ i th there with old | ⟨rfl, -⟩
        · exact reported.before i th old early
        · exact beyond
      · intro i th there late
        rcases threads_append _ i th there with old | ⟨-, rfl⟩
        · exact reported.after i th old late
        · simp at late
      · intro i none
        have outside : s.threads.length ≤ i := by
          have long := List.getElem?_eq_none_iff.mp none
          simp only [Watch.addChildHandler, List.length_append] at long
          omega
        exact reported.absent i (List.getElem?_eq_none outside)
  | exits pid status =>
      simp only [step] at h
      split at h
      · cases h
        exact ⟨reported.before, reported.after, reported.absent⟩
      · cases h
  | reap pid =>
      simp only [step] at h
      split at h
      · cases h
        exact ⟨reported.before, reported.after, reported.absent⟩
      · cases h
  | thread i =>
      obtain ⟨th, there, moved⟩ := Option.bind_eq_some_iff.mp h
      obtain ⟨new, advanced⟩ := advance_advanced moved
      exact reported.advance there advanced
  | close =>
      cases h
      refine ⟨reported.before, fun i th there late => ?_, reported.absent⟩
      exact (reported.after i th there late).imp_right fun none => ⟨none.1, rfl⟩

theorem initial_reported : Reported initial where
  before := fun _ _ there => by cases there
  after := fun _ _ there => by cases there
  absent := fun _ _ => rfl

/-- All children that were created have a thread, and all threads are at their end. -/
def Settled (s : Watch) : Prop :=
  s.fresh = none ∧ ∀ (i : Nat) (th : Thread), s.threads[i]? = some th → th.stage = .finished ∨
    th.stage = .failed

instance : Decidable (Settled s) :=
  decidable_of_iff (s.fresh = none ∧ ∀ th ∈ s.threads, th.stage = .finished ∨ th.stage = .failed) <|
      by
    unfold Settled
    refine and_congr_right fun _ => ⟨fun all i th there => all th (List.mem_of_getElem? there),
      fun all th there => ?_⟩
    obtain ⟨i, look⟩ := List.mem_iff_getElem?.mp there
    exact all i th look

/-- The one report of a thread is its child's own return code. -/
def ReportedOwn (s : Watch) : Prop :=
  ∀ (i : Nat) (th : Thread), s.threads[i]? = some th → ∃ status,
      th.reaped = some (th.child, status) ∧
    s.reportsOf i = [⟨i, th.pid, waitstatusToExitcode status⟩]

/-- When every thread is at its end and the loop is open, every child has been reported
once with its own return code, exactly if nobody else waited for one that was awaited. -/
theorem children_reported_iff {actions : List Action} (h : run step initial actions = some t)
    (settled : Settled t) (running : t.closed = false) : ReportedOwn t ↔
    Guarded step NotStolen initial actions := by
  rw [← faithful_iff h]
  obtain ⟨none, finished⟩ := settled
  have reported : Reported t := run_invariant step_reported h initial_reported
  have past : ∀ (i : Nat) (th : Thread), t.threads[i]? = some th → th.stage ≠ .waiting := by
    intro i th there waiting
    rcases finished i th there with stage | stage
    · cases waiting.symm.trans stage
    · cases waiting.symm.trans stage
  constructor
  · intro own
    refine ⟨fun i th there _ => ?_, ?_⟩
    · obtain ⟨status, reaped, -⟩ := own i th there
      exact ⟨status, reaped⟩
    · rintro child pid (new | ⟨i, th, there, waiting, -⟩)
      · cases none.symm.trans new
      · exact absurd waiting (past i th there)
  · rintro ⟨truthful, -⟩ i th there
    obtain ⟨status, reaped⟩ := truthful i th there (past i th there)
    refine ⟨status, reaped, ?_⟩
    rcases reported.after i th there (.inr (finished i th there)) with once | ⟨-, closed⟩
    · rw [once, Thread.returncode, reaped]
    · rw [running] at closed
      cases closed

def Action.reaps : Action → Bool
  | .reap _ => true
  | _ => false

/-- Where nobody but the threads waits, nothing is stolen. -/
theorem guarded_of_not_reaps {actions : List Action} (none : ∀ a ∈ actions, a.reaps = false) :
    Guarded step NotStolen s actions := by
  refine (guarded_of_forall none).mono (I := fun _ => True) (fun _ _ _ _ _ _ => trivial)
    (fun s a _ other => ?_) trivial
  cases a with
  | reap pid => cases other
  | spawn | add | exits | thread | close => trivial

/-- Two children next to each other, the second one killed, and a third one with the pid
of the first, which it gets while that one's code is still to be handed over. -/
def threeChildren : List Action :=
  [.spawn 7, .add, .spawn 9, .add, .exits 7 256, .thread 0, .exits 9 9, .spawn 7, .add, .thread 1,
      .thread 0, .thread 0,
    .exits 7 512, .thread 1, .thread 1, .thread 2, .thread 0, .thread 2, .thread 2, .thread 1,
    .thread 2]

theorem three_children_reported : ∃ t, run step initial threeChildren = some t ∧ ReportedOwn t ∧
    t.reports = [⟨0, 7, 1⟩, ⟨1, 9, -9⟩, ⟨2, 7, 2⟩] := by
  have ran : ∃ t, run step initial threeChildren = some t ∧ Settled t ∧ t.closed = false ∧
      t.reports = [⟨0, 7, 1⟩, ⟨1, 9, -9⟩, ⟨2, 7, 2⟩] := ⟨_, rfl, by decide, rfl, rfl⟩
  obtain ⟨t, ran, settled, running, reports⟩ := ran
  refine ⟨t, ran, (children_reported_iff ran settled running).mpr ?_, reports⟩
  exact guarded_of_not_reaps (by decide)

def Thread.alive (th : Thread) : Bool := th.stage != .finished && th.stage != .failed

/-- The threads for a pid that are not at their end. -/
def Watch.alive (s : Watch) (pid : Nat) : Nat :=
  s.threads.countP fun th => th.pid == pid && th.alive

/-- The threads for a pid whose `pop` has raised a `KeyError`. -/
def Watch.keyErrors (s : Watch) (pid : Nat) : Nat :=
  s.threads.countP fun th => th.pid == pid && th.stage == .failed

/-- The threads for a pid make up for its entry, and each entry that was replaced for one
thread that is without an entry. -/
structure Booked (s : Watch) : Prop where
  entry : ∀ (pid k : Nat), s.entries pid = some k →
    ∃ th : Thread, s.threads[k]? = some th ∧ th.pid = pid ∧ th.alive = true
  count : ∀ pid, s.alive pid + s.keyErrors pid = s.overwritten pid + (s.entries pid).isSome.toNat

theorem countP_set {α : Type} {l : List α} {a : α} {i : Nat} (p : α → Bool) (there : l[i]? = some a)
    (b : α) : (l.set i b).countP p + (p a).toNat = l.countP p + (p b).toNat := by
  obtain ⟨inside, rfl⟩ := List.getElem?_eq_some_iff.mp there
  have counted := List.boole_getElem_le_countP (p := p) inside
  rw [List.countP_set inside]
  cases before : p l[i] with
  | true =>
      rw [before, if_pos rfl] at counted
      cases after : p b with
      | true => simp only [if_true, Bool.toNat_true]; omega
      | false =>
          simp only [if_true, Bool.false_eq_true, if_false, Bool.toNat_true,
            Bool.toNat_false]; omega
  | false =>
      cases after : p b with
      | true => simp
      | false => simp

/-- A thread that is there stays alive or comes to its end. -/
theorem alive_advanced {new : Thread} (h : Advanced s i th new t) (there : s.threads[i]? = some th)
    (pid : Nat) : t.alive pid + (th.pid == pid && th.alive).toNat = s.alive
    pid + (new.pid == pid && new.alive).toNat ∧
      t.keyErrors pid + (th.pid == pid && th.stage == .failed).toNat =
        s.keyErrors pid + (new.pid == pid && new.stage == .failed).toNat := by
  obtain ⟨-, -, threads, -⟩ := h.frame
  simp only [Watch.alive, Watch.keyErrors, threads]
  exact ⟨countP_set _ there new, countP_set _ there new⟩

/-- The entries of a step other than a `pop` stay, and so do the numbers. -/
theorem Booked.same {new : Thread} (booked : Booked s) (there : s.threads[i]? = some th)
    (h : Advanced s i th new t) (entries : t.entries = s.entries) (before : th.alive = true)
    (after : new.alive = true) (fine : th.stage ≠ .failed) (fine' : new.stage ≠ .failed) :
    Booked t := by
  obtain ⟨-, pid, -, -, -, -, overwritten, -⟩ := h.frame
  constructor
  · intro p k entry
    rw [entries] at entry
    obtain ⟨other, found, same, alive⟩ := booked.entry p k entry
    by_cases here : k = i
    · subst here
      cases there.symm.trans found
      exact ⟨new, h.self there, pid.trans same, after⟩
    · exact ⟨other, h.other there here found, same, alive⟩
  · intro p
    have counts := alive_advanced h there p
    have sum := booked.count p
    rw [pid, before, after] at counts
    simp only [beq_eq_false_iff_ne.mpr fine, beq_eq_false_iff_ne.mpr fine', Bool.and_false]
      at counts
    rw [entries, overwritten]
    omega

/-- A thread that leaves is not alive behind its `pop`. -/
theorem alive_left {new : Thread} (h : Advanced s i th new t) (there : s.threads[i]? = some th)
    (stage : th.stage = .leaving) (dead : new.alive = false) (pid : Nat) :
    t.alive pid + (th.pid == pid).toNat = s.alive pid ∧
      t.keyErrors pid = s.keyErrors pid + (th.pid == pid && new.stage == .failed).toNat := by
  obtain ⟨-, same, -⟩ := h.frame
  have counts := alive_advanced h there pid
  have alive : th.alive = true := by rw [Thread.alive, stage]; rfl
  have fine : (th.stage == .failed) = false := by rw [stage]; rfl
  rw [same, alive, dead, fine, Bool.and_true, Bool.and_false] at counts
  exact counts

/-- What is said of the entries after a `pop`, which leaves none for the pid of its thread. -/
theorem Booked.left {new : Thread} (booked : Booked s) (there : s.threads[i]? = some th)
    (h : Advanced s i th new t) (stage : th.stage = .leaving) (dead : new.alive = false)
    (gone : t.entries th.pid = none) (others : ∀ pid, pid ≠ th.pid → t.entries pid = s.entries pid)
    (missed : (new.stage == .failed).toNat + (s.entries th.pid).isSome.toNat = 1) : Booked t := by
  obtain ⟨-, -, -, -, -, -, overwritten, -⟩ := h.frame
  constructor
  · intro pid k entry
    have other : pid ≠ th.pid := by
      rintro rfl
      cases gone.symm.trans entry
    rw [others pid other] at entry
    obtain ⟨owner, found, same, alive⟩ := booked.entry pid k entry
    refine ⟨owner, h.other there ?_ found, same, alive⟩
    rintro rfl
    cases there.symm.trans found
    exact other same.symm
  · intro pid
    obtain ⟨alive, errors⟩ := alive_left h there stage dead pid
    have sum := booked.count pid
    rw [overwritten]
    by_cases mine : pid = th.pid
    · subst mine
      rw [beq_self_eq_true, Bool.true_and] at errors
      rw [beq_self_eq_true, Bool.toNat_true] at alive
      rw [gone, Option.isSome_none, Bool.toNat_false]
      omega
    · have apart : (th.pid == pid) = false := beq_eq_false_iff_ne.mpr fun same => mine same.symm
      rw [apart, Bool.false_and, Bool.toNat_false] at errors
      rw [apart, Bool.toNat_false] at alive
      rw [others pid mine]
      omega

theorem Booked.advance {new : Thread} (booked : Booked s) (there : s.threads[i]? = some th)
    (h : Advanced s i th new t) : Booked t := by
  have moved := h
  cases h with
  | lost stage =>
      exact booked.same there moved rfl (by simp [Thread.alive, stage]) rfl (by simp [stage])
        (by simp)
  | reaped child status stage =>
      exact booked.same there moved rfl (by simp [Thread.alive, stage]) rfl (by simp [stage])
        (by simp)
  | checked stage =>
      refine booked.same there moved rfl (by simp [Thread.alive, stage]) ?_ (by simp [stage]) ?_
      · dsimp only [Thread.alive]
        split <;> rfl
      · dsimp only
        split <;> simp
  | pushed stage =>
      exact booked.same there moved rfl (by simp [Thread.alive, stage]) rfl (by simp [stage])
        (by simp)
  | popped k stage entry =>
      exact booked.left there moved stage rfl (Function.update_self ..)
        (fun pid other => Function.update_of_ne other _ _) (by rw [entry]; rfl)
  | missed stage entry =>
      exact booked.left there moved stage rfl entry (fun _ _ => rfl) (by rw [entry]; rfl)

/-- A new thread takes the entry of its pid, and one that is there is replaced. -/
theorem Booked.addChildHandler (booked : Booked s) (child pid : Nat) :
    Booked (s.addChildHandler child pid) := by
  constructor
  · intro p k entry
    simp only [Watch.addChildHandler, Function.update_apply] at entry
    split at entry
    next same =>
      cases entry
      exact ⟨_, List.getElem?_concat_length, same.symm, rfl⟩
    next =>
      obtain ⟨th, found, same, alive⟩ := booked.entry p k entry
      obtain ⟨inside, -⟩ := List.getElem?_eq_some_iff.mp found
      exact ⟨th, (List.getElem?_append_left inside).trans found, same, alive⟩
  · intro p
    have sum := booked.count p
    have alive : (s.addChildHandler child pid).alive p = s.alive p + (pid == p).toNat := by
      simp only [Watch.alive, Watch.addChildHandler, List.countP_append, List.countP_singleton,
        Thread.alive]
      cases pid == p <;> rfl
    have errors : (s.addChildHandler child pid).keyErrors p = s.keyErrors p := by
      simp [Watch.keyErrors, Watch.addChildHandler, List.countP_append]
    rw [alive, errors]
    by_cases mine : p = pid
    · subst mine
      cases there : s.entries p with
      | none =>
          rw [there] at sum
          simp only [Watch.addChildHandler, there, beq_self_eq_true, Function.update_self,
            Option.isSome_some, Option.isSome_none, Bool.false_eq_true, if_false, Bool.toNat_true,
            Bool.toNat_false] at sum ⊢
          omega
      | some k =>
          rw [there] at sum
          simp only [Watch.addChildHandler, there, beq_self_eq_true, Function.update_self,
            Option.isSome_some, if_true, Bool.toNat_true] at sum ⊢
          omega
    · have apart : (pid == p) = false := beq_eq_false_iff_ne.mpr fun same => mine same.symm
      have kept : (s.addChildHandler child pid).overwritten p = s.overwritten p := by
        simp only [Watch.addChildHandler]
        split
        · exact Function.update_of_ne mine _ _
        · rfl
      have same : (s.addChildHandler child pid).entries p = s.entries p :=
        Function.update_of_ne mine _ _
      rw [kept, same, apart, Bool.toNat_false, Nat.add_zero]
      exact sum

theorem step_booked (s : Watch) (a : Action) (t : Watch) (booked : Booked s)
    (h : step s a = some t) : Booked t := by
  cases a with
  | spawn pid =>
      simp only [step, Option.ite_none_right_eq_some, Option.some.injEq] at h
      obtain ⟨-, rfl⟩ := h
      exact ⟨booked.entry, booked.count⟩
  | add =>
      obtain ⟨⟨child, pid⟩, -, rfl⟩ := Option.map_eq_some_iff.mp h
      exact booked.addChildHandler child pid
  | exits pid status =>
      simp only [step] at h
      split at h
      · cases h
        exact ⟨booked.entry, booked.count⟩
      · cases h
  | reap pid =>
      simp only [step] at h
      split at h
      · cases h
        exact ⟨booked.entry, booked.count⟩
      · cases h
  | thread i =>
      obtain ⟨th, there, moved⟩ := Option.bind_eq_some_iff.mp h
      obtain ⟨new, advanced⟩ := advance_advanced moved
      exact booked.advance there advanced
  | close =>
      cases h
      exact ⟨booked.entry, booked.count⟩

theorem initial_booked : Booked initial where
  entry := fun _ _ there => by cases there
  count := fun _ => rfl

/-- When every thread is at its end, as many of them have raised a `KeyError` for a pid as
entries of the pid were replaced while their thread was alive, and no entry is left. -/
theorem key_errors_eq_overwritten {actions : List Action} (h : run step initial actions = some t)
    (settled : Settled t) (pid : Nat) : t.keyErrors pid = t.overwritten pid ∧
    t.entries pid = none := by
  have booked : Booked t := run_invariant step_booked h initial_booked
  have atEnd : ∀ (i : Nat) (th : Thread), t.threads[i]? = some th → th.alive = false := by
    intro i th there
    rcases settled.2 i th there with stage | stage
    · rw [Thread.alive, stage]
      rfl
    · rw [Thread.alive, stage]
      rfl
  have none : t.entries pid = none := by
    cases entry : t.entries pid with
    | none => rfl
    | some k =>
        obtain ⟨th, there, -, alive⟩ := booked.entry pid k entry
        rw [atEnd k th there] at alive
        cases alive
  have sum := booked.count pid
  have dead : t.alive pid = 0 := by
    apply List.countP_eq_zero.mpr
    intro th there
    obtain ⟨i, look⟩ := List.mem_iff_getElem?.mp there
    rw [atEnd i th look, Bool.and_false]
    exact Bool.false_ne_true
  rw [dead, none, Option.isSome_none, Bool.toNat_false, Nat.zero_add, Nat.add_zero] at sum
  exact ⟨sum, none⟩

/-- The pid of the first child is used again before its thread has left. -/
def pidAgain : List Action :=
  [.spawn 7, .add, .exits 7 0, .thread 0, .spawn 7, .add, .thread 0, .thread 0, .thread 0,
      .exits 7 256, .thread 1,
    .thread 1, .thread 1, .thread 1]

theorem pid_again_key_error : ∃ t, run step initial pidAgain = some t ∧ t.keyErrors 7 = 1 := by
  have ran : ∃ t, run step initial pidAgain = some t ∧ Settled t ∧ t.overwritten 7 = 1 :=
    ⟨_, rfl, by decide, rfl⟩
  obtain ⟨t, ran, settled, one⟩ := ran
  exact ⟨t, ran, (key_errors_eq_overwritten ran settled 7).1.trans one⟩

end TokioLoop.ChildWatchers
