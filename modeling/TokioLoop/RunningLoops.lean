import Mathlib.Data.List.Basic
import Mathlib.Logic.Function.Basic
import TokioLoop.Lib.Runs

/-!
Which `TokioLoop` a thread is told that it runs: asyncio's own record, the thread-local
`current_loop`, the dictionary `_tokioloop_loops` and the patched `get_running_loop`, which
goes by the latter two when asyncio has no record. The state begins behind the first
`TokioLoop()`, which installs the policy and the patches.

A thread is a thread state of Python: every attachment of a worker of the runtime is one,
and only the one that starts the worker registers it.
-/
namespace TokioLoop.RunningLoops

open Runs

/-- An attribute of a `threading.local` that may not be there. -/
inductive Slot where
  | unset
  | empty
  | holds (l : Nat)
  deriving DecidableEq, Repr

/-- Loops and threads are numbered. `registered` are the keys of `_tokioloop_loops`, which
are in the order of the loops; `runner` is the thread of `_thread_id` and `owner` the loop
whose runtime a thread works for. `running` is asyncio's record for a thread, `current` its
`current_loop`, and `policy` the loop of `TokioLoopPolicy`. -/
structure State where
  loops : Nat
  registered : Nat → Bool
  closed : Nat → Bool
  runner : Nat → Option Nat
  threads : Nat
  owner : Nat → Option Nat
  running : Nat → Option Nat
  current : Nat → Slot
  policy : Nat → Slot

/-- One thread, which has made one loop. -/
def initial : State where
  loops := 1
  registered := fun l => l == 0
  closed := fun _ => false
  runner := fun _ => none
  threads := 1
  owner := fun _ => none
  running := fun _ => none
  current := fun _ => .unset
  policy := Function.update (fun _ => .unset) 0 (.holds 0)

/-- `_register_tokio_thread(loop, setcurrent)` in a thread. -/
def State.registerTokioThread (s : State) (th l : Nat) (setcurrent : Bool) : State :=
  { s with
    registered := Function.update s.registered l true
    current := if setcurrent then Function.update s.current th (.holds l) else s.current }

/-- `TokioLoop()` -/
def State.create (s : State) (th : Nat) : State :=
  { s.registerTokioThread th s.loops false with
    loops := s.loops + 1
    policy := Function.update s.policy th (.holds s.loops) }

/-- The registered loops that are not closed. -/
def State.openLoops (s : State) : List Nat :=
  (List.range s.loops).filter fun l => s.registered l && !s.closed l

/-- `_set_running_loop` -/
def State.setRunning (s : State) (th : Nat) (loop : Option Nat) : State :=
  { s with running := Function.update s.running th loop }

def State.setCurrent (s : State) (th : Nat) (slot : Slot) : State :=
  { s with current := Function.update s.current th slot }

/-- The first half of the handler of `RuntimeError`: the loop of the thread, or each of the
open loops in turn. -/
def State.recover (s : State) (th : Nat) : State :=
  match s.current th with
  | .unset => s.openLoops.foldl (fun s l => (s.setCurrent th (.holds l)).setRunning th (some l)) s
  | .empty => s
  | .holds l => if s.closed l then s else s.setRunning th (some l)

/-- The second half, where a loop that is closed is forgotten. -/
def State.forget (s : State) (th : Nat) : State :=
  match s.current th with
  | .unset | .empty => s
  | .holds l => if s.closed l then s.setCurrent th .empty else s

/-- `_TOKIOLOOP_PATCHED_get_running_loop`; the answer is asyncio's record behind it. -/
def State.getRunningLoop (s : State) (th : Nat) : State :=
  match s.running th with
  | some _ => s
  | none => (s.recover th).forget th

/-- `get_event_loop` of asyncio, and of the policy where nothing runs. -/
def State.getEventLoop (s : State) (th : Nat) : State :=
  let s := s.getRunningLoop th
  match s.running th, s.policy th with
  | some _, _ => s
  | none, .unset => (s.create th).registerTokioThread th s.loops true
  | none, .empty | none, .holds _ => s

/-- `_run_forever_pre` raises. -/
def State.Refused (s : State) (th l : Nat) : Prop :=
  s.closed l = true ∨ s.runner l ≠ none ∨ s.running th ≠ none

instance (s : State) (th l : Nat) : Decidable (s.Refused th l) :=
  inferInstanceAs (Decidable (_ ∨ _ ∨ _))

/-- `_run_forever_pre` -/
def State.runForever (s : State) (th l : Nat) : State :=
  if s.Refused th l then s
  else
    ({ s with runner := Function.update s.runner l (some th) }.setRunning th
        (some l)).registerTokioThread th l true

/-- `_run_forever_post` -/
def State.finish (s : State) (th l : Nat) : State :=
  let t := { s with runner := Function.update s.runner l none }.setRunning th none
  if s.current th = .holds l then t.setCurrent th .empty else t

/-- A new thread, a worker of a loop when it has an owner; `starts` is `on_thread_start`. -/
def State.thread (s : State) (owner : Option Nat) (starts : Bool) : State :=
  let t := { s with owner := Function.update s.owner s.threads owner, threads := s.threads + 1 }
  match owner with
  | some l => if starts then t.registerTokioThread s.threads l true else t
  | none => t

/-- `collect` is the end of a loop that does not run; which of the records keep one alive
is left open. -/
inductive Action where
  | create (th : Nat)
  | thread (owner : Option Nat) (starts : Bool)
  | runForever (th l : Nat)
  | finish (th l : Nat)
  | getRunningLoop (th : Nat)
  | getEventLoop (th : Nat)
  | setEventLoop (th : Nat) (loop : Option Nat)
  | close (l : Nat)
  | collect (l : Nat)
  deriving DecidableEq, Repr

def State.step (s : State) : Action → State
  | .create th => s.create th
  | .thread owner starts => s.thread owner starts
  | .runForever th l => s.runForever th l
  | .finish th l => s.finish th l
  | .getRunningLoop th => s.getRunningLoop th
  | .getEventLoop th => s.getEventLoop th
  | .setEventLoop th loop =>
      { s with policy := Function.update s.policy th (loop.elim .empty .holds) }
  | .close l =>
      if s.runner l = none then { s with closed := Function.update s.closed l true } else s
  | .collect l => { s with registered := Function.update s.registered l false }

/-- The action is by a thread that is there, on a loop that is there. -/
def State.Enabled (s : State) : Action → Prop
  | .create th | .getRunningLoop th | .getEventLoop th => th < s.threads
  | .thread owner starts => ∀ l ∈ owner, l < s.loops ∧ (starts = true → s.registered l = true)
  | .runForever th l => th < s.threads ∧ l < s.loops ∧ s.registered l = true
  | .finish th l => s.runner l = some th
  | .setEventLoop th loop => th < s.threads ∧ ∀ l ∈ loop, l < s.loops ∧ s.registered l = true
  | .close l => l < s.loops
  | .collect l => l < s.loops ∧ s.runner l = none

instance (s : State) (a : Action) : Decidable (s.Enabled a) := by
  cases a <;> unfold State.Enabled <;> infer_instance

def step (s : State) (a : Action) : Option State := if s.Enabled a then some (s.step a) else none

/-- The loop runs in the thread, or the thread works for it. -/
def State.Belongs (s : State) (l th : Nat) : Prop := s.runner l = some th ∨ s.owner th = some l

instance (s : State) (l th : Nat) : Decidable (s.Belongs l th) :=
  inferInstanceAs (Decidable (_ ∨ _))

/-- Asyncio's record of every thread is of a loop of the thread. -/
def State.Truthful (s : State) : Prop := ∀ th l, s.running th = some l → s.Belongs l th

/-- What a running loop can rely on: the lookups in its thread find it, and no other loop
runs there. -/
structure State.Sound (s : State) : Prop where
  found : ∀ l th, s.runner l = some th → s.running th = some l ∧ s.current th = .holds l
  thread : ∀ l th, s.runner l = some th → th < s.threads
  fresh : ∀ th, s.threads ≤ th → s.running th = none ∧ s.current th = .unset

/-- The loop that a lookup recovers: the open one that the thread had last, and in a thread
without any the one made last of all that are open. -/
def State.found (s : State) (th : Nat) : Option Nat :=
  match s.current th with
  | .unset => s.openLoops.getLast?
  | .empty => none
  | .holds l => if s.closed l then none else some l

/-- A lookup is made where a loop runs, or where the loop that was last there or last made
is the thread's own. -/
def AtHome (s : State) : Action → Prop
  | .getRunningLoop th | .getEventLoop th => s.running th = none → ∀ l ∈ s.found th, s.Belongs l th
  | .create _ | .thread _ _ | .runForever _ _ | .finish _ _ | .setEventLoop _ _ | .close
      _ | .collect _ => True

instance (s : State) (a : Action) : Decidable (AtHome s a) := by
  cases a <;> unfold AtHome <;> infer_instance

variable {s t : State} {th l : Nat} {actions : List Action}

/-- The last of the loops that are tried is the one that stays. -/
theorem foldl_recover (s : State) (th : Nat) (loops : List Nat) :
    loops.foldl (fun s l => (s.setCurrent th (.holds l)).setRunning th (some l)) s =
      { s with
        running := Function.update s.running th (loops.getLast?.or (s.running th))
        current := Function.update s.current th (loops.getLast?.elim (s.current th) .holds) } := by
  induction loops generalizing s with
  | nil => simp
  | cons l loops ih =>
      rw [List.foldl_cons, ih, List.getLast?_cons]
      cases loops.getLast? with
      | none => simp [State.setRunning, State.setCurrent]
      | some last => simp [State.setRunning, State.setCurrent]

/-- Asyncio's record gets what was found. -/
theorem recover_eq (idle : s.running th = none) : ∃ slot, s.recover th =
    { s with
      running := Function.update s.running th (s.found th)
      current := Function.update s.current th slot } := by
  unfold State.recover State.found
  cases current : s.current th with
  | unset =>
      dsimp only
      rw [foldl_recover, idle, Option.or_none]
      exact ⟨_, rfl⟩
  | empty =>
      refine ⟨s.current th, ?_⟩
      dsimp only
      rw [← idle, Function.update_eq_self, Function.update_eq_self]
  | holds l =>
      refine ⟨s.current th, ?_⟩
      rw [Function.update_eq_self]
      dsimp only
      by_cases shut : s.closed l = true
      · rw [if_pos shut, if_pos shut, ← idle, Function.update_eq_self]
      · rw [if_neg shut, if_neg shut]
        rfl

theorem forget_eq (s : State) (th : Nat) : ∃ slot, s.forget th = s.setCurrent th slot := by
  have same : s = s.setCurrent th (s.current th) := by
    unfold State.setCurrent
    rw [Function.update_eq_self]
  unfold State.forget
  split
  · exact ⟨_, same⟩
  · exact ⟨_, same⟩
  · split
    · exact ⟨_, rfl⟩
    · exact ⟨_, same⟩

/-- A lookup touches the two records of its thread only. -/
theorem getRunningLoop_eq (idle : s.running th = none) : ∃ slot, s.getRunningLoop th =
    { s with
      running := Function.update s.running th (s.found th)
      current := Function.update s.current th slot } := by
  obtain ⟨slot, recovered⟩ := recover_eq idle
  obtain ⟨slot', forgot⟩ := forget_eq (s.recover th) th
  refine ⟨slot', ?_⟩
  unfold State.getRunningLoop
  rw [idle]
  dsimp only
  rw [forgot, recovered]
  unfold State.setCurrent
  rw [Function.update_idem]

theorem getRunningLoop_busy (busy : s.running th ≠ none) : s.getRunningLoop th = s := by
  unfold State.getRunningLoop
  cases running : s.running th with
  | none => exact absurd running busy
  | some l => rfl

/-- `get_event_loop` is the same lookup, behind which `current_loop` may be a new loop. -/
theorem getEventLoop_eq (s : State) (th : Nat) : s.getEventLoop th = s.getRunningLoop th ∨
    (s.getRunningLoop th).running th = none ∧ s.getEventLoop th =
      ((s.getRunningLoop th).create th).registerTokioThread th
      (s.getRunningLoop th).loops true := by
  unfold State.getEventLoop
  dsimp only
  split
  · exact .inl rfl
  · next idle _ => exact .inr ⟨idle, rfl⟩
  · exact .inl rfl
  · exact .inl rfl

/-- Only the records of one thread are touched. -/
structure Local (s t : State) (th : Nat) : Prop where
  runner : t.runner = s.runner
  owner : t.owner = s.owner
  threads : t.threads = s.threads
  running : ∀ i, i ≠ th → t.running i = s.running i
  current : ∀ i, i ≠ th → t.current i = s.current i

theorem getRunningLoop_local (idle : s.running th = none) :
    Local s (s.getRunningLoop th) th ∧ (s.getRunningLoop th).running th = s.found th := by
  obtain ⟨slot, same⟩ := getRunningLoop_eq idle
  rw [same]
  refine ⟨⟨rfl, rfl, rfl, fun i other => ?_, fun i other => ?_⟩, Function.update_self _ _ _⟩
  · exact Function.update_of_ne other _ _
  · exact Function.update_of_ne other _ _

theorem getEventLoop_local (idle : s.running th = none) :
    Local s (s.getEventLoop th) th ∧ (s.getEventLoop th).running th = s.found th := by
  obtain ⟨here, found⟩ := getRunningLoop_local idle
  rcases getEventLoop_eq s th with same | ⟨-, same⟩
  · rw [same]
    exact ⟨here, found⟩
  · rw [same]
    refine ⟨⟨here.runner, here.owner, here.threads, here.running, fun i other => ?_⟩, found⟩
    exact (Function.update_of_ne other _ _).trans (here.current i other)

theorem getEventLoop_busy (busy : s.running th ≠ none) : s.getEventLoop th = s := by
  rcases getEventLoop_eq s th with same | ⟨idle, -⟩
  · rw [same, getRunningLoop_busy busy]
  · rw [getRunningLoop_busy busy] at idle
    exact absurd idle busy

theorem Local.sound (h : Local s t th) (sound : s.Sound) (there : th < s.threads)
    (idle : s.running th = none) :
    t.Sound := by
  have apart : ∀ l i, s.runner l = some i → i ≠ th := by
    rintro l i runs rfl
    cases idle.symm.trans (sound.found l i runs).1
  constructor
  · intro l i runs
    rw [h.runner] at runs
    obtain ⟨running, current⟩ := sound.found l i runs
    exact ⟨(h.running i (apart l i runs)).trans running,
      (h.current i (apart l i runs)).trans current⟩
  · intro l i runs
    rw [h.runner] at runs
    rw [h.threads]
    exact sound.thread l i runs
  · intro i past
    rw [h.threads] at past
    have other : i ≠ th := fun same => Nat.not_lt_of_le past (same ▸ there)
    rw [h.running i other, h.current i other]
    exact sound.fresh i past

theorem belongs_congr {i : Nat} (runner : t.runner = s.runner) (owner : t.owner = s.owner) :
    t.Belongs l i ↔ s.Belongs l i := by
  unfold State.Belongs
  rw [runner, owner]

theorem Local.truthful_iff (h : Local s t th) (truthful : s.Truthful) :
    t.Truthful ↔ ∀ l, t.running th = some l → s.Belongs l th := by
  constructor
  · intro after l running
    exact (belongs_congr h.runner h.owner).mp (after th l running)
  · intro home i l running
    rw [belongs_congr h.runner h.owner]
    by_cases here : i = th
    · rw [here] at running ⊢
      exact home l running
    · rw [h.running i here] at running
      exact truthful i l running

theorem initial_sound : initial.Sound where
  found := fun l th runs => by cases runs
  thread := fun l th runs => by cases runs
  fresh := fun _ _ => ⟨rfl, rfl⟩

theorem initial_truthful : initial.Truthful := fun th l running => by cases running

theorem runForever_sound (sound : s.Sound) (there : th < s.threads)
    (l : Nat) : (s.runForever th l).Sound := by
  unfold State.runForever
  split
  · exact sound
  · next free =>
      have idle : s.running th = none := by
        by_contra busy
        exact free (.inr (.inr busy))
      have threads : ∀ k i, Function.update s.runner l (some th) k = some i → k = l ∧ i = th ∨
          s.runner k = some i ∧ i ≠ th := by
        intro k i runs
        rw [Function.update_apply] at runs
        split at runs
        · next same => exact .inl ⟨same, (Option.some.inj runs).symm⟩
        · refine .inr ⟨runs, ?_⟩
          rintro rfl
          cases idle.symm.trans (sound.found k i runs).1
      constructor
      · intro k i runs
        rcases threads k i runs with ⟨rfl, rfl⟩ | ⟨runs, other⟩
        · exact ⟨Function.update_self _ _ _, Function.update_self _ _ _⟩
        · obtain ⟨running, current⟩ := sound.found k i runs
          exact ⟨(Function.update_of_ne other _ _).trans running,
            (Function.update_of_ne other _ _).trans current⟩
      · intro k i runs
        rcases threads k i runs with ⟨-, rfl⟩ | ⟨runs, -⟩
        · exact there
        · exact sound.thread k i runs
      · intro i past
        have other : i ≠ th := fun same => Nat.not_lt_of_le past (same ▸ there)
        obtain ⟨running, current⟩ := sound.fresh i past
        exact ⟨(Function.update_of_ne other _ _).trans running,
          (Function.update_of_ne other _ _).trans current⟩

theorem runForever_truthful (truthful : s.Truthful)
    (th l : Nat) : (s.runForever th l).Truthful := by
  unfold State.runForever
  split
  · exact truthful
  · next free =>
      have stopped : s.runner l = none := by
        by_contra runs
        exact free (.inr (.inl runs))
      intro i k running
      change Function.update s.running th (some l) i = some k at running
      change Function.update s.runner l (some th) k = some i ∨ s.owner i = some k
      rw [Function.update_apply] at running
      split at running
      · next here =>
          cases running
          exact .inl (by rw [here]; exact Function.update_self _ _ _)
      · rcases truthful i k running with runs | owned
        · have other : k ≠ l := by
            rintro rfl
            cases stopped.symm.trans runs
          exact .inl ((Function.update_of_ne other _ _).trans runs)
        · exact .inr owned

/-- The end of a run leaves what other threads have alone. -/
theorem finish_eq (s : State) (th l : Nat) : ∃ slot, s.finish th l =
    { s with
      runner := Function.update s.runner l none
      running := Function.update s.running th none
      current := Function.update s.current th slot } := by
  unfold State.finish
  dsimp only
  split
  · exact ⟨.empty, rfl⟩
  · refine ⟨s.current th, ?_⟩
    rw [Function.update_eq_self]
    rfl

theorem finish_sound (sound : s.Sound) (runs : s.runner l = some th) : (s.finish th l).Sound := by
  obtain ⟨slot, same⟩ := finish_eq s th l
  rw [same]
  have before : ∀ k i, Function.update s.runner l none k = some i → s.runner k = some i ∧
      i ≠ th := by
    intro k i after
    rw [Function.update_apply] at after
    split at after
    · cases after
    · next other =>
        refine ⟨after, ?_⟩
        rintro rfl
        have one := (sound.found l i runs).1.symm.trans (sound.found k i after).1
        exact other (Option.some.inj one).symm
  constructor
  · intro k i after
    obtain ⟨runs, other⟩ := before k i after
    obtain ⟨running, current⟩ := sound.found k i runs
    exact ⟨(Function.update_of_ne other _ _).trans running,
      (Function.update_of_ne other _ _).trans current⟩
  · intro k i after
    exact sound.thread k i (before k i after).1
  · intro i past
    have other : i ≠ th := fun same => Nat.not_lt_of_le past (same ▸ sound.thread l th runs)
    obtain ⟨running, current⟩ := sound.fresh i past
    exact ⟨(Function.update_of_ne other _ _).trans running,
      (Function.update_of_ne other _ _).trans current⟩

theorem finish_truthful (truthful : s.Truthful) (runs : s.runner l = some th) :
    (s.finish th l).Truthful := by
  obtain ⟨slot, same⟩ := finish_eq s th l
  rw [same]
  intro i k running
  change Function.update s.running th none i = some k at running
  change Function.update s.runner l none k = some i ∨ s.owner i = some k
  rw [Function.update_apply] at running
  split at running
  · cases running
  · next apart =>
      rcases truthful i k running with here | owned
      · have other : k ≠ l := by
          rintro rfl
          exact apart (Option.some.inj (here.symm.trans runs))
        exact .inl ((Function.update_of_ne other _ _).trans here)
      · exact .inr owned

/-- A thread is new where no loop has a record. -/
theorem thread_eq (s : State) (owner : Option Nat)
    (starts : Bool) : ∃ registered slot, s.thread owner starts =
    { s with
      registered
      threads := s.threads + 1
      owner := Function.update s.owner s.threads owner
      current := Function.update s.current s.threads slot } := by
  have same : s.current = Function.update s.current s.threads (s.current s.threads) :=
    (Function.update_eq_self _ _).symm
  unfold State.thread
  dsimp only
  split
  · split
    · exact ⟨_, _, rfl⟩
    · refine ⟨s.registered, s.current s.threads, ?_⟩
      rw [← same]
  · refine ⟨s.registered, s.current s.threads, ?_⟩
    rw [← same]

theorem thread_sound (sound : s.Sound) (owner : Option Nat)
    (starts : Bool) : (s.thread owner starts).Sound := by
  obtain ⟨registered, slot, same⟩ := thread_eq s owner starts
  rw [same]
  constructor
  · intro l i runs
    have other := Nat.ne_of_lt (sound.thread l i runs)
    obtain ⟨running, current⟩ := sound.found l i runs
    exact ⟨running, (Function.update_of_ne other _ _).trans current⟩
  · intro l i runs
    exact Nat.lt_succ_of_lt (sound.thread l i runs)
  · intro i past
    have other : i ≠ s.threads := Nat.ne_of_gt past
    obtain ⟨running, current⟩ := sound.fresh i (Nat.le_of_succ_le past)
    exact ⟨running, (Function.update_of_ne other _ _).trans current⟩

theorem thread_truthful (sound : s.Sound) (truthful : s.Truthful) (owner : Option Nat)
    (starts : Bool) : (s.thread owner starts).Truthful := by
  obtain ⟨registered, slot, same⟩ := thread_eq s owner starts
  rw [same]
  intro i l running
  change s.running i = some l at running
  have other : i ≠ s.threads := by
    rintro rfl
    cases (sound.fresh s.threads (Nat.le_refl _)).1.symm.trans running
  exact (truthful i l running).imp_right (Function.update_of_ne other _ _).trans

theorem step_enabled {a : Action} (h : step s a = some t) : s.Enabled a ∧ t = s.step a := by
  obtain ⟨enabled, same⟩ := Option.ite_none_right_eq_some.mp h
  exact ⟨enabled, (Option.some.inj same).symm⟩

theorem step_sound (s : State) (a : Action) (t : State) (sound : s.Sound) (h : step s a = some t) :
    t.Sound := by
  obtain ⟨enabled, rfl⟩ := step_enabled h
  have kept : ∀ u : State, u.runner = s.runner → u.threads = s.threads → u.running = s.running →
      u.current = s.current → u.Sound := by
    rintro u runner threads running current
    constructor
    · rw [runner, running, current]
      exact sound.found
    · rw [runner, threads]
      exact sound.thread
    · rw [threads, running, current]
      exact sound.fresh
  cases a with
  | create | setEventLoop | collect => exact kept _ rfl rfl rfl rfl
  | thread owner starts => exact thread_sound sound owner starts
  | runForever th l => exact runForever_sound sound enabled.1 l
  | finish th l => exact finish_sound sound enabled
  | getRunningLoop th =>
      by_cases idle : s.running th = none
      · exact (getRunningLoop_local idle).1.sound sound enabled idle
      · exact (congrArg State.Sound (getRunningLoop_busy idle)).mpr sound
  | getEventLoop th =>
      by_cases idle : s.running th = none
      · exact (getEventLoop_local idle).1.sound sound enabled idle
      · exact (congrArg State.Sound (getEventLoop_busy idle)).mpr sound
  | close l =>
      simp only [State.step]
      split
      · exact kept _ rfl rfl rfl rfl
      · exact sound

/-- A step keeps asyncio's records truthful exactly when it looks nothing up away from home. -/
theorem step_truthful (s : State) (a : Action) (t : State) (sound : s.Sound) (truthful : s.Truthful)
    (h : step s a = some t) : t.Truthful ↔ AtHome s a := by
  obtain ⟨enabled, rfl⟩ := step_enabled h
  cases a with
  | create | setEventLoop | collect => exact iff_of_true truthful trivial
  | thread owner starts => exact iff_of_true (thread_truthful sound truthful owner starts) trivial
  | runForever th l => exact iff_of_true (runForever_truthful truthful th l) trivial
  | finish th l => exact iff_of_true (finish_truthful truthful enabled) trivial
  | getRunningLoop th =>
      by_cases idle : s.running th = none
      · obtain ⟨here, found⟩ := getRunningLoop_local idle
        refine (here.truthful_iff truthful).trans ?_
        rw [found]
        exact ⟨fun home _ => home, fun home => home idle⟩
      · refine iff_of_true ?_ fun no => absurd no idle
        exact (congrArg State.Truthful (getRunningLoop_busy idle)).mpr truthful
  | getEventLoop th =>
      by_cases idle : s.running th = none
      · obtain ⟨here, found⟩ := getEventLoop_local idle
        refine (here.truthful_iff truthful).trans ?_
        rw [found]
        exact ⟨fun home _ => home, fun home => home idle⟩
      · refine iff_of_true ?_ fun no => absurd no idle
        exact (congrArg State.Truthful (getEventLoop_busy idle)).mpr truthful
  | close l =>
      refine iff_of_true ?_ trivial
      simp only [State.step]
      split
      · exact truthful
      · exact truthful

/-- In every run, each thread runs at most one loop, and while it does, a lookup there finds
it. Asyncio has no other record than of loops that run in the thread or have it as a
worker, in every state of a run exactly if every lookup in a thread without a record is
made where the loop recovered is such a one or none is. -/
theorem running_loops_iff (h : run step initial actions = some t) :
    t.Sound ∧ (Always step State.Truthful initial actions ↔ Guarded step AtHome initial actions) :=
  ⟨run_invariant step_sound h initial_sound,
    always_iff_guarded step_sound step_truthful h initial_sound initial_truthful⟩

/-- A lookup before the loop runs, which is then refused. -/
def lookedUpEarly : List Action := [.getRunningLoop 0, .runForever 0 0]

example : (initial.getRunningLoop 0).Refused 0 0 := by decide

theorem lookedUpEarly_untruthful : ¬ Always step State.Truthful initial lookedUpEarly := by
  intro always
  obtain ⟨t, ends⟩ : ∃ t, run step initial lookedUpEarly = some t :=
    Option.isSome_iff_exists.mp (by decide)
  have home := (running_loops_iff ends).2.mp always
  revert home
  decide

end TokioLoop.RunningLoops
