import TokioLoop.LoopMachine

/-! The poll timeout against the work that is due. `schedTime` is the one place where
the two part: a deadline that has passed is treated like an empty heap. -/
namespace TokioLoop.Loop

variable {α : Type}

/-- The head of `step` without interference: load the counter and, when nothing is
ready, look at the timers; both with the clock reading `tick`. -/
def head (s : EventLoop α) (tick : Nat) : Option (EventLoop α) :=
  (step s (.load tick)).bind fun t =>
    match t.pc with
    | .noneReady _ => step t (.peek tick)
    | _ => some t

/-- The poll does not sleep past due work: it waits for ever only with nothing ready
and no timer, never beyond the earliest deadline, and not at all with work ready. -/
structure Punctual (s : EventLoop α) (now : Nat) (timeout : Option Nat) : Prop where
  forever : timeout = none → s.counterReady = 0 ∧ s.handlesSched = []
  bounded : ∀ deadline, peekWhen s.handlesSched = some deadline → ∃ d, timeout = some d ∧
      d ≤ deadline - now
  ready : 0 < s.counterReady → timeout = some 0

/-- Nothing is ready and the earliest deadline is not in the future. -/
def Overdue (s : EventLoop α) (now : Nat) : Prop :=
  s.counterReady = 0 ∧ ∃ deadline, peekWhen s.handlesSched = some deadline ∧ deadline ≤ now

theorem peekWhen_eq_none {sched : List (Timer α)} : peekWhen sched = none ↔ sched = [] := by
  simp [peekWhen, List.min?_eq_none_iff]

theorem counter_cases (c : BitVec 64) : c = 0 ∨ 0 < c := by
  by_cases zero : c = 0
  · exact .inl zero
  · exact .inr (by bv_omega)

theorem pollPlan_zero (sched : List (Timer α)) (tick tickLast : Nat) :
    pollPlan 0 sched tick tickLast = .poll (schedTime sched tick) := by
  simp [pollPlan]

theorem head_plan {s : EventLoop α} {tickLast : Nat} (hpc : s.pc = .stepStart tickLast)
    (tick : Nat) : head s tick =
      some { s with pc := afterPlan tickLast (pollPlan s.counterReady s.handlesSched tick tickLast)
        } := by
  by_cases ready : 0 < s.counterReady
  · have plan : pollPlan s.counterReady s.handlesSched tick tickLast = readyPlan tick tickLast :=
      if_pos ready
    rw [plan]
    simp only [head, step, callStep, loopStep, hpc, if_pos ready, Option.none_or, Option.bind_some]
    cases readyPlan tick tickLast <;> rfl
  · simp only [head, step, callStep, loopStep, hpc, pollPlan, if_neg ready, Option.none_or,
      Option.bind_some]

theorem zero_punctual (s : EventLoop α) (now : Nat) : Punctual s now (some 0) where
  forever h := by cases h
  bounded _ _ := ⟨0, rfl, Nat.zero_le _⟩
  ready _ := rfl

theorem sched_punctual {s : EventLoop α} {now : Nat} (zero : s.counterReady = 0)
    (onTime : ¬ Overdue s now) : Punctual s now (schedTime s.handlesSched now) := by
  cases hpeek : peekWhen s.handlesSched with
  | none =>
      simp only [schedTime, hpeek]
      refine ⟨fun _ => ⟨zero, peekWhen_eq_none.mp hpeek⟩, ?_, fun ready =>
        (by simp [zero] at ready)⟩
      intro deadline impossible
      simp [hpeek] at impossible
  | some deadline =>
      have future : now < deadline := by
        by_contra past
        exact onTime ⟨zero, deadline, hpeek, Nat.le_of_not_lt past⟩
      simp only [schedTime, hpeek, if_pos future]
      refine ⟨fun h => (by cases h), ?_, fun ready => (by simp [zero] at ready)⟩
      intro other same
      cases hpeek.symm.trans same
      exact ⟨_, rfl, Nat.mod_le _ _⟩

/-- `step` keeps to its timers in a state exactly when it does not start with nothing
ready and a deadline that has already passed. -/
theorem poll_punctual_iff (s : EventLoop α) (tickLast tick : Nat)
    (hpc : s.pc = .stepStart tickLast) :
    (∀ t timeout, head s tick = some t → t.pc = .decided tickLast timeout →
    Punctual s tick timeout) ↔
      ¬ Overdue s tick := by
  rw [head_plan hpc]
  constructor
  · rintro always ⟨zero, deadline, hpeek, past⟩
    have plan : schedTime s.handlesSched tick = none := by
      simp only [schedTime, hpeek, if_neg (Nat.not_lt.mpr past)]
    have late := always _ none rfl (by simp only [zero, pollPlan_zero, plan, afterPlan])
    obtain ⟨d, impossible, _⟩ := late.bounded deadline hpeek
    cases impossible
  · intro onTime t timeout same hpoll
    cases same
    rcases counter_cases s.counterReady with zero | ready
    · simp only [zero, pollPlan_zero, afterPlan, Pc.decided.injEq, true_and] at hpoll
      exact hpoll ▸ sched_punctual zero onTime
    · simp only [pollPlan, if_pos ready, readyPlan] at hpoll
      split_ifs at hpoll <;> simp only [afterPlan, Pc.decided.injEq, reduceCtorEq, true_and]
        at hpoll
      exact hpoll ▸ zero_punctual s tick

/-- A callback at time 1000 sets a timer for 1001 and returns; the next step starts
later than that with nothing else to do. -/
def lateTimer : List (Action Unit) :=
  [.run, .push 0 (.callSoon 0) (), .count 0, .top, .load 1000, .enterPoll, .pollReturns .ok 1000,
    .swap, .uncount, .dispatch [] false, .timers 1000, .timersDone, .pop,
    .later 0 false ⟨1001, some 1, .cb, ()⟩, .finish, .stepEnd, .top]

theorem lateTimer_polls_forever :
    ¬ ∀ (s : EventLoop Unit) (tickLast tick : Nat), Runs.Reachable step new s →
    s.pc = .stepStart tickLast →
      ∀ t timeout, head s tick = some t → t.pc = .decided tickLast timeout →
      Punctual s tick timeout := by
  intro always
  obtain ⟨s, hrun, hpc, hsched, hcount⟩ : ∃ s, Runs.run step new lateTimer = some s ∧
      s.pc = .stepStart 1000 ∧ s.handlesSched = [⟨1001, some 1, .cb, ()⟩] ∧ s.counterReady = 0 :=
    ⟨_, rfl, rfl, rfl, by decide⟩
  have late := always s 1000 2000 ⟨_, hrun⟩ hpc _ none (head_plan hpc 2000)
    (by simp [hcount, hsched, pollPlan, schedTime, peekWhen, afterPlan])
  exact absurd (late.forever rfl).2 (by simp [hsched])

/-- A step that starts idle: it waits without limit, and it may. -/
theorem idle_step_punctual :
    ∃ t, head ({ new with pc := .stepStart 0 } : EventLoop Unit) 1000 = some t ∧
    t.pc = .decided 0 none ∧
      Punctual ({ new with pc := .stepStart 0 } : EventLoop Unit) 1000 none := by
  refine ⟨_, rfl, rfl, ?_⟩
  refine (poll_punctual_iff ({ new with pc := .stepStart 0 } : EventLoop Unit) 0 1000 rfl).mpr ?_ _
    none rfl rfl
  rintro ⟨_, deadline, hpeek, _⟩
  simp [new, peekWhen] at hpeek

end TokioLoop.Loop
