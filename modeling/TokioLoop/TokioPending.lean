import TokioLoop.TokioRetention

/-! A queued handle can still be executed: as long as the loop is not stopping, the task of
`_run` leads from every one of its points to the execution of any handle that is in the
execution channel, or in the scheduler channel without a delay. -/
namespace TokioLoop.Scheduler

open Runs

/-- A `_run` of a loop that is stopping or not, which will not skip `n`. -/
structure Waits (n : Nat) (stop : Bool) (s : TEventLoop) (r : Run) : Prop where
  run : s.run = some r
  stopping : s.stopping = stop
  live : s.cancelled n = false

variable {s t : TEventLoop} {r : Run} {n : Nat} {stop : Bool}

theorem checkStop_enabled (waits : Waits n false s r) (pc : r.pc = .check) :
    runStep s .checkStop = some (s.goto r .select) := by
  simp [runStep, waits.run, pc, waits.stopping]

theorem finish_enabled {handle : Nat} (run : s.run = some r) (pc : r.pc = .running handle) :
    runStep s .finish = some (s.goto r .check) := by
  simp [runStep, run, pc]

theorem Waits.goto (waits : Waits n stop s r)
    (pc : Pc) : Waits n stop (s.goto r pc) { r with pc := pc } :=
  ⟨rfl, waits.stopping, waits.live⟩

/-- The loop over the expired timers ends and keeps what the channels hold. -/
theorem expiring_ends {currentTime : Nat} : ∀ (left : Nat) (s : TEventLoop) (r : Run),
    r.delayedTasks.length = left → Waits n stop s r → r.pc = .expiring currentTime →
    ∃ t r', Reachable runStep s t ∧ Waits n stop t r' ∧
      r'.pc = .check ∧ t.scheduler = s.scheduler ∧
      ∀ h ∈ r.currentHandles, h ∈ r'.currentHandles := by
  have done : ∀ (s : TEventLoop) (r : Run), Waits n stop s r → r.pc = .expiring currentTime →
      (∀ timer ∈ r.delayedTasks, currentTime < timer.when) →
      ∃ t r', Reachable runStep s t ∧ Waits n stop t r' ∧ r'.pc = .check ∧
      t.scheduler = s.scheduler ∧ ∀ h ∈ r.currentHandles, h ∈ r'.currentHandles := by
    intro s r waits pc none_due
    refine ⟨s.goto r .check, _, .head (a := .expired) ?_ .refl, waits.goto .check, rfl, rfl,
      fun _ mem => mem⟩
    have all : (r.delayedTasks.all fun t => decide (currentTime < t.when)) = true :=
      List.all_eq_true.mpr fun timer mem => decide_eq_true (none_due timer mem)
    simp only [runStep, waits.run, pc, expireStep, all, if_true]
  intro left
  induction left with
  | zero =>
      intro s r size waits pc
      exact done s r waits pc (by simp [List.length_eq_zero_iff.mp size])
  | succ left ih =>
      intro s r size waits pc
      obtain ⟨index, timer, least⟩ : ∃ index timer, earliest r.delayedTasks index = some timer :=
        LeastFirst.exists_least TokioTimer.when (List.ne_nil_of_length_eq_add_one size)
      by_cases due : timer.when ≤ currentTime
      · have inside : index < r.delayedTasks.length :=
          (List.getElem?_eq_some_iff.mp (Option.filter_eq_some_iff.mp least).1).1
        have shorter : (r.delayedTasks.eraseIdx index).length = left := by
          rw [List.length_eraseIdx_of_lt inside, size, Nat.add_sub_cancel]
        cases off : s.cancelled timer.handle with
        | true =>
            obtain ⟨t, r', rest, after⟩ := ih { s with
                skipped := s.skipped ++ [timer.handle]
                run := some { r with delayedTasks := r.delayedTasks.eraseIdx index } }
              { r with delayedTasks := r.delayedTasks.eraseIdx index } shorter
              ⟨rfl, waits.stopping, waits.live⟩ pc
            refine ⟨t, r', .head (a := .popTimer index) ?_ rest, after⟩
            simp only [runStep, waits.run, pc, expireStep, least, due, if_true, off]
        | false =>
            obtain ⟨t, r', rest, after, check, same, keeps⟩ := ih { s with run := some { r with
                delayedTasks := r.delayedTasks.eraseIdx index
                currentHandles := r.currentHandles ++ [timer.handle] } }
              { r with
                delayedTasks := r.delayedTasks.eraseIdx index
                currentHandles := r.currentHandles ++ [timer.handle] } shorter
              ⟨rfl, waits.stopping, waits.live⟩ pc
            refine ⟨t, r', .head (a := .popTimer index) ?_ rest, after, check, same, ?_⟩
            · simp only [runStep, waits.run, pc, expireStep, least, due, if_true, off,
                Bool.false_eq_true, if_false]
            · exact fun h mem => keeps h (List.mem_append_left _ mem)
      · refine done s r waits pc fun other mem => ?_
        have first := LeastFirst.least_le TokioTimer.when least other mem
        omega

/-- From every point the task comes back to its `select!`. -/
theorem reaches_select (waits : Waits n false s r) :
    ∃ t r', Reachable runStep s t ∧ Waits n false t r' ∧ r'.pc = .select ∧
    t.scheduler = s.scheduler ∧ ∀ h ∈ r.currentHandles, h ∈ r'.currentHandles := by
  have check : ∀ (s : TEventLoop) (r : Run), Waits n false s r → r.pc = .check →
      Reachable runStep s (s.goto r .select) :=
      fun s r waits pc => .head (checkStop_enabled waits pc) .refl
  cases pc : r.pc with
  | select => exact ⟨s, r, .refl, waits, pc, rfl, fun _ mem => mem⟩
  | check => exact ⟨_, _, check s r waits pc, waits.goto .select, rfl, rfl, fun _ mem => mem⟩
  | running handle =>
      have rest := check _ _ (waits.goto .check) rfl
      exact ⟨_, _, .head (finish_enabled waits.run pc) rest, (waits.goto .check).goto .select,
        rfl, rfl, fun _ mem => mem⟩
  | expiring currentTime =>
      obtain ⟨t, r', reached, after, checked, same, keeps⟩ := expiring_ends _ s r rfl waits pc
      exact ⟨_, _, reached.trans (check t r' after checked), after.goto .select, rfl, same, keeps⟩

/-- A handle of the execution channel is executed, after those before it. -/
theorem executes_current : ∀ (s : TEventLoop) (r : Run), Waits n false s r → r.pc = .select →
    n ∈ r.currentHandles → ∃ t, Reachable runStep s t ∧ n ∈ t.executed := by
  suffices ∀ (queue : List Nat) (s : TEventLoop) (r : Run), r.currentHandles = queue →
    Waits n false s r →
      r.pc = .select → n ∈ queue → ∃ t, Reachable runStep s t ∧ n ∈ t.executed from
    fun s r waits pc mem => this r.currentHandles s r rfl waits pc mem
  intro queue
  induction queue with
  | nil => exact fun _ _ _ _ _ mem => absurd mem List.not_mem_nil
  | cons handle rest ih =>
      intro s r head waits pc mem
      cases off : s.cancelled handle with
      | true =>
          have later : n ∈ rest := by
            refine (List.mem_cons.mp mem).resolve_left ?_
            rintro rfl
            rw [waits.live] at off
            cases off
          have first : runStep s .recvHandle = some { s with
              skipped := s.skipped ++ [handle]
              run := some { r with currentHandles := rest, pc := .check } } := by
            simp only [runStep, waits.run, pc, selectStep, head, off, if_true]
          have next : Waits n false { s with
              skipped := s.skipped ++ [handle]
              run := some { r with currentHandles := rest, pc := .check } }
              { r with currentHandles := rest, pc := .check } := ⟨rfl, waits.stopping, waits.live⟩
          obtain ⟨t, reached, done⟩ := ih _ _ rfl (next.goto .select) rfl later
          exact ⟨t, .head first (.head (checkStop_enabled next rfl) reached), done⟩
      | false =>
          have first : runStep s .recvHandle = some { s with
              executed := s.executed ++ [handle]
              run := some { r with currentHandles := rest, pc := .running handle } } := by
            simp only [runStep, waits.run, pc, selectStep, head, off, Bool.false_eq_true, if_false]
          by_cases here : n = handle
          · refine ⟨_, .head first .refl, ?_⟩
            rw [here]
            exact List.mem_append_right _ (List.mem_singleton_self handle)
          · have next : Waits n false { s with
                executed := s.executed ++ [handle]
                run := some { r with currentHandles := rest, pc := .running handle } }
                { r with currentHandles := rest, pc := .running handle } :=
                ⟨rfl, waits.stopping, waits.live⟩
            obtain ⟨t, reached, done⟩ := ih _ _ rfl ((next.goto .check).goto .select) rfl
              ((List.mem_cons.mp mem).resolve_left here)
            exact ⟨t, .head first (.head (finish_enabled rfl rfl)
              (.head (checkStop_enabled (next.goto .check) rfl) reached)), done⟩

/-- A handle of the scheduler channel is executed, after the tasks before it have been
received. -/
theorem executes_scheduled : ∀ (s : TEventLoop) (r : Run), Waits n false s r → r.pc = .select →
    .immediate n ∈ s.scheduler → ∃ t, Reachable runStep s t ∧ n ∈ t.executed := by
  suffices ∀ (channel : List ScheduledTask) (s : TEventLoop) (r : Run), s.scheduler = channel →
    Waits n false s r →
      r.pc = .select → .immediate n ∈ channel → ∃ t, Reachable runStep s t ∧ n ∈ t.executed from
    fun s r waits pc mem => this s.scheduler s r rfl waits pc mem
  intro channel
  induction channel with
  | nil => exact fun _ _ _ _ _ mem => absurd mem List.not_mem_nil
  | cons task rest ih =>
      intro s r head waits pc mem
      -- the task is received, and the loop goes on
      obtain ⟨r', first, keeps⟩ : ∃ r' : Run, runStep s .recvTask = some { s with
          scheduler := rest
          run := some { r' with pc := .check } } ∧
              (task = .immediate n → n ∈ r'.currentHandles) := by
        cases task with
        | immediate handle =>
            refine ⟨{ r with currentHandles := r.currentHandles ++ [handle] }, ?_, fun same => ?_⟩
            · simp only [runStep, waits.run, pc, selectStep, head]
            · cases same
              exact List.mem_append_right _ (List.mem_singleton_self n)
        | delayed timer =>
            refine ⟨{ r with delayedTasks := r.delayedTasks ++ [timer] }, ?_, fun same =>
              by cases same⟩
            simp only [runStep, waits.run, pc, selectStep, head]
      have next : Waits n false { s with scheduler := rest, run := some { r' with pc := .check } }
          { r' with pc := .check } := ⟨rfl, waits.stopping, waits.live⟩
      obtain ⟨t, reached, done⟩ : ∃ t, Reachable runStep
          (TEventLoop.goto { s with scheduler := rest, run := some { r' with pc := .check } }
            { r' with pc := .check } .select) t ∧ n ∈ t.executed := by
        rcases List.mem_cons.mp mem with here | later
        · exact executes_current _ _ (next.goto .select) rfl (keeps here.symm)
        · exact ih _ _ rfl (next.goto .select) rfl later
      exact ⟨t, .head first (.head (checkStop_enabled next rfl) reached), done⟩

/-- A handle that waits in either channel can be executed. -/
theorem executes_waiting (waits : Waits n false s r)
    (queued : n ∈ r.currentHandles ∨ .immediate n ∈ s.scheduler) :
    ∃ t, Reachable runStep s t ∧ n ∈ t.executed := by
  obtain ⟨u, r', reached, after, select, same, keeps⟩ := reaches_select waits
  obtain ⟨t, rest, done⟩ : ∃ t, Reachable runStep u t ∧ n ∈ t.executed := by
    rcases queued with current | scheduled
    · exact executes_current u r' after select (keeps n current)
    · exact executes_scheduled u r' after select (same ▸ scheduled)
  exact ⟨t, reached.trans rest, done⟩

/-- A `_run` of a stopping loop ends, and leaves the scheduler channel as it is. -/
theorem run_ends (waits : Waits n true s r) :
    ∃ t, Reachable runStep s t ∧ t.run = none ∧ t.scheduler = s.scheduler ∧
    t.cancelled n = false := by
  have check : ∀ (s : TEventLoop) (r : Run), Waits n true s r → r.pc = .check →
      runStep s .checkStop = some (s.endRun r) := fun s r waits pc => by
    simp [runStep, waits.run, pc, waits.stopping]
  cases pc : r.pc with
  | select =>
      cases listening : s.sigListening with
      | true =>
          have first : runStep s (.signal 2) = some
              (TEventLoop.goto { s with stopping := true } r .check) := by
            simp [runStep, waits.run, pc, selectStep, listening]
          have next : Waits n true (TEventLoop.goto { s with stopping := true } r .check)
              { r with pc := .check } :=
            ⟨rfl, rfl, waits.live⟩
          exact ⟨_, .head first (.head (check _ _ next rfl) .refl), rfl, rfl, waits.live⟩
      | false =>
          have first : runStep s (.signal 2) = some
              (TEventLoop.endRun { s with stopping := true } r) := by
            simp [runStep, waits.run, pc, selectStep, listening]
          exact ⟨_, .head first .refl, rfl, rfl, waits.live⟩
  | check => exact ⟨_, .head (check s r waits pc) .refl, rfl, rfl, waits.live⟩
  | running handle =>
      exact ⟨_, .head (finish_enabled waits.run pc)
        (.head (check _ _ (waits.goto .check) rfl) .refl), rfl, rfl,
        waits.live⟩
  | expiring currentTime =>
      obtain ⟨t, r', reached, after, checked, same, -⟩ := expiring_ends _ s r rfl waits pc
      exact ⟨t.endRun r', reached.trans (.head (check t r' after checked) .refl), rfl, same,
        after.live⟩

end TokioLoop.Scheduler
