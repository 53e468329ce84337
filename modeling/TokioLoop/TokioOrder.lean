import TokioLoop.TokioRetention

/-! The two channels of a `_run`, task by task. The machine is run beside three
histories: the tasks that entered the scheduler channel, the tasks behind the handles of
the execution channel, and what was received from the latter, executed or not. -/
namespace TokioLoop.Scheduler

/-- `entered` begins with what the scheduler channel holds when the `_run` starts. -/
structure Traced where
  loop : TEventLoop
  entered : List ScheduledTask
  queue : List ScheduledTask
  received : List (ScheduledTask × Bool)

def Traced.start (loop : TEventLoop) : Traced := ⟨loop, loop.scheduler, [], []⟩

/-- The task a step puts into the scheduler channel. -/
def TEventLoop.sends (s : TEventLoop) : Action → List ScheduledTask
  | .send thread now => (s.calls thread).toList.map fun c => task c now
  | _ => []

/-- The task a step puts into the execution channel. -/
def TEventLoop.queues (s : TEventLoop) : Action → List ScheduledTask
  | .recvTask =>
      match s.scheduler with
      | .immediate handle :: _ => [.immediate handle]
      | _ => []
  | .popTimer index =>
      match s.run.bind fun r => earliest r.delayedTasks index with
      | some timer => if s.cancelled timer.handle then [] else [.delayed timer]
      | none => []
  | _ => []

/-- The task a step takes from the execution channel, and whether its handle is run. -/
def Traced.receives (s : Traced) : Action → List (ScheduledTask × Bool)
  | .recvHandle => s.queue.head?.toList.map fun t => (t, !s.loop.cancelled t.handle)
  | _ => []

def Traced.step (s : Traced) (a : Action) : Option Traced :=
  (Scheduler.step s.loop a).map fun t =>
    ⟨t, s.entered ++ s.loop.sends a, s.queue.drop (s.receives a).length ++ s.loop.queues a,
      s.received ++ s.receives a⟩

/-- Everything an action can do to the channels and the local queues. -/
inductive Move (s : TEventLoop) : Action → TEventLoop → Prop where
  | quiet {a t} : s.sends a = [] → s.queues a = [] → a ≠ .recvHandle → t.scheduler = s.scheduler →
      t.sent = s.sent → t.executed = s.executed →
      (∀ h, s.cancelled h = true → t.cancelled h = true) → (∀ r', t.run = some r' →
        ∃ r, s.run = some r ∧ r'.delayedTasks = r.delayedTasks ∧
        r'.currentHandles = r.currentHandles) →
      Move s a t
  | start {t} : s.run = none → t = { s with run := some ⟨[], [], .select⟩ } → Move s .run t
  | send {t} (thread now : Nat) (c : Call) : s.calls thread = some c →
      t.scheduler = s.scheduler ++ [task c now] → t.sent = s.sent ++ [c.handle] →
      t.executed = s.executed → t.cancelled = s.cancelled → t.run = s.run →
      Move s (.send thread now) t
  | immediate {t} (r : Run) (handle : Nat) (rest : List ScheduledTask) : s.run = some r →
      s.scheduler = .immediate handle :: rest → t = { s with
        scheduler := rest
        run := some { r with currentHandles := r.currentHandles ++ [handle], pc := .check } } →
            Move s .recvTask t
  | delayed {t} (r : Run) (timer : TokioTimer) (rest : List ScheduledTask) : s.run = some r →
      s.scheduler = .delayed timer :: rest → t = { s with
        scheduler := rest
        run := some { r with delayedTasks := r.delayedTasks ++ [timer], pc := .check } } →
            Move s .recvTask t
  | expire {t} (r : Run) (index currentTime : Nat) (timer : TokioTimer) : s.run = some r →
      r.pc = .expiring currentTime → earliest r.delayedTasks index = some timer →
      timer.when ≤ currentTime → s.cancelled timer.handle = false →
      t = { s with run := some { r with
        delayedTasks := r.delayedTasks.eraseIdx index
        currentHandles := r.currentHandles ++ [timer.handle] } } → Move s (.popTimer index) t
  | discard {t} (r : Run) (index : Nat) (timer : TokioTimer) : s.run = some r →
      earliest r.delayedTasks index = some timer → s.cancelled timer.handle = true → t = { s with
        skipped := s.skipped ++ [timer.handle]
        run := some { r with delayedTasks := r.delayedTasks.eraseIdx index } } →
            Move s (.popTimer index) t
  | receive {t} (r : Run) (handle : Nat) (rest : List Nat) (pc : Pc) : s.run = some r →
      r.currentHandles = handle :: rest →
      t.scheduler = s.scheduler → t.sent = s.sent → t.cancelled = s.cancelled →
      t.executed = (if s.cancelled handle then s.executed else s.executed ++ [handle]) →
      t.run = some { r with currentHandles := rest, pc := pc } → Move s .recvHandle t

theorem callStep_moves {s t : TEventLoop} {a : Action} (h : callStep s a = some t) :
    Move s a t := by
  have same : ∀ r', s.run = some r' → ∃ r, s.run = some r ∧ r'.delayedTasks = r.delayedTasks ∧
      r'.currentHandles = r.currentHandles := fun r' hr => ⟨r', hr, rfl, rfl⟩
  cases callStep_stepped h with
  | send thread now handle delay there => exact .send thread now _ there rfl rfl rfl rfl rfl
  | cancel handle =>
      refine .quiet rfl rfl Action.noConfusion rfl rfl rfl ?_ same
      intro x hx
      by_cases here : x = handle
      · rw [here]
        exact Function.update_self handle true s.cancelled
      · exact (Function.update_of_ne here true s.cancelled).trans hx
  | call | stopping | notStopping | closed | notClosed | setStopping | close | listen =>
      exact .quiet rfl rfl Action.noConfusion rfl rfl rfl (fun _ h => h) same

theorem goto_moves {s : TEventLoop} {r : Run} {a : Action} (hrun : s.run = some r) (pc : Pc)
    (sends : s.sends a = []) (queues : s.queues a = []) (other : a ≠ .recvHandle) : Move s a
    (s.goto r pc) := by
  refine .quiet sends queues other rfl rfl rfl (fun _ h => h) ?_
  intro r' hr'
  cases hr'
  exact ⟨r, hrun, rfl, rfl⟩

theorem endRun_moves {s : TEventLoop} {r : Run} {a : Action} (sends : s.sends a = [])
    (queues : s.queues a = []) (other : a ≠ .recvHandle) : Move s a (s.endRun r) :=
  .quiet sends queues other rfl rfl rfl (fun _ h => h) fun _ hr' =>
  absurd hr' (Option.some_ne_none _).symm

theorem runStep_moves {s t : TEventLoop} {a : Action} (h : runStep s a = some t) : Move s a t := by
  cases runStep_stepped h with
  | run idle => exact .start idle rfl
  | immediate r handle rest run pc head => exact .immediate r handle rest run head rfl
  | delayed r timer rest run pc head => exact .delayed r timer rest run head rfl
  | skip r handle rest run pc head off =>
      exact .receive r handle rest .check run head rfl rfl rfl (by rw [if_pos off]) rfl
  | execute r handle rest run pc head live =>
      exact .receive r handle rest (.running handle) run head rfl rfl rfl
        (by rw [if_neg (Bool.eq_false_iff.mp live)]) rfl
  | discard r index currentTime timer run pc least due off =>
      exact .discard r index timer run least off rfl
  | expire r index currentTime timer run pc least due live =>
      exact .expire r index currentTime timer run pc least due live rfl
  | caught r num run =>
      refine .quiet rfl rfl Action.noConfusion ?_ ?_ ?_ ?_ ?_
      · split_ifs <;> rfl
      · split_ifs <;> rfl
      · split_ifs <;> rfl
      · split_ifs <;> exact fun _ h => h
      · intro r' hr'
        cases hr'
        exact ⟨r, run, rfl, rfl⟩
  | uncaught r num run =>
      refine .quiet rfl rfl Action.noConfusion ?_ ?_ ?_ ?_ fun _ hr' =>
        absurd hr' (Option.some_ne_none _).symm
      · split_ifs <;> rfl
      · split_ifs <;> rfl
      · split_ifs <;> rfl
      · split_ifs <;> exact fun _ h => h
  | early _ _ _ _ run | due _ _ _ _ run | sleep _ run | expired _ _ run | finish _ _ run
  | goesOn _ run =>
      exact goto_moves run _ rfl rfl Action.noConfusion
  | crash | stops => exact endRun_moves rfl rfl Action.noConfusion

theorem step_moves {s t : TEventLoop} {a : Action} (h : step s a = some t) : Move s a t := by
  rcases Option.or_eq_some_iff.mp h with hcall | ⟨_, hrun⟩
  · exact callStep_moves hcall
  · exact runStep_moves hrun

def immediates (tasks : List ScheduledTask) : List Nat :=
  tasks.filterMap fun t =>
    match t with
    | .immediate handle => some handle
    | .delayed _ => none

@[simp] theorem immediates_nil : immediates [] = [] := rfl

@[simp] theorem immediates_append (tasks more : List ScheduledTask) :
    immediates (tasks ++ more) = immediates tasks ++ immediates more := List.filterMap_append

theorem immediates_sublist {tasks more : List ScheduledTask} (h : tasks.Sublist more) :
    (immediates tasks).Sublist (immediates more) := h.filterMap _

theorem immediates_handles (tasks : List ScheduledTask) :
    (immediates tasks).Sublist (tasks.map ScheduledTask.handle) := by
  induction tasks with
  | nil => exact .refl _
  | cons t tasks ih =>
      cases t with
      | immediate handle => exact ih.cons_cons handle
      | delayed timer => exact ih.cons timer.handle

/-- The tasks executed, in order. -/
def Traced.ran (s : Traced) : List ScheduledTask := (s.received.filter Prod.snd).map Prod.fst

structure TraceInv (base : List Nat) (s : Traced) : Prop where
  books : Books s.loop
  agrees : ∀ r, s.loop.run = some r → s.queue.map ScheduledTask.handle = r.currentHandles
  ran : s.loop.executed = base ++ s.ran.map ScheduledTask.handle
  order : immediates (s.received.map Prod.fst) ++ immediates s.queue ++ immediates
      s.loop.scheduler =
    immediates s.entered
  distinct : (s.entered.map ScheduledTask.handle).Subperm s.loop.sent
  skipped : ∀ p ∈ s.received, p.2 = false → s.loop.cancelled p.1.handle = true

theorem traceInv_start {loop : TEventLoop} (books : Books loop)
    (fresh : loop.run = some ⟨[], [], .select⟩) : TraceInv loop.executed (Traced.start loop) where
  books := books
  agrees r hr := by
    cases fresh.symm.trans hr
    rfl
  ran := by simp [Traced.ran, Traced.start]
  order := rfl
  distinct := by
    refine List.Subperm.trans (List.Sublist.subperm ?_) books.account.subperm
    simp only [TEventLoop.account, TEventLoop.held, List.append_assoc]
    exact List.sublist_append_left _ _
  skipped p hp := by cases hp

theorem Traced.step_cases {s t : Traced} {a : Action} (h : s.step a = some t) :
    ∃ loop, Scheduler.step s.loop a = some loop ∧ t = ⟨loop, s.entered ++ s.loop.sends a,
      s.queue.drop (s.receives a).length ++ s.loop.queues a, s.received ++ s.receives a⟩ := by
  obtain ⟨loop, hloop, rfl⟩ := Option.map_eq_some_iff.mp h
  exact ⟨loop, hloop, rfl⟩

theorem Traced.receives_of_ne {s : Traced} {a : Action} (other : a ≠ .recvHandle) :
    s.receives a = [] := by
  cases a with
  | recvHandle => exact absurd rfl other
  | _ => rfl

theorem sends_send {s : TEventLoop} {thread now : Nat} {c : Call} (hc : s.calls thread = some c) :
    s.sends (.send thread now) = [task c now] := by
  simp [TEventLoop.sends, hc]

theorem queues_immediate {s : TEventLoop} {handle : Nat} {rest : List ScheduledTask}
    (hsched : s.scheduler = .immediate handle :: rest) :
    s.queues .recvTask = [.immediate handle] := by
  simp [TEventLoop.queues, hsched]

theorem queues_delayed {s : TEventLoop} {timer : TokioTimer} {rest : List ScheduledTask}
    (hsched : s.scheduler = .delayed timer :: rest) : s.queues .recvTask = [] := by
  simp [TEventLoop.queues, hsched]

theorem queues_popTimer {s : TEventLoop} {r : Run} {index : Nat} {timer : TokioTimer}
    (hrun : s.run = some r) (hearly : earliest r.delayedTasks index = some timer) :
    s.queues (.popTimer index) = if s.cancelled timer.handle then [] else [.delayed timer] := by
  simp [TEventLoop.queues, hrun, hearly]

section Steps

variable {base : List Nat} {s : Traced} {loop : TEventLoop}

theorem TraceInv.quiet {a : Action} (inv : TraceInv base s) (books : Books loop)
    (sends : s.loop.sends a = []) (queues : s.loop.queues a = []) (other : a ≠ .recvHandle)
    (sched : loop.scheduler = s.loop.scheduler) (sent : loop.sent = s.loop.sent)
    (exec : loop.executed = s.loop.executed)
    (mono : ∀ h, s.loop.cancelled h = true → loop.cancelled h = true)
    (locals : ∀ r', loop.run = some r' → ∃ r, s.loop.run = some r ∧
      r'.delayedTasks = r.delayedTasks ∧ r'.currentHandles = r.currentHandles) :
    TraceInv base ⟨loop, s.entered ++ s.loop.sends a,
      s.queue.drop (s.receives a).length ++ s.loop.queues a, s.received ++ s.receives a⟩ := by
  rw [sends, queues, Traced.receives_of_ne other]
  simp only [List.append_nil, List.length_nil, List.drop_zero]
  refine ⟨books, ?_, exec.trans inv.ran, ?_, ?_, ?_⟩
  · intro r' hr'
    obtain ⟨r, hr, _, same⟩ := locals r' hr'
    rw [same]
    exact inv.agrees r hr
  · simpa only [sched] using inv.order
  · simpa only [sent] using inv.distinct
  · intro p hp skip
    exact mono p.1.handle (inv.skipped p hp skip)

theorem TraceInv.send {c : Call} {now : Nat} (inv : TraceInv base s) (books : Books loop)
    (sched : loop.scheduler = s.loop.scheduler ++ [task c now])
    (sent : loop.sent = s.loop.sent ++ [c.handle]) (exec : loop.executed = s.loop.executed)
    (flags : loop.cancelled = s.loop.cancelled) (locals : loop.run = s.loop.run) :
    TraceInv base ⟨loop, s.entered ++ [task c now], s.queue, s.received⟩ := by
  refine ⟨books, ?_, exec.trans inv.ran, ?_, ?_, ?_⟩
  · simpa only [locals] using inv.agrees
  · simp only [sched, immediates_append, ← inv.order, List.append_assoc]
  · simp only [sent, List.map_append, List.map_cons, List.map_nil, task_handle]
    exact (List.subperm_append_right [c.handle]).mpr inv.distinct
  · simpa only [flags] using inv.skipped

/-- A task goes from one channel to the other. -/
theorem TraceInv.immediate {r : Run} {handle : Nat} {rest : List ScheduledTask} {pc : Pc}
    (inv : TraceInv base s) (hrun : s.loop.run = some r)
    (hsched : s.loop.scheduler = .immediate handle :: rest) (books : Books { s.loop with
      scheduler := rest
      run := some { r with currentHandles := r.currentHandles ++ [handle], pc := pc } }) :
    TraceInv base ⟨{ s.loop with
      scheduler := rest
      run := some { r with currentHandles := r.currentHandles ++ [handle], pc := pc } },
      s.entered, s.queue ++ [.immediate handle], s.received⟩ := by
  refine ⟨books, ?_, inv.ran, ?_, inv.distinct, inv.skipped⟩
  · intro r' hr'
    cases hr'
    simp only [List.map_append, inv.agrees r hrun, List.map_cons, List.map_nil,
      ScheduledTask.handle]
  · rw [← inv.order, hsched]
    simp [immediates]

theorem TraceInv.delayed {r : Run} {timer : TokioTimer} {rest : List ScheduledTask} {pc : Pc}
    (inv : TraceInv base s) (hrun : s.loop.run = some r)
    (hsched : s.loop.scheduler = .delayed timer :: rest) (books : Books { s.loop with
      scheduler := rest
      run := some { r with delayedTasks := r.delayedTasks ++ [timer], pc := pc } }) :
    TraceInv base ⟨{ s.loop with
      scheduler := rest
      run := some { r with delayedTasks := r.delayedTasks ++ [timer], pc := pc } },
      s.entered, s.queue, s.received⟩ := by
  refine ⟨books, ?_, inv.ran, ?_, inv.distinct, inv.skipped⟩
  · intro r' hr'
    cases hr'
    exact inv.agrees r hrun
  · rw [← inv.order, hsched]
    simp [immediates]

theorem TraceInv.expire {r : Run} {index : Nat} {timer : TokioTimer} (inv : TraceInv base s)
    (hrun : s.loop.run = some r)
    (books : Books { s.loop with run := some { r with
      delayedTasks := r.delayedTasks.eraseIdx index
      currentHandles := r.currentHandles ++ [timer.handle] } }) :
    TraceInv base ⟨{ s.loop with run := some { r with
      delayedTasks := r.delayedTasks.eraseIdx index
      currentHandles := r.currentHandles ++ [timer.handle] } },
      s.entered, s.queue ++ [.delayed timer], s.received⟩ := by
  refine ⟨books, ?_, inv.ran, ?_, inv.distinct, inv.skipped⟩
  · intro r' hr'
    cases hr'
    simp only [List.map_append, inv.agrees r hrun, List.map_cons, List.map_nil,
      ScheduledTask.handle]
  · rw [← inv.order]
    simp [immediates]

theorem TraceInv.discard {r : Run} {index : Nat} {timer : TokioTimer} (inv : TraceInv base s)
    (hrun : s.loop.run = some r)
    (books : Books { s.loop with
      skipped := s.loop.skipped ++ [timer.handle]
      run := some { r with delayedTasks := r.delayedTasks.eraseIdx index } }) :
    TraceInv base ⟨{ s.loop with
      skipped := s.loop.skipped ++ [timer.handle]
      run := some { r with delayedTasks := r.delayedTasks.eraseIdx index } },
      s.entered, s.queue, s.received⟩ := by
  refine ⟨books, ?_, inv.ran, inv.order, inv.distinct, inv.skipped⟩
  intro r' hr'
  cases hr'
  exact inv.agrees r hrun

/-- The front of the execution channel is received; it is run unless its flag is set. -/
theorem TraceInv.receive {r : Run} {handle : Nat} {rest : List Nat} {pc : Pc}
    (inv : TraceInv base s) (books : Books loop) (hrun : s.loop.run = some r)
    (hcur : r.currentHandles = handle :: rest) (sched : loop.scheduler = s.loop.scheduler)
    (sent : loop.sent = s.loop.sent) (flags : loop.cancelled = s.loop.cancelled)
    (exec : loop.executed =
      (if s.loop.cancelled handle then s.loop.executed else s.loop.executed ++ [handle]))
    (locals : loop.run = some { r with currentHandles := rest, pc := pc }) :
    TraceInv base ⟨loop, s.entered, s.queue.drop (s.receives .recvHandle).length,
      s.received ++ s.receives .recvHandle⟩ := by
  obtain ⟨front, queue, hqueue, hfront, htail⟩ :=
    List.map_eq_cons_iff.mp ((inv.agrees r hrun).trans hcur)
  have taken : s.receives .recvHandle = [(front, !s.loop.cancelled front.handle)] := by
    simp [Traced.receives, hqueue]
  rw [taken, hqueue]
  refine ⟨books, ?_, ?_, ?_, ?_, ?_⟩
  · intro r' hr'
    cases locals.symm.trans hr'
    exact htail
  · rw [exec, inv.ran, ← hfront]
    cases s.loop.cancelled front.handle <;> simp [Traced.ran]
  · rw [← inv.order, hqueue, sched]
    cases front <;> simp [immediates]
  · simpa only [sent] using inv.distinct
  · intro p hp skip
    rw [flags]
    rcases List.mem_append.mp hp with old | fresh
    · exact inv.skipped p old skip
    · rw [List.mem_singleton.mp fresh] at skip ⊢
      simpa using skip

end Steps

theorem TraceInv.step {base : List Nat} {s t : Traced} {a : Action} (inv : TraceInv base s)
    (same : a ≠ .run) (h : s.step a = some t) : TraceInv base t := by
  obtain ⟨loop, hloop, rfl⟩ := Traced.step_cases h
  have books := inv.books.step hloop
  cases step_moves hloop with
  | quiet sends queues other sched sent exec mono locals =>
      exact inv.quiet books sends queues other sched sent exec mono locals
  | start => exact absurd rfl same
  | send thread now c hc sched sent exec flags locals =>
      rw [sends_send hc]
      simp only [Traced.receives, TEventLoop.queues, List.append_nil, List.length_nil,
        List.drop_zero]
      exact inv.send books sched sent exec flags locals
  | immediate r handle rest hrun hsched ht =>
      subst ht
      rw [queues_immediate hsched]
      simp only [TEventLoop.sends, Traced.receives, List.append_nil, List.length_nil,
        List.drop_zero]
      exact inv.immediate hrun hsched books
  | delayed r timer rest hrun hsched ht =>
      subst ht
      rw [queues_delayed hsched]
      simp only [TEventLoop.sends, Traced.receives, List.append_nil, List.length_nil,
        List.drop_zero]
      exact inv.delayed hrun hsched books
  | expire r index currentTime timer hrun hpc hearly due live ht =>
      subst ht
      rw [queues_popTimer hrun hearly, live]
      simp only [TEventLoop.sends, Traced.receives, List.append_nil, List.length_nil,
        List.drop_zero]
      exact inv.expire hrun books
  | discard r index timer hrun hearly cancelled ht =>
      subst ht
      rw [queues_popTimer hrun hearly, cancelled]
      simp only [TEventLoop.sends, Traced.receives, List.append_nil, List.length_nil,
        List.drop_zero, if_true]
      exact inv.discard hrun books
  | receive r handle rest pc hrun hcur sched sent flags exec locals =>
      simp only [TEventLoop.sends, TEventLoop.queues, List.append_nil]
      exact inv.receive books hrun hcur sched sent flags exec locals

/-- Order and identity of what a `_run` executes. `fifo` and `skips` are about the
immediate tasks: they are executed in the order in which they entered the scheduler
channel, and one is passed over for a later one only if it was cancelled. `once` is
about all handles, over all runs so far. -/
structure ImmediateLaw (before : List Nat) (s : Traced) : Prop where
  executed : s.loop.executed = before ++ s.ran.map ScheduledTask.handle
  fifo : (immediates s.ran).Sublist (immediates s.entered)
  skips : ∀ earlier handle later, immediates s.entered = earlier ++ handle ::
      later → handle ∈ immediates s.ran →
    ∀ h ∈ earlier, h ∈ immediates s.ran ∨ s.loop.cancelled h = true
  once : s.loop.executed.Nodup

theorem Traced.ran_sublist (s : Traced) : s.ran.Sublist (s.received.map Prod.fst) :=
  List.filter_sublist.map Prod.fst

theorem Books.executed_nodup {s : TEventLoop} (books : Books s) : s.executed.Nodup := by
  have all : s.account.Nodup := books.account.nodup_iff.mpr books.once
  refine all.sublist ?_
  simp only [TEventLoop.account, List.append_assoc]
  exact (List.sublist_append_left _ _).trans (List.sublist_append_right _ _)

theorem mem_immediates {tasks : List ScheduledTask} {handle : Nat} :
    handle ∈ immediates tasks ↔ .immediate handle ∈ tasks := by
  simp only [immediates, List.mem_filterMap]
  constructor
  · rintro ⟨t, ht, hh⟩
    cases t with
    | immediate h => exact Option.some.inj hh ▸ ht
    | delayed timer => cases hh
  · intro h
    exact ⟨_, h, rfl⟩

/-- In a list without repetitions, what stands before a member of a prefix is in the prefix. -/
theorem mem_of_before {front back earlier later : List Nat} {x y : Nat}
    (distinct : (front ++ back).Nodup) (split : front ++ back = earlier ++ x :: later)
    (hx : x ∈ front) (hy : y ∈ earlier) : y ∈ front := by
  rcases List.append_eq_append_iff.mp split with ⟨between, _, hback⟩ | ⟨between, hfront, _⟩
  · have twice : x ∈ back := by rw [hback]; simp
    exact absurd rfl ((List.nodup_append.mp distinct).2.2 x hx x twice)
  · rw [hfront]
    exact List.mem_append_left _ hy

theorem TraceInv.law {base : List Nat} {s : Traced} (inv : TraceInv base s) :
    ImmediateLaw base s where
  executed := inv.ran
  fifo := by
    rw [← inv.order, List.append_assoc]
    exact (immediates_sublist s.ran_sublist).trans (List.sublist_append_left _ _)
  skips earlier handle later split executed h hh := by
    -- entries are distinct, so the one executed is the one among those received
    have distinct : (immediates s.entered).Nodup := by
      obtain ⟨l, perm, sub⟩ := inv.distinct
      exact (perm.nodup_iff.mp (inv.books.once.sublist sub)).sublist (immediates_handles _)
    have arrived : handle ∈ immediates (s.received.map Prod.fst) :=
      (immediates_sublist s.ran_sublist).subset executed
    have first : h ∈ immediates (s.received.map Prod.fst) := by
      rw [← inv.order, List.append_assoc] at split distinct
      exact mem_of_before distinct split arrived hh
    obtain ⟨⟨t, run⟩, hp, same⟩ := List.mem_map.mp (mem_immediates.mp first)
    cases same
    cases run with
    | false => exact .inr (inv.skipped _ hp rfl)
    | true =>
        refine .inl (mem_immediates.mpr (List.mem_map.mpr ⟨_, List.mem_filter.mpr ⟨hp, rfl⟩, rfl⟩))
  once := inv.books.executed_nodup

theorem Move.heeds {s t : TEventLoop} {a : Action} (m : Move s a t) {h : Nat}
    (flag : s.cancelled h = true) (never : h ∉ s.executed) : t.cancelled h = true ∧
    h ∉ t.executed := by
  cases m with
  | quiet _ _ _ _ _ exec mono _ => exact ⟨mono h flag, exec ▸ never⟩
  | start _ ht | immediate _ _ _ _ _ ht | delayed _ _ _ _ _ ht | expire _ _ _ _ _ _ _ _ _ ht
  | discard _ _ _ _ _ _ ht =>
      subst ht
      exact ⟨flag, never⟩
  | send _ _ _ _ _ _ exec flags _ => exact ⟨flags ▸ flag, exec ▸ never⟩
  | receive r handle rest pc _ _ _ _ flags exec _ =>
      refine ⟨flags ▸ flag, ?_⟩
      rw [exec]
      split_ifs with cancelled
      · exact never
      · intro executed
        rcases List.mem_append.mp executed with old | fresh
        · exact never old
        · rw [List.mem_singleton.mp fresh] at flag
          exact cancelled flag

theorem run_starts {s t : TEventLoop} (h : step s .run = some t) :
    t.run = some ⟨[], [], .select⟩ := by
  rcases Option.or_eq_some_iff.mp h with hcall | ⟨_, hrun⟩
  · cases hcall
  · cases runStep_stepped hrun
    rfl

theorem started_fresh {before : List Action} {loop : TEventLoop}
    (started : Runs.run step new (before ++ [.run]) = some loop) :
    Books loop ∧ loop.run = some ⟨[], [], .select⟩ := by
  refine ⟨Runs.run_invariant (fun _ _ _ books hstep => books.step hstep) started books_new, ?_⟩
  obtain ⟨idle, _, last⟩ := Runs.run_append_iff.mp started
  obtain ⟨_, hrun, hnil⟩ := Runs.run_cons_iff.mp last
  cases hnil
  exact run_starts hrun

/-- One `_run`: from the start of a `_run` in any reachable state, for any producers,
cancellations and choices of `select!`. A handle whose flag is set when it has not been
executed never is. -/
theorem immediates_in_order (before : List Action) (loop : TEventLoop) (during : List Action)
    (s : Traced) (started : Runs.run step new (before ++ [.run]) = some loop)
    (one : ∀ a ∈ during, a ≠ .run) (h : Runs.run Traced.step (Traced.start loop) during = some s) :
    ImmediateLaw loop.executed s ∧
      ∀ first rest mid, during = first ++ rest → Runs.run Traced.step
      (Traced.start loop) first = some mid →
        ∀ handle, mid.loop.cancelled handle = true → handle ∉ mid.loop.executed →
        handle ∉ s.loop.executed := by
  obtain ⟨books, fresh⟩ := started_fresh started
  have inv : TraceInv loop.executed s :=
    Runs.run_preserves (fun _ _ _ inv same hstep => inv.step same hstep) h
        (traceInv_start books fresh)
      (Runs.guarded_of_forall one)
  refine ⟨inv.law, ?_⟩
  intro first rest mid split hmid handle flag never
  rw [split] at h
  obtain ⟨mid', hfirst, hrest⟩ := Runs.run_append_iff.mp h
  cases hmid.symm.trans hfirst
  have heeded : s.loop.cancelled handle = true ∧ handle ∉ s.loop.executed := by
    refine Runs.run_invariant (I := fun u => u.loop.cancelled handle = true ∧
      handle ∉ u.loop.executed) ?_ hrest ⟨flag, never⟩
    intro u a v now hstep
    obtain ⟨loop', hloop, rfl⟩ := Traced.step_cases hstep
    exact (step_moves hloop).heeds now.1 now.2
  exact heeded.2

/-- Two handles wait in the scheduler channel. -/
def queuedPair : List Action :=
  [.call 0 none, .loadStopping 0, .loadClosed 0, .send 0 10, .call 0 none, .loadStopping 0,
    .loadClosed 0, .send 0 11]

/-- The second of three handles is cancelled by the first. -/
def cancelNext : List Action :=
  [.recvTask, .checkStop, .recvHandle, .cancel 1, .call 0 none, .loadStopping 0, .loadClosed 0,
      .send 0 20, .finish,
    .checkStop, .recvTask, .checkStop, .recvTask, .checkStop, .recvHandle, .checkStop, .recvHandle,
    .finish, .checkStop]

theorem immediates_in_order_cancelled :
    ∃ loop s, Runs.run step new (queuedPair ++ [.run]) = some loop ∧
      Runs.run Traced.step (Traced.start loop) cancelNext = some s ∧
      immediates s.entered = [0, 1, 2] ∧ immediates s.ran = [0, 2] ∧
      ImmediateLaw loop.executed s := by
  refine ⟨_, _, rfl, rfl, rfl, rfl, ?_⟩
  exact (immediates_in_order queuedPair _ cancelNext _ rfl (by decide) rfl).1

end TokioLoop.Scheduler
