import TokioLoop.TokioOrder

/-! The timers of a `_run` under a monotone clock. A timer travels from the scheduler
channel to the heap and from there to the execution channel; it is ordered by its
deadline only in the heap. -/
namespace TokioLoop.Scheduler

/-- A traced run with its clock; `fired` lists the timers executed, with the instant. -/
structure Timed where
  trace : Traced
  clock : Nat
  fired : List (TokioTimer × Nat)

def Timed.start (loop : TEventLoop) (clock : Nat) : Timed := ⟨Traced.start loop, clock, []⟩

/-- The instants an action reads, for an action taken at `now` after one at `last`.
`schedule_handle` reads the clock before it sends: on a thread other than the loop's the
reading may be older than `last`. -/
def Action.reads (last now : Nat) : Action → Bool
  | .send _ reading => decide (reading ≤ now)
  | .timer current currentTime =>
      decide (last ≤ current ∧ current ≤ currentTime ∧ currentTime ≤ now)
  | _ => true

def timers (tasks : List ScheduledTask) : List TokioTimer :=
  tasks.filterMap fun t =>
    match t with
    | .immediate _ => none
    | .delayed timer => some timer

/-- The timer a step executes. -/
def Traced.launches (s : Traced) (a : Action) : List TokioTimer :=
  timers (((s.receives a).filter Prod.snd).map Prod.fst)

/-- An action taken at the instant `now`. -/
def Timed.step (s : Timed) (timed : Nat × Action) : Option Timed :=
  if s.clock ≤ timed.1 ∧ timed.2.reads s.clock timed.1 then
    (s.trace.step timed.2).map fun t =>
      ⟨t, timed.1, s.fired ++ (s.trace.launches timed.2).map fun timer => (timer, timed.1)⟩
  else none

def TEventLoop.heap (s : TEventLoop) : List TokioTimer := (s.run.map Run.delayedTasks).getD []

/-- Timers scheduled and not yet fired. -/
def Traced.waiting (s : Traced) : List TokioTimer :=
  timers s.queue ++ s.loop.heap ++ timers s.loop.scheduler

def TEventLoop.live (s : TEventLoop) (timer : TokioTimer) : Bool := !s.cancelled timer.handle

/-- A step that keeps the deadlines in order. A live timer is moved to the execution
channel only when no live timer with an earlier deadline is in the scheduler channel,
and a timer does not enter the scheduler channel behind a live one with a later deadline
that has been moved on. -/
def Orderly (s : Timed) : Nat × Action → Prop
  | (_, .popTimer index) => ∀ timer ∈ s.trace.loop.run.bind fun r => earliest r.delayedTasks index,
      s.trace.loop.live timer → ∀ other ∈ timers s.trace.loop.scheduler, s.trace.loop.live other →
        timer.when ≤ other.when
  | (_, .send thread reading) =>
      s.trace.loop.run.isSome → ∀ c ∈ s.trace.loop.calls thread, ∀ delay ∈ c.delay,
      ∀ timer ∈ timers s.trace.queue, s.trace.loop.live timer → timer.when ≤ reading + delay
  | _ => True

instance (s : Timed) (timed : Nat × Action) : Decidable (Orderly s timed) := by
  unfold Orderly
  split <;> infer_instance

@[simp] theorem timers_nil : timers [] = [] := rfl

@[simp] theorem timers_append (tasks more : List ScheduledTask) :
    timers (tasks ++ more) = timers tasks ++ timers more := List.filterMap_append

@[simp] theorem timers_immediate (handle : Nat) (tasks : List ScheduledTask) :
    timers (.immediate handle :: tasks) = timers tasks := rfl

@[simp] theorem timers_delayed (timer : TokioTimer) (tasks : List ScheduledTask) :
    timers (.delayed timer :: tasks) = timer :: timers tasks := rfl

theorem heap_of_run {s : TEventLoop} {r : Run} (hrun : s.run = some r) :
    s.heap = r.delayedTasks := by
  simp [TEventLoop.heap, hrun]

/-- How the timers of a step move. -/
inductive Flow (s : Traced) (a : Action) (t : Traced) : Prop where
  | halt : s.launches a = [] → t.loop.run = none → timers t.queue = timers s.queue →
      timers t.loop.scheduler = timers s.loop.scheduler → Flow s a t
  | keep : s.launches a = [] → timers t.queue = timers s.queue → t.loop.heap = s.loop.heap →
      timers t.loop.scheduler = timers s.loop.scheduler → Flow s a t
  | enter (thread reading delay : Nat) (c : Call) (timer : TokioTimer) : a = .send thread reading →
      s.loop.calls thread = some c → c.delay = some delay → timer.when = reading + delay →
      s.launches a = [] → timers t.queue = timers s.queue → t.loop.heap = s.loop.heap →
      timers t.loop.scheduler = timers s.loop.scheduler ++ [timer] → Flow s a t
  | fetch (timer : TokioTimer) : s.launches a = [] → timers t.queue = timers s.queue →
      timers s.loop.scheduler = timer :: timers t.loop.scheduler →
      t.loop.heap = s.loop.heap ++ [timer] → Flow s a t
  | expire (index currentTime : Nat) (r : Run) (timer : TokioTimer) : a = .popTimer index →
      s.loop.run = some r → r.pc = .expiring currentTime →
      earliest r.delayedTasks index = some timer → timer.when ≤ currentTime →
      s.loop.live timer = true → s.launches a = [] → timers t.queue = timers s.queue ++ [timer] →
      t.loop.heap = r.delayedTasks.eraseIdx index →
      timers t.loop.scheduler = timers s.loop.scheduler → Flow s a t
  | discard (index : Nat) (r : Run) (timer : TokioTimer) : s.loop.run = some r →
      earliest r.delayedTasks index = some timer → s.loop.live timer = false → s.launches a = [] →
      timers t.queue = timers s.queue → t.loop.heap = r.delayedTasks.eraseIdx index →
      timers t.loop.scheduler = timers s.loop.scheduler → Flow s a t
  | front (timer : TokioTimer) : s.loop.run ≠ none → timers s.queue = timer :: timers t.queue →
      s.launches a = (if s.loop.live timer then [timer] else []) → t.loop.heap = s.loop.heap →
      timers t.loop.scheduler = timers s.loop.scheduler → Flow s a t

theorem Traced.launches_of_ne {s : Traced} {a : Action} (other : a ≠ .recvHandle) :
    s.launches a = [] := by
  simp [Traced.launches, Traced.receives_of_ne other]

theorem launches_immediate {s : Traced} {handle : Nat} {rest : List ScheduledTask}
    (hqueue : s.queue = .immediate handle :: rest) : s.launches .recvHandle = [] := by
  cases flag : s.loop.cancelled handle <;> simp [Traced.launches, Traced.receives, hqueue,
    ScheduledTask.handle, flag]

theorem launches_delayed {s : Traced} {timer : TokioTimer} {rest : List ScheduledTask}
    (hqueue : s.queue = .delayed timer :: rest) :
    s.launches .recvHandle = if s.loop.live timer then [timer] else [] := by
  cases flag : s.loop.cancelled timer.handle <;>
    simp [Traced.launches, Traced.receives, hqueue, ScheduledTask.handle, TEventLoop.live, flag]

theorem TraceInv.flow {base : List Nat} {s t : Traced} {a : Action} (inv : TraceInv base s)
    (same : a ≠ .run) (h : s.step a = some t) : Flow s a t := by
  obtain ⟨loop, hloop, rfl⟩ := Traced.step_cases h
  cases step_moves hloop with
  | quiet sends queues other sched sent exec mono locals =>
      have still := Traced.launches_of_ne (s := s) other
      have queue : timers (s.queue.drop (s.receives a).length ++ s.loop.queues a) = timers
          s.queue := by
        simp [queues, Traced.receives_of_ne other]
      cases hrun : loop.run with
      | none => exact .halt still hrun queue (by rw [sched])
      | some r' =>
          obtain ⟨r, hr, heap, _⟩ := locals r' hrun
          exact .keep still queue (by rw [heap_of_run hr, heap_of_run hrun, heap]) (by rw [sched])
  | start => exact absurd rfl same
  | send thread now c hc sched sent exec flags locals =>
      have heap : loop.heap = s.loop.heap := by rw [TEventLoop.heap, locals, TEventLoop.heap]
      rcases c with ⟨handle, delay, point⟩
      cases delay with
      | none =>
          exact .keep rfl (by simp [Traced.receives, TEventLoop.queues]) heap
            (by simp [sched, task])
      | some delay =>
          exact .enter thread now delay _ ⟨handle, now + delay⟩ rfl hc rfl rfl rfl
            (by simp [Traced.receives, TEventLoop.queues]) heap (by simp [sched, task])
  | immediate r handle rest hrun hsched ht =>
      subst ht
      refine .keep rfl ?_ ?_ ?_
      · simp [Traced.receives, queues_immediate hsched]
      · rw [heap_of_run hrun]
        rfl
      · rw [hsched]
        rfl
  | delayed r timer rest hrun hsched ht =>
      subst ht
      refine .fetch timer rfl ?_ ?_ ?_
      · simp [Traced.receives, queues_delayed hsched]
      · rw [hsched]
        rfl
      · rw [heap_of_run hrun]
        rfl
  | expire r index currentTime timer hrun hpc hearly due live ht =>
      subst ht
      refine .expire index currentTime r timer rfl hrun hpc hearly due ?_ rfl ?_ rfl rfl
      · simp [TEventLoop.live, live]
      · simp [Traced.receives, queues_popTimer hrun hearly, live]
  | discard r index timer hrun hearly cancelled ht =>
      subst ht
      refine .discard index r timer hrun hearly ?_ rfl ?_ rfl rfl
      · simp [TEventLoop.live, cancelled]
      · simp [Traced.receives, queues_popTimer hrun hearly, cancelled]
  | receive r handle rest pc hrun hcur sched sent flags exec locals =>
      obtain ⟨front, queue, hqueue, hfront, _⟩ :=
        List.map_eq_cons_iff.mp ((inv.agrees r hrun).trans hcur)
      have heap : loop.heap = s.loop.heap := by rw [heap_of_run locals, heap_of_run hrun]
      cases front with
      | immediate first =>
          refine .keep ?_ ?_ heap (by rw [sched])
          · exact launches_immediate hqueue
          · simp [Traced.receives, hqueue, TEventLoop.queues]
      | delayed timer =>
          refine .front timer (by rw [hrun]; exact Option.some_ne_none _) ?_ ?_ heap (by rw [sched])
          · simp [Traced.receives, hqueue, TEventLoop.queues]
          · exact launches_delayed hqueue

theorem Move.mono {s t : TEventLoop} {a : Action} (m : Move s a t) {h : Nat}
    (flag : s.cancelled h = true) : t.cancelled h = true := by
  cases m with
  | quiet _ _ _ _ _ _ mono _ => exact mono h flag
  | start _ ht | immediate _ _ _ _ _ ht | delayed _ _ _ _ _ ht | expire _ _ _ _ _ _ _ _ _ ht
  | discard _ _ _ _ _ _ ht =>
      subst ht
      exact flag
  | send _ _ _ _ _ _ _ flags _ | receive _ _ _ _ _ _ _ _ flags _ _ => exact flags ▸ flag

theorem Move.live_of {s t : TEventLoop} {a : Action} (m : Move s a t) {timer : TokioTimer}
    (alive : t.live timer = true) : s.live timer = true := by
  simp only [TEventLoop.live, Bool.not_eq_true'] at alive ⊢
  by_contra flag
  rw [m.mono (Bool.not_eq_false _ ▸ flag)] at alive
  cases alive

theorem callStep_run {s t : TEventLoop} {a : Action} (h : callStep s a = some t) :
    t.run = s.run := by
  cases callStep_stepped h <;> rfl

/-- The loop over the heap is entered by the timer branch only, with the instant it read. -/
theorem step_expiring {s t : TEventLoop} {a : Action} (h : step s a = some t) {r' : Run}
    {currentTime : Nat} (hrun' : t.run = some r') (hpc : r'.pc = .expiring currentTime) :
    (∃ r, s.run = some r ∧ r.pc = .expiring currentTime) ∨
    ∃ current, a = .timer current currentTime := by
  rcases Option.or_eq_some_iff.mp h with hcall | ⟨_, hrun⟩
  · exact .inl ⟨r', callStep_run hcall ▸ hrun', hpc⟩
  · cases runStep_stepped hrun with
    | due _ current now =>
        cases hrun'
        cases hpc
        exact .inr ⟨current, rfl⟩
    | discard r _ _ _ run | expire r _ _ _ run =>
        cases hrun'
        exact .inl ⟨r, run, hpc⟩
    | run | immediate | delayed | early | caught | sleep | skip | execute | expired | finish
    | goesOn =>
        cases hrun'
        cases hpc
    | uncaught | crash | stops => cases hrun'

theorem Timed.step_cases {s t : Timed} {now : Nat} {a : Action} (h : s.step (now, a) = some t) :
    s.clock ≤ now ∧ a.reads s.clock now ∧ ∃ trace, s.trace.step a = some trace ∧
      t = ⟨trace, now, s.fired ++ (s.trace.launches a).map fun timer => (timer, now)⟩ := by
  simp only [Timed.step] at h
  split_ifs at h with guard
  obtain ⟨trace, htrace, rfl⟩ := Option.map_eq_some_iff.mp h
  exact ⟨guard.1, guard.2, trace, htrace, rfl⟩

/-- What needs no condition: a timer that has been moved on is due. -/
structure DueInv (base : List Nat) (s : Timed) : Prop where
  trace : TraceInv base s.trace
  named : s.fired.map Prod.fst = timers s.trace.ran
  punctual : ∀ f ∈ s.fired, f.1.when ≤ f.2
  moved : ∀ timer ∈ timers s.trace.queue, timer.when ≤ s.clock
  phase : ∀ r currentTime, s.trace.loop.run = some r → r.pc = .expiring currentTime →
      currentTime ≤ s.clock

theorem Flow.moved {s t : Traced} {a : Action} {last now : Nat} (flow : Flow s a t)
    (later : last ≤ now) (phase : ∀ r currentTime, s.loop.run = some r →
      r.pc = .expiring currentTime → currentTime ≤ last)
    (moved : ∀ timer ∈ timers s.queue, timer.when ≤ last) :
    ∀ timer ∈ timers t.queue, timer.when ≤ now := by
  intro timer ht
  cases flow with
  | halt _ _ queue | keep _ queue | enter _ _ _ _ _ _ _ _ _ _ queue | fetch _ _ queue
  | discard _ _ _ _ _ _ _ queue => exact Nat.le_trans (moved timer (queue ▸ ht)) later
  | expire index currentTime r popped _ hrun hpc _ due _ _ queue =>
      rw [queue] at ht
      rcases List.mem_append.mp ht with old | fresh
      · exact Nat.le_trans (moved timer old) later
      · rw [List.mem_singleton.mp fresh]
        have bound := phase r currentTime hrun hpc
        omega
  | front first _ queue =>
      exact Nat.le_trans (moved timer (queue ▸ List.mem_cons_of_mem first ht)) later

theorem Flow.due {s t : Traced} {a : Action} (flow : Flow s a t) {last : Nat}
    (moved : ∀ timer ∈ timers s.queue, timer.when ≤ last) :
    ∀ timer ∈ s.launches a, timer.when ≤ last := by
  intro timer ht
  cases flow with
  | front first _ queue launches =>
      rw [launches] at ht
      split_ifs at ht
      · exact moved timer (by rw [List.mem_singleton.mp ht, queue]; simp)
      · cases ht
  | halt still | keep still | fetch _ still => simp [still] at ht
  | enter _ _ _ _ _ _ _ _ _ still | expire _ _ _ _ _ _ _ _ _ _ still
  | discard _ _ _ _ _ _ still => simp [still] at ht

theorem ran_grows {s t : Traced} {a : Action} (h : s.step a = some t) :
    timers t.ran = timers s.ran ++ s.launches a := by
  obtain ⟨loop, _, rfl⟩ := Traced.step_cases h
  simp [Traced.ran, Traced.launches]

theorem DueInv.step {base : List Nat} {s t : Timed} {timed : Nat × Action} (inv : DueInv base s)
    (same : timed.2 ≠ .run) (h : s.step timed = some t) : DueInv base t := by
  obtain ⟨now, a⟩ := timed
  obtain ⟨later, reads, trace, htrace, rfl⟩ := Timed.step_cases h
  have flow := inv.trace.flow same htrace
  refine ⟨inv.trace.step same htrace, ?_, ?_, flow.moved later inv.phase inv.moved, ?_⟩
  · rw [ran_grows htrace, ← inv.named, List.map_append, List.map_map]
    exact congrArg _ (List.map_id _)
  · intro f hf
    rcases List.mem_append.mp hf with old | fresh
    · exact inv.punctual f old
    · obtain ⟨timer, ht, rfl⟩ := List.mem_map.mp fresh
      exact Nat.le_trans (flow.due inv.moved timer ht) later
  · intro r' currentTime hrun' hpc
    obtain ⟨loop, hloop, rfl⟩ := Traced.step_cases htrace
    rcases step_expiring hloop hrun' hpc with ⟨r, hrun, hpc⟩ | ⟨current, rfl⟩
    · exact Nat.le_trans (inv.phase r currentTime hrun hpc) later
    · exact (of_decide_eq_true reads).2.2

theorem dueInv_start {loop : TEventLoop} (books : Books loop)
    (fresh : loop.run = some ⟨[], [], .select⟩) (clock : Nat) : DueInv loop.executed
    (Timed.start loop clock) where
  trace := traceInv_start books fresh
  named := rfl
  punctual f hf := by cases hf
  moved timer ht := by cases ht
  phase r currentTime hrun hpc := by
    cases fresh.symm.trans hrun
    cases hpc

/-- Of two live timers the one ahead in the execution channel, or the one that is in it
when the other is not, is due no later. -/
structure InLine (live : TokioTimer → Bool) (queue rest : List TokioTimer) : Prop where
  ahead : queue.Pairwise fun q w => live q → live w → q.when ≤ w.when
  behind : ∀ q ∈ queue, live q → ∀ w ∈ rest, live w → q.when ≤ w.when

section InLine

variable {live : TokioTimer → Bool} {queue rest : List TokioTimer}

theorem InLine.mono {fewer : TokioTimer → Bool} (line : InLine live queue rest)
    (less : ∀ w, fewer w = true → live w = true) : InLine fewer queue rest where
  ahead := line.ahead.imp fun ordered hq hw => ordered (less _ hq) (less _ hw)
  behind q hq alive w hw alive' := line.behind q hq (less q alive) w hw (less w alive')

theorem InLine.fewer {rest' : List TokioTimer} (line : InLine live queue rest)
    (sub : ∀ w ∈ rest', w ∈ rest) : InLine live queue rest' where
  ahead := line.ahead
  behind q hq alive w hw := line.behind q hq alive w (sub w hw)

theorem InLine.enter {timer : TokioTimer} (line : InLine live queue rest)
    (after : ∀ q ∈ queue, live q → q.when ≤ timer.when) : InLine live queue (rest ++ [timer]) where
  ahead := line.ahead
  behind q hq alive w hw alive' := by
    rcases List.mem_append.mp hw with old | fresh
    · exact line.behind q hq alive w old alive'
    · exact List.mem_singleton.mp fresh ▸ after q hq alive

theorem InLine.front {timer : TokioTimer} (line : InLine live (timer :: queue) rest) :
    InLine live queue rest where
  ahead := (List.pairwise_cons.mp line.ahead).2
  behind q hq := line.behind q (List.mem_cons_of_mem timer hq)

/-- The timer moved on comes from the rest and is due no later than what stays there. -/
theorem InLine.expire {timer : TokioTimer} {rest' : List TokioTimer} (line : InLine live queue rest)
    (inside : timer ∈ rest) (sub : ∀ w ∈ rest', w ∈ rest)
    (least : live timer → ∀ w ∈ rest', live w → timer.when ≤ w.when) : InLine live
    (queue ++ [timer]) rest' where
  ahead := by
    refine List.pairwise_append.mpr ⟨line.ahead, List.pairwise_singleton _ _, ?_⟩
    intro q hq w hw alive alive'
    rw [List.mem_singleton.mp hw] at alive' ⊢
    exact line.behind q hq alive timer inside alive'
  behind q hq alive w hw alive' := by
    rcases List.mem_append.mp hq with old | fresh
    · exact line.behind q old alive w (sub w hw) alive'
    · rw [List.mem_singleton.mp fresh] at alive ⊢
      exact least alive w hw alive'

end InLine

def Traced.inLine (s : Traced) : Prop :=
  InLine s.loop.live (timers s.queue) (s.loop.heap ++ timers s.loop.scheduler)

theorem Flow.inLine {s : Timed} {t : Traced} {now : Nat} {a : Action} {r : Run}
    (flow : Flow s.trace a t) (hrun : s.trace.loop.run = some r) (still : t.loop.run ≠ none)
    (orderly : Orderly s (now, a)) (line : s.trace.inLine) :
    InLine s.trace.loop.live (timers t.queue) (t.loop.heap ++ timers t.loop.scheduler) := by
  cases flow with
  | halt _ ended => exact absurd ended still
  | keep _ queue heap sched =>
      rw [queue, heap, sched]
      exact line
  | enter thread reading delay c timer ha hc hdelay due _ queue heap sched =>
      subst ha
      rw [queue, heap, sched, ← List.append_assoc]
      refine InLine.enter line ?_
      intro q hq alive
      rw [due]
      exact orderly (by rw [hrun]; rfl) c hc delay hdelay q hq alive
  | fetch timer _ queue sched heap =>
      rw [queue, heap]
      refine InLine.fewer line ?_
      intro w hw
      rw [sched]
      simpa [or_assoc] using hw
  | expire index currentTime r' timer ha hr' _ hearly _ alive _ queue heap sched =>
      subst ha
      rw [queue, heap, sched]
      have kept := LeastFirst.least_perm TokioTimer.when hearly
      refine InLine.expire line ?_ ?_ ?_
      · rw [heap_of_run hr']
        exact List.mem_append_left _ (kept.subset (List.mem_cons_self ..))
      · intro w hw
        rw [heap_of_run hr']
        exact ((List.eraseIdx_sublist ..).append_right _).subset hw
      · intro alive w hw alive'
        rcases List.mem_append.mp hw with inside | waiting
        · exact LeastFirst.least_le TokioTimer.when hearly w (List.mem_of_mem_eraseIdx inside)
        · exact orderly timer (by rw [hr']; exact hearly) alive w waiting alive'
  | discard index r' timer hr' hearly _ _ queue heap sched =>
      rw [queue, heap, sched]
      refine InLine.fewer line ?_
      intro w hw
      rw [heap_of_run hr']
      exact ((List.eraseIdx_sublist ..).append_right _).subset hw
  | front timer _ queue _ heap sched =>
      rw [Traced.inLine, queue] at line
      rw [heap, sched]
      exact line.front

theorem Move.running {s t : TEventLoop} {a : Action} (m : Move s a t) (same : a ≠ .run)
    (still : t.run ≠ none) : ∃ r, s.run = some r := by
  cases m with
  | quiet _ _ _ _ _ _ _ locals =>
      obtain ⟨r', hr'⟩ := Option.ne_none_iff_exists'.mp still
      obtain ⟨r, hr, _⟩ := locals r' hr'
      exact ⟨r, hr⟩
  | start => exact absurd rfl same
  | send _ _ _ _ _ _ _ _ locals => exact Option.ne_none_iff_exists'.mp (locals ▸ still)
  | immediate r _ _ hr | delayed r _ _ hr | expire r _ _ _ hr | discard r _ _ hr
  | receive r _ _ _ hr => exact ⟨r, hr⟩

structure OrderInv (base : List Nat) (s : Timed) : Prop where
  due : DueInv base s
  line : s.trace.loop.run ≠ none → s.trace.inLine

theorem OrderInv.step {base : List Nat} {s t : Timed} {timed : Nat × Action} (inv : OrderInv base s)
    (same : timed.2 ≠ .run) (orderly : Orderly s timed) (h : s.step timed = some t) :
    OrderInv base t := by
  refine ⟨inv.due.step same h, ?_⟩
  intro still
  obtain ⟨now, a⟩ := timed
  obtain ⟨_, _, trace, htrace, rfl⟩ := Timed.step_cases h
  have flow := inv.due.trace.flow same htrace
  obtain ⟨loop, hloop, rfl⟩ := Traced.step_cases htrace
  have move := step_moves hloop
  obtain ⟨r, hr⟩ := move.running same still
  have line := inv.line (by rw [hr]; exact Option.some_ne_none _)
  exact (flow.inLine hr still orderly line).mono fun _ => move.live_of

/-- A timer that waits is fired, goes on waiting or was cancelled, or the `_run` ended. -/
theorem Flow.stays {s t : Traced} {a : Action} (flow : Flow s a t)
    (flags : ∀ w, t.loop.live w → s.loop.live w) {timer : TokioTimer} (here : timer ∈ s.waiting) :
    timer ∈ s.launches a ∨ timer ∈ t.waiting ∨ t.loop.live timer = false ∨ t.loop.run = none := by
  simp only [Traced.waiting, List.mem_append] at here ⊢
  cases flow with
  | halt _ ended => exact .inr (.inr (.inr ended))
  | keep _ queue heap sched =>
      rw [queue, heap, sched]
      exact .inr (.inl here)
  | enter _ _ _ _ _ _ _ _ _ _ queue heap sched =>
      rw [queue, heap, sched]
      exact .inr (.inl (here.imp_right (List.mem_append_left _)))
  | fetch first _ queue sched heap =>
      rw [sched] at here
      rw [queue, heap]
      simp only [List.mem_cons, List.mem_append] at here ⊢
      tauto
  | expire index _ r moved _ hr _ hearly _ _ _ queue heap sched =>
      rw [heap_of_run hr, ← (LeastFirst.least_perm TokioTimer.when hearly).mem_iff] at here
      rw [queue, heap, sched]
      simp only [List.mem_cons, List.mem_append] at here ⊢
      tauto
  | discard index r dropped hr hearly dead _ queue heap sched =>
      rw [heap_of_run hr, ← (LeastFirst.least_perm TokioTimer.when hearly).mem_iff, List.mem_cons]
        at here
      rw [queue, heap, sched]
      by_cases same : timer = dropped
      · refine .inr (.inr (.inl ?_))
        rw [same]
        by_contra alive
        rw [flags dropped (Bool.not_eq_false _ ▸ alive)] at dead
        cases dead
      · tauto
  | front first _ queue launches heap sched =>
      rw [queue, List.mem_cons] at here
      rw [launches, heap, sched]
      by_cases same : timer = first
      · cases alive : s.loop.live first with
        | true => exact .inl (by simp [same])
        | false =>
            refine .inr (.inr (.inl ?_))
            rw [same]
            by_contra alive'
            rw [flags first (Bool.not_eq_false _ ▸ alive')] at alive
            cases alive
      · tauto

/-- Timer `a` is fired before `b`, among those fired since `mid`, unless it is cancelled. -/
structure Precedes (mid : List (TokioTimer × Nat)) (a b : TokioTimer) (u : Timed)
    (since : List (TokioTimer × Nat)) : Prop where
  fired : u.fired = mid ++ since
  first : ∀ earlier now later, since = earlier ++ (b, now) :: later →
    a ∈ earlier.map Prod.fst ∨ u.trace.loop.live a = false
  place : a ∈ since.map Prod.fst ∨ a ∈ u.trace.waiting ∨ u.trace.loop.live a = false ∨
      u.trace.loop.run = none

/-- A timer is launched from a running `_run`, and no live timer that waits is due before it. -/
theorem Flow.launched {s t : Traced} {a : Action} (flow : Flow s a t) {timer : TokioTimer}
    (hl : timer ∈ s.launches a) :
    s.loop.run ≠ none ∧ (s.inLine → ∀ w ∈ s.waiting, s.loop.live w → timer.when ≤ w.when) := by
  cases flow with
  | front first hrun queue launches =>
      rw [launches] at hl
      split_ifs at hl with alive
      · obtain rfl := List.mem_singleton.mp hl
        refine ⟨hrun, ?_⟩
        intro line w hw alive'
        rw [Traced.inLine, queue] at line
        rw [Traced.waiting, queue, List.append_assoc, List.cons_append, List.mem_cons,
          List.mem_append] at hw
        rcases hw with rfl | inQueue | behind
        · exact Nat.le_refl _
        · exact (List.pairwise_cons.mp line.ahead).1 w inQueue alive alive'
        · exact line.behind timer (List.mem_cons_self ..) alive w behind alive'
      · cases hl
  | halt still | keep still | fetch _ still => simp [still] at hl
  | enter _ _ _ _ _ _ _ _ _ still | expire _ _ _ _ _ _ _ _ _ _ still
  | discard _ _ _ _ _ _ still => simp [still] at hl

theorem Precedes.step {base : List Nat} {mid since : List (TokioTimer × Nat)} {a b : TokioTimer}
    {u v : Timed} {timed : Nat × Action} (earlier : a.when < b.when)
    (prec : Precedes mid a b u since) (inv : OrderInv base u) (same : timed.2 ≠ .run)
    (h : u.step timed = some v) : ∃ since', Precedes mid a b v since' := by
  obtain ⟨now, act⟩ := timed
  obtain ⟨_, _, trace, htrace, rfl⟩ := Timed.step_cases h
  have flow := inv.due.trace.flow same htrace
  obtain ⟨loop, hloop, rfl⟩ := Traced.step_cases htrace
  have move := step_moves hloop
  have dies : u.trace.loop.live a = false → loop.live a = false := by
    intro dead
    by_contra alive
    rw [move.live_of (Bool.not_eq_false _ ▸ alive)] at dead
    cases dead
  -- when `b` is launched, `a` has been fired or is dead
  have before : b ∈ u.trace.launches act → a ∈ since.map Prod.fst ∨ loop.live a = false := by
    intro launched
    obtain ⟨running, least⟩ := flow.launched launched
    rcases prec.place with fired | waits | dead | ended
    · exact .inl fired
    · refine .inr (dies ?_)
      by_contra alive
      have late := least (inv.line running) a waits (Bool.not_eq_false _ ▸ alive)
      omega
    · exact .inr (dies dead)
    · exact absurd ended running
  have launched : ∀ instant, (b, instant) ∈ (u.trace.launches act).map (fun timer => (timer, now)) →
      b ∈ u.trace.launches act := by
    intro instant inside
    obtain ⟨timer, ht, hsame⟩ := List.mem_map.mp inside
    exact (Prod.mk.inj hsame).1 ▸ ht
  refine ⟨since ++ (u.trace.launches act).map fun timer => (timer, now), ?_, ?_, ?_⟩
  · rw [prec.fired, List.append_assoc]
  · intro front instant back split
    rcases List.append_eq_append_iff.mp split with
      ⟨between, hfront, hback⟩ | ⟨between, hsince, hrest⟩
    · refine (before (launched instant (by rw [hback]; simp))).imp_left ?_
      intro fired
      rw [hfront, List.map_append]
      exact List.mem_append_left _ fired
    · cases between with
      | nil =>
          rw [List.append_nil] at hsince
          rw [List.nil_append] at hrest
          exact hsince ▸ before (launched instant (hrest ▸ List.mem_cons_self))
      | cons head tail =>
          obtain ⟨rfl, _⟩ := List.cons.inj hrest
          exact (prec.first front instant tail hsince).imp_right dies
  · rw [List.map_append, List.map_map, List.mem_append]
    rcases prec.place with fired | waits | dead | ended
    · exact .inl (.inl fired)
    · rcases flow.stays (fun _ => move.live_of) waits with now_fired | rest
      · exact .inl (.inr (by simpa using now_fired))
      · exact .inr rest
    · exact .inr (.inr (.inl (dies dead)))
    · refine .inr (.inr (.inr ?_))
      by_contra still
      obtain ⟨r, hr⟩ := move.running same still
      cases hr.symm.trans ended

/-- No timer is executed before its deadline, in any run; and the timers executed are the
ones the execution channel delivered. -/
structure Punctual (base : List Nat) (s : Timed) : Prop where
  executed : s.trace.loop.executed = base ++ s.trace.ran.map ScheduledTask.handle
  named : s.fired.map Prod.fst = timers s.trace.ran
  punctual : ∀ f ∈ s.fired, f.1.when ≤ f.2

/-- Of two timers that wait in some state of the run, the one with the earlier deadline,
unless it gets cancelled, is fired before the other. -/
def InOrder (start : Timed) (during : List (Nat × Action)) (s : Timed) : Prop :=
  ∀ first rest mid, during = first ++ rest → Runs.run Timed.step start first = some mid →
    ∀ a ∈ mid.trace.waiting, ∀ b ∈ mid.trace.waiting, a.when < b.when → s.trace.loop.live a →
      ∀ earlier now later, s.fired = mid.fired ++ (earlier ++ (b, now) :: later) →
      a ∈ earlier.map Prod.fst

/-- One `_run` with a monotone clock, from any reachable state: timers are never early,
and they fire in the order of their deadlines when every step is orderly. -/
theorem timers_in_order (before : List Action) (loop : TEventLoop) (clock : Nat)
    (during : List (Nat × Action)) (s : Timed)
    (started : Runs.run step new (before ++ [.run]) = some loop)
    (one : ∀ timed ∈ during, timed.2 ≠ .run)
    (h : Runs.run Timed.step (Timed.start loop clock) during = some s) :
    Punctual loop.executed s ∧
      (Runs.Guarded Timed.step Orderly (Timed.start loop clock) during →
        InOrder (Timed.start loop clock) during s) := by
  obtain ⟨books, fresh⟩ := started_fresh started
  have inv := dueInv_start books fresh clock
  constructor
  · have last : DueInv loop.executed s :=
      Runs.run_preserves (fun _ _ _ inv same hstep => inv.step same hstep) h inv
        (Runs.guarded_of_forall one)
    exact ⟨last.trace.ran, last.named, last.punctual⟩
  · intro orderly first rest mid split hmid a ha b hb earlier live front now back fired
    rw [split] at h one orderly
    obtain ⟨mid', hfirst, hrest⟩ := Runs.run_append_iff.mp h
    cases hmid.symm.trans hfirst
    obtain ⟨guarded, later⟩ := ((Runs.guarded_of_forall one).and orderly).split hfirst
    have step_inv : ∀ u timed v, OrderInv loop.executed u → (timed.2 ≠ Action.run ∧
      Orderly u timed) →
        u.step timed = some v → OrderInv loop.executed v :=
      fun _ _ _ inv good hstep => inv.step good.1 good.2 hstep
    have atMid : OrderInv loop.executed mid := by
      refine Runs.run_preserves step_inv hfirst ⟨inv, ?_⟩ guarded
      intro _
      exact ⟨List.Pairwise.nil, fun q hq => absurd hq List.not_mem_nil⟩
    have began : Precedes mid.fired a b mid [] := by
      refine ⟨(List.append_nil _).symm, ?_, .inr (.inl ha)⟩
      intro _ _ _ none
      cases (List.append_eq_nil_iff.mp none.symm).2
    have ended : OrderInv loop.executed s ∧ ∃ since, Precedes mid.fired a b s since := by
      refine Runs.run_preserves (I := fun u => OrderInv loop.executed u ∧
        ∃ since, Precedes mid.fired a b u since) ?_ hrest ⟨atMid, [], began⟩ later
      rintro u timed v ⟨inv, since, prec⟩ good hstep
      exact ⟨step_inv u timed v inv good hstep, prec.step earlier inv good.1 hstep⟩
    obtain ⟨_, since, prec⟩ := ended
    have same : since = front ++ (b, now) :: back :=
      List.append_cancel_left (prec.fired.symm.trans fired)
    rcases prec.first front now back same with done | dead
    · exact done
    · rw [live] at dead
      cases dead

/-- A timer due at 30 and a callback; the callback schedules a timer due at 12 and ends
at 40. -/
def outlasted : List (Nat × Action) :=
  [(1, .recvTask), (1, .checkStop), (1, .recvTask), (1, .checkStop), (2, .recvHandle),
      (10, .call 0 (some 2)),
    (10, .loadStopping 0), (10, .loadClosed 0), (10, .send 0 10), (40, .finish), (40, .checkStop)]

def timerAndCallback : List Action :=
  [.call 0 (some 30), .loadStopping 0, .loadClosed 0, .send 0 0, .call 0 none, .loadStopping 0,
      .loadClosed 0, .send 0 0]

/-- `select!` receives the new timer first. -/
def received : List (Nat × Action) :=
  [(41, .recvTask), (41, .checkStop), (42, .timer 42 42), (42, .popTimer 1), (42, .popTimer 0),
      (42, .expired),
    (42, .checkStop), (43, .recvHandle), (43, .finish), (43, .checkStop), (44, .recvHandle)]

theorem timers_in_order_received :
    ∃ loop s, Runs.run step new (timerAndCallback ++ [.run]) = some loop ∧
      Runs.run Timed.step (Timed.start loop 0) (outlasted ++ received) = some s ∧
      s.fired = [(⟨2, 12⟩, 43), (⟨0, 30⟩, 44)] ∧ Punctual loop.executed s ∧
      InOrder (Timed.start loop 0) (outlasted ++ received) s := by
  refine ⟨_, _, rfl, rfl, rfl, ?_⟩
  have both := timers_in_order timerAndCallback _ 0 (outlasted ++ received) _ rfl (by decide) rfl
  exact ⟨both.1, both.2 (by decide)⟩

/-- `select!` takes the timer branch first: the timer due at 30 is fired, the one due at
12 waits. -/
def postponed : List (Nat × Action) :=
  [(41, .timer 41 41), (41, .popTimer 0), (41, .expired), (41, .checkStop), (42, .recvHandle)]

theorem later_timer_first :
    ¬ ∀ (before : List Action) (loop : TEventLoop) (clock : Nat) (during : List (Nat × Action))
    (s : Timed),
      Runs.run step new (before ++ [.run]) = some loop → (∀ timed ∈ during, timed.2 ≠ .run) →
      Runs.run Timed.step (Timed.start loop clock) during = some s →
      InOrder (Timed.start loop clock) during s := by
  intro always
  obtain ⟨loop, mid, s, hloop, hmid, hs, hwait, hfired, hfired', hlive⟩ :
      ∃ loop mid s, Runs.run step new (timerAndCallback ++ [.run]) = some loop ∧
        Runs.run Timed.step (Timed.start loop 0) outlasted = some mid ∧
        Runs.run Timed.step (Timed.start loop 0) (outlasted ++ postponed) = some s ∧
        mid.trace.waiting = [⟨0, 30⟩, ⟨2, 12⟩] ∧ mid.fired = [] ∧ s.fired = [(⟨0, 30⟩, 42)] ∧
        s.trace.loop.live ⟨2, 12⟩ = true :=
    ⟨_, _, _, rfl, rfl, rfl, rfl, rfl, rfl, rfl⟩
  have first := always timerAndCallback loop 0 (outlasted ++ postponed) s hloop
    (by decide) hs outlasted postponed mid rfl hmid ⟨2, 12⟩ (by rw [hwait]; decide) ⟨0, 30⟩
    (by rw [hwait]; decide) (by decide) hlive [] 42 [] (by rw [hfired, hfired']; rfl)
  cases first

end TokioLoop.Scheduler
