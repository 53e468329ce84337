import TokioLoop.LoopReady
import TokioLoop.Lib.LeastFirst

/-! The timers of `EventLoop` under a monotone clock. The loop machine is run beside its
clock and beside two histories: the timers pushed to `handles_sched`, and the timers
popped from it with the tick of the step that popped them. -/
namespace TokioLoop.Loop

variable {α : Type}

structure TimedLoop (α : Type) where
  loop : EventLoop α
  clock : Nat
  added : List (Timer α)
  moved : List (Timer α × Nat)

/-- What an action that reads the clock reads at `now`. `_call_later` and
`schedule_handle(Some)` add a delay to it; on the loop thread nothing of the loop
happens between that reading and the push. -/
def Action.reads (now : Nat) : Action α → Bool
  | .load tick | .peek tick | .pollReturns _ tick | .timers tick => tick == now
  | .later _ _ timer => decide (now ≤ timer.deadline)
  | _ => true

def Action.adds : Action α → List (Timer α)
  | .later _ _ timer => [timer]
  | _ => []

/-- The timer a step pops, with the tick of its timer phase. -/
def EventLoop.pops (s : EventLoop α) : Action α → List (Timer α × Nat)
  | .popTimer index =>
      match s.pc with
      | .popping _ tick _ => (earliest s.handlesSched index).toList.map fun t => (t, tick)
      | _ => []
  | _ => []

def TimedLoop.start (clock : Nat) : TimedLoop α := ⟨new, clock, [], []⟩

/-- An action taken at the instant `now`. -/
def TimedLoop.step (s : TimedLoop α) (timed : Nat × Action α) : Option (TimedLoop α) :=
  if s.clock ≤ timed.1 ∧ timed.2.reads timed.1 then
    (Loop.step s.loop timed.2).map fun t =>
      ⟨t, timed.1, s.added ++ timed.2.adds, s.moved ++ s.loop.pops timed.2⟩
  else none

def Timer.entry (t : Timer α) : Entry α := ⟨.timer t.deadline, t.obj, t.kind, t.callback⟩

def Entry.isTimer (e : Entry α) : Bool :=
  match e.source with
  | .timer _ => true
  | _ => false

/-- Timers that have reached the front of their batch, in that order. -/
def EventLoop.turned (s : EventLoop α) : List (Entry α) :=
  (s.done.map Done.entry).filter Entry.isTimer

/-- Timers that wait in the current batch. -/
def EventLoop.awaiting (s : EventLoop α) : List (Entry α) := s.pc.pending.filter Entry.isTimer

/-- Everything a step can do to the timers. -/
inductive TimerMove (s : EventLoop α) (a : Action α) (t : EventLoop α) : Prop where
  | idle : a.adds = [] → s.pops a = [] → t.handlesSched = s.handlesSched → t.done = s.done →
      t.awaiting = s.awaiting → (∀ p tick batch, t.pc = .popping p tick batch ↔
        s.pc = .popping p tick batch) →
      TimerMove s a t
  | later (thread : Nat) (wakes : Bool) (timer : Timer α) : a = .later thread wakes timer →
      t.handlesSched = s.handlesSched ++ [timer] → t.done = s.done → t.pc = s.pc → TimerMove s a t
  | phase (tick : Nat) (p : Polled) (batch : List (Entry α)) : a = .timers tick →
      s.pc = .timers p batch → t = { s with pc := .popping p tick batch } → TimerMove s a t
  | popped (index tick : Nat) (timer : Timer α) (p : Polled) (batch : List (Entry α)) :
      a = .popTimer index → s.pc = .popping p tick batch →
      earliest s.handlesSched index = some timer → timer.deadline ≤ tick →
      t = { s with
        handlesSched := s.handlesSched.eraseIdx index
        pc := .popping p tick (batch ++ [timer.entry]) } → TimerMove s a t
  | drained (tick : Nat) (p : Polled) (batch : List (Entry α)) : a = .timersDone →
      s.pc = .popping p tick batch → (∀ timer ∈ s.handlesSched, tick < timer.deadline) →
      t = { s with pc := .batch p none batch } → TimerMove s a t
  | front (p : Polled) (e : Entry α) (rest : List (Entry α)) : a = .pop →
      s.pc = .batch p none (e :: rest) → t = popFront s p e rest → TimerMove s a t

theorem callStep_timerMove {s t : EventLoop α} {a : Action α} (h : callStep s a = some t) :
    TimerMove s a t := by
  cases callStep_stepped h with
  | later thread wakes timer => exact .later thread wakes timer rfl rfl rfl rfl
  | push | count | wake | cancel | stop => exact .idle rfl rfl rfl rfl rfl fun _ _ _ => Iff.rfl

theorem not_isTimer_of_isReady {e : Entry α} (h : e.isReady = true) : e.isTimer = false := by
  cases hs : e.source with
  | ready | io => simp [Entry.isTimer, hs]
  | timer deadline => simp [Entry.isReady, hs] at h

theorem afterPlan_ne_popping (tickLast : Nat) (plan : PollPlan) (p : Polled) (tick : Nat)
    (batch : List (Entry α)) : afterPlan tickLast plan ≠ .popping p tick batch := by
  intro same
  cases plan <;> cases same

/-- A batch is swapped out of a queue that holds no timer, and I/O adds none to it. -/
theorem loopStep_timerMove {s t : EventLoop α} {a : Action α} (inv : ReadyInv s)
    (h : loopStep s a = some t) :
    TimerMove s a t := by
  cases loopStep_stepped h with
  | run hpc | post hpc | leave _ hpc | enter _ hpc | noneReady _ _ hpc | enterPoll _ _ hpc
  | pollReturns _ _ _ _ hpc
  | finish _ _ _ hpc =>
      exact .idle rfl rfl rfl rfl (by simp [EventLoop.awaiting, hpc, Pc.pending]) (by simp [hpc])
  | ready tick tickLast hpc | peek tick tickLast hpc =>
      refine .idle rfl rfl rfl rfl (by simp only [EventLoop.awaiting, hpc, pending_afterPlan]; rfl)
        ?_
      intro p tick batch
      simp [hpc, afterPlan_ne_popping]
  | swap p hpc =>
      refine .idle rfl rfl rfl rfl ?_ (by simp [hpc])
      simp only [EventLoop.awaiting, hpc, Pc.pending, List.filter_nil, List.filter_eq_nil_iff]
      intro e he
      rw [not_isTimer_of_isReady (inv.ready e he)]
      exact Bool.false_ne_true
  | uncount p batch hpc =>
      refine .idle rfl rfl rfl rfl ?_ ?_
      · simp only [EventLoop.awaiting, hpc]
        split_ifs <;> rfl
      · intro p tick batch
        split_ifs <;> simp [hpc]
  | dispatch handles signalled p batch hpc =>
      refine .idle rfl rfl rfl rfl ?_ (by simp [hpc])
      simp only [EventLoop.awaiting, hpc, Pc.pending, List.filter_append, List.append_right_eq_self,
        List.filter_eq_nil_iff]
      intro e he
      obtain ⟨h, _, rfl⟩ := List.mem_map.mp he
      exact Bool.false_ne_true
  | timers tick p batch hpc => exact .phase tick p batch rfl hpc rfl
  | popTimer index p tick batch timer hpc hearly due =>
      exact .popped index tick timer p batch rfl hpc hearly due rfl
  | timersDone p tick batch hpc none_due => exact .drained tick p batch rfl hpc none_due rfl
  | pop p e rest hpc => exact .front p e rest rfl hpc rfl
  | stepEnd p hpc =>
      obtain ⟨handled, pc, exits, result, top | outside⟩ := stepEnd_cases s p
      · rw [result]
        exact .idle rfl rfl rfl rfl (by simp [EventLoop.awaiting, hpc, top, Pc.pending])
          (by simp [hpc, top])
      · rw [result]
        exact .idle rfl rfl rfl rfl (by simp [EventLoop.awaiting, hpc, outside, Pc.pending])
          (by simp [hpc, outside])

theorem step_timerMove {s t : EventLoop α} {a : Action α} (inv : ReadyInv s)
    (h : step s a = some t) :
    TimerMove s a t := by
  rcases Option.or_eq_some_iff.mp h with hcall | ⟨_, hloop⟩
  · exact callStep_timerMove hcall
  · exact loopStep_timerMove inv hloop

/-- The laws of the timers. `punctual`: a timer is moved in a step whose tick has reached
its deadline. `ordered`: over the whole run timers are moved by deadline. `once`: each
timer pushed is either still in the heap or was moved once. `turns`: the timers moved
reach the front of a batch, or wait for it, once each and in the order they were moved.
`ran`, `executed`: a timer whose turn came runs unless it was cancelled then. -/
structure TimersLaw (s : TimedLoop α) : Prop where
  punctual : ∀ m ∈ s.moved, m.1.deadline ≤ m.2
  ordered : (s.moved.map fun m => m.1.deadline).Pairwise (· ≤ ·)
  once : (s.moved.map Prod.fst ++ s.loop.handlesSched).Perm s.added
  turns : s.loop.turned ++ s.loop.awaiting = s.moved.map fun m => m.1.entry
  ran : ∀ d ∈ s.loop.done, d.entry.isTimer → (d.ran = false ↔ d.entry.kind.cancelled d.flag = true)
  executed : s.loop.Executed

/-- Behind the order: what is still in the heap is due no earlier than anything moved,
and a timer yet to be pushed is due no earlier than the clock. -/
structure TimersInv (s : TimedLoop α) : Prop where
  ready : ReadyInv s.loop
  law : TimersLaw s
  past : ∀ m ∈ s.moved, m.2 ≤ s.clock
  above : ∀ m ∈ s.moved, ∀ t ∈ s.loop.handlesSched, m.1.deadline ≤ t.deadline
  phase : ∀ p tick batch, s.loop.pc = .popping p tick batch → tick ≤ s.clock

theorem timersInv_start (clock : Nat) : TimersInv (TimedLoop.start clock : TimedLoop α) where
  ready := readyInv_new
  law := by constructor <;> simp [TimedLoop.start, new, EventLoop.turned, EventLoop.awaiting,
      Pc.pending, EventLoop.Executed,
    EventLoop.running]
  past := by simp [TimedLoop.start]
  above := by simp [TimedLoop.start]
  phase := by simp [TimedLoop.start, new]

theorem TimedLoop.step_cases {s t : TimedLoop α} {now : Nat} {a : Action α}
    (h : s.step (now, a) = some t) : s.clock ≤ now ∧ a.reads now ∧
    ∃ loop, Loop.step s.loop a = some loop ∧
      t = ⟨loop, now, s.added ++ a.adds, s.moved ++ s.loop.pops a⟩ := by
  simp only [TimedLoop.step] at h
  split_ifs at h with guard
  obtain ⟨loop, hloop, rfl⟩ := Option.map_eq_some_iff.mp h
  exact ⟨guard.1, guard.2, loop, hloop, rfl⟩

section Steps

variable {s : TimedLoop α} {loop : EventLoop α} {now : Nat}

theorem TimersInv.idle {a : Action α} (inv : TimersInv s) (ready : ReadyInv loop)
    (executed : loop.Executed) (later : s.clock ≤ now) (adds : a.adds = [])
    (pops : s.loop.pops a = []) (heap : loop.handlesSched = s.loop.handlesSched)
    (done : loop.done = s.loop.done) (await : loop.awaiting = s.loop.awaiting)
    (phase : ∀ p tick batch, loop.pc = .popping p tick batch → tick ≤ now) :
    TimersInv ⟨loop, now, s.added ++ a.adds, s.moved ++ s.loop.pops a⟩ := by
  rw [adds, pops, List.append_nil, List.append_nil]
  obtain ⟨punctual, ordered, once, turns, ran, _⟩ := inv.law
  refine ⟨ready, ⟨punctual, ordered, ?_, ?_, ?_, executed⟩, ?_, ?_, phase⟩
  · simpa only [heap] using once
  · simpa only [EventLoop.turned, done, await] using turns
  · simpa only [done] using ran
  · intro m hm
    exact (inv.past m hm).trans later
  · simpa only [heap] using inv.above

/-- A timer pushed at `now` is due no earlier than any tick before. -/
theorem TimersInv.later {timer : Timer α} (inv : TimersInv s) (ready : ReadyInv loop)
    (executed : loop.Executed) (later : s.clock ≤ now) (due : now ≤ timer.deadline)
    (heap : loop.handlesSched = s.loop.handlesSched ++ [timer])
    (done : loop.done = s.loop.done) (hpc : loop.pc = s.loop.pc) :
    TimersInv ⟨loop, now, s.added ++ [timer], s.moved⟩ := by
  obtain ⟨punctual, ordered, once, turns, ran, _⟩ := inv.law
  refine ⟨ready, ⟨punctual, ordered, ?_, ?_, ?_, executed⟩, ?_, ?_, ?_⟩
  · simp only [heap, ← List.append_assoc]
    exact once.append_right [timer]
  · simpa only [EventLoop.turned, EventLoop.awaiting, done, hpc] using turns
  · simpa only [done] using ran
  · intro m hm
    exact (inv.past m hm).trans later
  · intro m hm t ht
    rcases List.mem_append.mp (heap ▸ ht) with old | fresh
    · exact inv.above m hm t old
    · have bound := punctual m hm
      have past := inv.past m hm
      rw [List.mem_singleton.mp fresh]
      omega
  · intro p tick batch same
    exact (inv.phase p tick batch (hpc ▸ same)).trans later

/-- The timer popped is the least of the heap, and nothing in the heap is below what was
moved before. -/
theorem TimersInv.popped {index tick : Nat} {timer : Timer α} {p : Polled} {batch : List (Entry α)}
    (inv : TimersInv s) (later : s.clock ≤ now) (hpc : s.loop.pc = .popping p tick batch)
    (hearly : earliest s.loop.handlesSched index = some timer) (due : timer.deadline ≤ tick)
    (ready : ReadyInv { s.loop with
      handlesSched := s.loop.handlesSched.eraseIdx index
      pc := .popping p tick (batch ++ [timer.entry]) })
    (executed : EventLoop.Executed { s.loop with
      handlesSched := s.loop.handlesSched.eraseIdx index
      pc := .popping p tick (batch ++ [timer.entry]) }) :
    TimersInv ⟨{ s.loop with
      handlesSched := s.loop.handlesSched.eraseIdx index
      pc := .popping p tick (batch ++ [timer.entry]) }, now, s.added,
          s.moved ++ [(timer, tick)]⟩ := by
  obtain ⟨punctual, ordered, once, turns, ran, _⟩ := inv.law
  have least := LeastFirst.least_le Timer.deadline hearly
  have moved := LeastFirst.least_perm Timer.deadline hearly
  have inside : timer ∈ s.loop.handlesSched := moved.subset (List.mem_cons_self ..)
  refine ⟨ready, ⟨?_, ?_, ?_, ?_, ran, executed⟩, ?_, ?_, ?_⟩
  · intro m hm
    rcases List.mem_append.mp hm with old | fresh
    · exact punctual m old
    · rw [List.mem_singleton.mp fresh]
      exact due
  · simp only [List.map_append, List.map_cons, List.map_nil]
    refine List.pairwise_append.mpr ⟨ordered, List.pairwise_singleton _ _, ?_⟩
    intro d hd e he
    obtain ⟨m, hm, rfl⟩ := List.mem_map.mp hd
    rw [List.mem_singleton.mp he]
    exact inv.above m hm timer inside
  · simp only [List.map_append, List.map_cons, List.map_nil, List.append_assoc,
      List.singleton_append]
    exact (moved.append_left _).trans once
  · simp only [EventLoop.turned, EventLoop.awaiting, hpc, Pc.pending] at turns ⊢
    rw [List.map_append, ← turns, List.filter_append, List.append_assoc]
    rfl
  · intro m hm
    rcases List.mem_append.mp hm with old | fresh
    · exact (inv.past m old).trans later
    · rw [List.mem_singleton.mp fresh]
      exact (inv.phase p tick batch hpc).trans later
  · intro m hm t ht
    have kept : t ∈ s.loop.handlesSched := List.mem_of_mem_eraseIdx ht
    rcases List.mem_append.mp hm with old | fresh
    · exact inv.above m old t kept
    · rw [List.mem_singleton.mp fresh]
      exact least t kept
  · intro q tick' batch' same
    cases same
    exact (inv.phase p tick batch hpc).trans later

theorem TimersInv.front {p : Polled} {e : Entry α} {rest : List (Entry α)} (inv : TimersInv s)
    (later : s.clock ≤ now) (hpc : s.loop.pc = .batch p none (e :: rest))
    (ready : ReadyInv (popFront s.loop p e rest)) (executed : (popFront s.loop p e rest).Executed) :
    TimersInv ⟨popFront s.loop p e rest, now, s.added, s.moved⟩ := by
  obtain ⟨punctual, ordered, once, turns, ran, _⟩ := inv.law
  refine ⟨ready, ⟨punctual, ordered, once, ?_, ?_, executed⟩, ?_, inv.above, ?_⟩
  · rw [← turns]
    simp only [EventLoop.turned, EventLoop.awaiting, popFront, hpc, Pc.pending, List.map_append,
      List.map_cons, List.map_nil, List.append_assoc, ← List.filter_append, List.singleton_append]
  · intro d hd
    rcases List.mem_append.mp hd with old | fresh
    · exact ran d old
    · rw [List.mem_singleton.mp fresh]
      intro _
      simp only [EventLoop.cancelled, Bool.not_eq_false']
  · intro m hm
    exact (inv.past m hm).trans later
  · intro q tick batch same
    cases same

end Steps

theorem TimersInv.step {s t : TimedLoop α} (inv : TimersInv s) {timed : Nat × Action α}
    (h : s.step timed = some t) : TimersInv t := by
  obtain ⟨now, a⟩ := timed
  obtain ⟨later, reads, loop, hloop, rfl⟩ := TimedLoop.step_cases h
  have ready := (step_move hloop).preserves inv.ready
  have executed := inv.law.executed.step hloop
  cases step_timerMove inv.ready hloop with
  | idle adds pops heap done await phase =>
      refine inv.idle ready executed later adds pops heap done await ?_
      intro p tick batch hpc
      exact (inv.phase p tick batch ((phase p tick batch).mp hpc)).trans later
  | later thread wakes timer ha heap done hpc =>
      subst ha
      simp only [EventLoop.pops, List.append_nil]
      exact inv.later ready executed later (of_decide_eq_true reads) heap done hpc
  | phase tick p batch ha hpc ht =>
      subst ha ht
      have read : tick = now := eq_of_beq reads
      refine inv.idle ready executed later rfl rfl rfl rfl
        (by simp only [EventLoop.awaiting, hpc, Pc.pending]) ?_
      intro q tick' batch' same
      cases same
      exact read.le
  | popped index tick timer p batch ha hpc hearly due ht =>
      subst ha ht
      simp only [EventLoop.pops, hpc, hearly, Action.adds, List.append_nil]
      exact inv.popped later hpc hearly due ready executed
  | drained tick p batch ha hpc none_due ht =>
      subst ha ht
      refine inv.idle ready executed later rfl rfl rfl rfl
        (by simp only [EventLoop.awaiting, hpc, Pc.pending]) ?_
      intro q tick' batch' same
      cases same
  | front p e rest ha hpc ht =>
      subst ha ht
      simp only [EventLoop.pops, Action.adds, List.append_nil]
      exact inv.front later hpc ready executed

theorem timersDone_enabled {s : EventLoop α} {p : Polled} {tick : Nat} {batch : List (Entry α)}
    (hpc : s.pc = .popping p tick batch)
    (none_due : ∀ timer ∈ s.handlesSched, tick < timer.deadline) :
    step s .timersDone = some { s with pc := .batch p none batch } := by
  have all : s.handlesSched.all (fun t => decide (tick < t.deadline)) = true := by
    simpa using none_due
  simp only [step, callStep, loopStep, hpc, all, Option.none_or, if_true]

/-- The loop over the heap ends: it pops while the head is due. -/
theorem timer_phase_ends {p : Polled}
    {tick : Nat} : ∀ (left : Nat) (s : EventLoop α) (batch : List (Entry α)),
    s.handlesSched.length = left → s.pc = .popping p tick batch →
      ∃ pops t, Runs.run step s (List.map Action.popTimer pops ++ [.timersDone]) = some t := by
  intro left
  induction left with
  | zero =>
      intro s batch hlen hpc
      have none_due : ∀ timer ∈ s.handlesSched, tick < timer.deadline := by
        rw [List.length_eq_zero_iff.mp hlen]
        simp
      exact ⟨[], _, Runs.run_cons_iff.mpr ⟨_, timersDone_enabled hpc none_due, rfl⟩⟩
  | succ left ih =>
      intro s batch hlen hpc
      have some_left : s.handlesSched ≠ [] := List.ne_nil_of_length_eq_add_one hlen
      obtain ⟨index, timer, hearly⟩ : ∃ index timer, earliest s.handlesSched index = some timer :=
        LeastFirst.exists_least Timer.deadline some_left
      have inside : index < s.handlesSched.length :=
        (List.getElem?_eq_some_iff.mp (Option.filter_eq_some_iff.mp hearly).1).1
      by_cases due : timer.deadline ≤ tick
      · obtain ⟨pops, t, rest⟩ := ih
          { s with
            handlesSched := s.handlesSched.eraseIdx index
            pc := .popping p tick (batch ++ [timer.entry]) }
          (batch ++ [timer.entry]) (by simp [List.length_eraseIdx_of_lt inside, hlen]) rfl
        refine ⟨index :: pops, t, Runs.run_cons_iff.mpr ⟨_, ?_, rest⟩⟩
        simp [step, callStep, loopStep, hpc, hearly, due, Timer.entry]
      · have none_due : ∀ timer ∈ s.handlesSched, tick < timer.deadline := by
          intro u hu
          have least := LeastFirst.least_le Timer.deadline hearly u hu
          omega
        exact ⟨[], _, Runs.run_cons_iff.mpr ⟨_, timersDone_enabled hpc none_due, rfl⟩⟩

/-- Only the exhaustion of the due timers leads out of the timer phase. -/
theorem timer_phase_exhaustive {s t : EventLoop α} {a : Action α} {p : Polled} {tick : Nat}
    {batch : List (Entry α)} (inv : ReadyInv s) (hpc : s.pc = .popping p tick batch)
    (h : step s a = some t) (out : t.schedLocked = false) :
    ∀ timer ∈ t.handlesSched, tick < timer.deadline := by
  cases step_timerMove inv h with
  | idle _ _ _ _ _ phase =>
      have inside := (phase p tick batch).mpr hpc
      simp [EventLoop.schedLocked, inside] at out
  | later _ _ _ _ _ _ same =>
      rw [← same] at hpc
      simp [EventLoop.schedLocked, hpc] at out
  | phase _ _ _ _ hpc' =>
      cases hpc.symm.trans hpc'
  | popped _ _ _ _ _ _ _ _ _ ht =>
      subst ht
      cases out
  | drained _ _ _ _ hpc' none_due ht =>
      cases hpc.symm.trans hpc'
      subst ht
      exact none_due
  | front _ _ _ _ hpc' =>
      cases hpc.symm.trans hpc'

/-- In every run with a monotone clock the timers obey their laws, a step that leaves the
timer phase leaves no due timer in the heap, and a timer phase always gets there. -/
theorem timers_obey (clock : Nat) (actions : List (Nat × Action α)) (s : TimedLoop α)
    (h : Runs.run TimedLoop.step (TimedLoop.start clock) actions = some s) :
    TimersLaw s ∧ ∀ p tick batch, s.loop.pc = .popping p tick batch →
      (∀ timed t, s.step timed = some t → t.loop.schedLocked = false →
        ∀ timer ∈ t.loop.handlesSched, tick < timer.deadline) ∧
      ∃ pops t, Runs.run step s.loop (List.map Action.popTimer pops ++ [.timersDone]) = some t := by
  have inv : TimersInv s := Runs.run_invariant (fun _ _ _ inv hstep => inv.step hstep) h
    (timersInv_start clock)
  refine ⟨inv.law, ?_⟩
  intro p tick batch hpc
  constructor
  · rintro ⟨now, a⟩ t hstep out
    obtain ⟨_, _, loop, hloop, rfl⟩ := TimedLoop.step_cases hstep
    exact timer_phase_exhaustive inv.ready hpc hloop out
  · exact timer_phase_ends _ s.loop batch rfl hpc

/-- The later deadline is scheduled first and cancelled before its turn. -/
def cancelledTimer : List (Nat × Action Unit) :=
  [(0, .later 0 false ⟨30, some 0, .cb, ()⟩), (0, .later 0 false ⟨10, some 1, .cb, ()⟩), (1, .run),
      (1, .top),
    (1, .load 1), (2, .peek 2), (2, .enterPoll), (40, .pollReturns .ok 40), (40, .swap),
    (40, .uncount), (40, .dispatch [] false), (41, .timers 41), (41, .popTimer 1),
    (41, .popTimer 0), (41, .timersDone), (42, .pop), (42, .cancel 0), (43, .finish), (43, .pop),
    (43, .stepEnd)]

theorem timers_obey_cancelled :
    ∃ s : TimedLoop Unit, Runs.run TimedLoop.step (TimedLoop.start 0) cancelledTimer = some s ∧
      s.moved.map (fun m => m.1.deadline) = [10, 30] ∧ s.loop.done.map Done.ran = [true, false] ∧
      TimersLaw s := by
  refine ⟨_, rfl, rfl, rfl, ?_⟩
  exact (timers_obey 0 cancelledTimer _ rfl).1

end TokioLoop.Loop
