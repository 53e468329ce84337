import TokioLoop.LoopMachine

/-! The ready queue over whole runs: what was pushed, what was processed and what is
still held, for every interleaving of pushes, cancellations, stops and `_run` calls. -/
namespace TokioLoop.Loop

variable {α : Type}

def Entry.isReady (e : Entry α) : Bool :=
  match e.source with
  | .ready _ _ => true
  | _ => false

/-- The handles of the current batch that have not reached its front. -/
def Pc.pending : Pc α → List (Entry α)
  | .swapped _ handles | .dispatch _ handles | .timers _ handles | .popping _ _ handles => handles
  | .batch _ _ rest => rest
  | _ => []

/-- Handles taken from `handles_ready` that have reached the front, in that order. -/
def EventLoop.taken (s : EventLoop α) : List (Entry α) :=
  (s.done.map Done.entry).filter Entry.isReady

/-- Handles taken from `handles_ready` that wait in the current batch. -/
def EventLoop.waiting (s : EventLoop α) : List (Entry α) := s.pc.pending.filter Entry.isReady

/-- The handle whose `run` the loop thread is in. -/
def EventLoop.running (s : EventLoop α) : Option (Entry α) :=
  match s.pc with
  | .batch _ running _ => running
  | _ => none

/-- The handles recorded as not passed over are those whose `run` was called, in that
order: it has returned from all but the last. -/
def EventLoop.Executed (s : EventLoop α) : Prop :=
  (s.done.filter Done.ran).map Done.entry = s.finished ++ s.running.toList

/-- Exactly-once FIFO. `order` says that nothing pushed is lost, repeated or overtaken,
`once` that the pushes are distinct, `skipped` that a handle is passed over exactly
when its flag is set on reaching the front, `executed` that all others run, and `later`,
`current` that a handle belongs to a batch swapped out after its push. -/
structure ReadyLaw (s : EventLoop α) : Prop where
  order : s.taken ++ s.waiting ++ s.handlesReady = s.pushes
  once : s.pushes.Nodup
  skipped : ∀ d ∈ s.done, d.entry.isReady → (d.ran = false ↔ d.flag = true)
  executed : s.Executed
  later : ∀ d ∈ s.done, ∀ seq pushedAt, d.entry.source = .ready seq pushedAt → pushedAt < d.batch
  current : ∀ e ∈ s.waiting, ∀ seq pushedAt, e.source = .ready seq pushedAt → pushedAt < s.swaps

/-- Everything a step can do to the ready queue. -/
inductive ReadyMove (s t : EventLoop α) : Prop where
  | idle : t.handlesReady = s.handlesReady → t.pushes = s.pushes → t.done = s.done →
      t.swaps = s.swaps → t.waiting = s.waiting → ReadyMove s t
  | push (how : Scheduling) (callback : α) :
      t.handlesReady = s.handlesReady ++ [how.entry callback s] →
      t.pushes = s.pushes ++ [how.entry callback s] → t.done = s.done → t.swaps = s.swaps →
      t.waiting = s.waiting → ReadyMove s t
  | swap : s.waiting = [] → t.handlesReady = [] → t.pushes = s.pushes → t.done = s.done →
      t.swaps = s.swaps + 1 → t.waiting = s.handlesReady.filter Entry.isReady → ReadyMove s t
  | front (e : Entry α) (rest : List (Entry α)) : s.pc.pending = e :: rest → t.pc.pending = rest →
      t.handlesReady = s.handlesReady → t.pushes = s.pushes → t.swaps = s.swaps →
      t.done = s.done ++ [⟨e, s.flag e.obj, !s.cancelled e, s.swaps⟩] → ReadyMove s t

@[simp] theorem running_afterPlan (s : EventLoop α) (tickLast : Nat) (plan : PollPlan) :
    EventLoop.running { s with pc := afterPlan tickLast plan } = none := by
  cases plan <;> rfl

theorem EventLoop.Executed.of_same {s t : EventLoop α} (executed : s.Executed)
    (hdone : t.done = s.done) (hfinished : t.finished = s.finished)
    (hrunning : t.running = s.running) : t.Executed := by
  rw [EventLoop.Executed, hdone, hfinished, hrunning]
  exact executed

/-- A handle that runs is recorded and becomes the running one in the same step. -/
theorem EventLoop.Executed.popFront {s : EventLoop α} (executed : s.Executed) {p : Polled}
    {e : Entry α} {rest : List (Entry α)} (hpc : s.pc = .batch p none (e :: rest)) :
    (popFront s p e rest).Executed := by
  have before : (s.done.filter Done.ran).map Done.entry = s.finished := by
    have all : s.running = none := by simp only [EventLoop.running, hpc]
    simpa only [EventLoop.Executed, all, Option.toList_none, List.append_nil] using executed
  simp only [EventLoop.Executed, EventLoop.running, Loop.popFront, List.filter_append,
    List.map_append, before]
  cases hcancelled : s.cancelled e with
  | true => simp
  | false => simp

theorem EventLoop.Executed.finish {s : EventLoop α} (executed : s.Executed) {p : Polled}
    {e : Entry α} {rest : List (Entry α)} (hpc : s.pc = .batch p (some e) rest) :
    EventLoop.Executed { s with finished := s.finished ++ [e], pc := .batch p none rest } := by
  have running : s.running = some e := by simp only [EventLoop.running, hpc]
  rw [EventLoop.Executed, running, Option.toList_some] at executed
  simpa only [EventLoop.Executed, EventLoop.running, Option.toList_none, List.append_nil]
    using executed

theorem callStep_executed {s t : EventLoop α} {a : Action α} (executed : s.Executed)
    (h : callStep s a = some t) : t.Executed := by
  cases callStep_stepped h with
  | push | count | wake | later | cancel | stop => exact executed.of_same rfl rfl rfl

theorem loopStep_executed {s t : EventLoop α} {a : Action α} (executed : s.Executed)
    (h : loopStep s a = some t) : t.Executed := by
  cases loopStep_stepped h with
  | run hpc | post hpc | leave _ hpc | enter _ hpc | noneReady _ _ hpc | enterPoll _ _ hpc
  | pollReturns _ _ _ _ hpc
  | swap _ hpc | dispatch _ _ _ _ hpc | timers _ _ _ hpc | popTimer _ _ _ _ _ hpc
  | timersDone _ _ _ hpc =>
      exact executed.of_same rfl rfl (by simp only [EventLoop.running, hpc])
  | ready tick tickLast hpc | peek tick tickLast hpc =>
      refine executed.of_same rfl rfl ?_
      simp only [running_afterPlan]
      simp only [EventLoop.running, hpc]
  | uncount p batch hpc =>
      refine executed.of_same rfl rfl ?_
      simp only [EventLoop.running, hpc]
      split_ifs <;> rfl
  | pop p e rest hpc => exact executed.popFront hpc
  | finish p e rest hpc => exact executed.finish hpc
  | stepEnd p hpc =>
      obtain ⟨handled, pc, exits, result, top | outside⟩ := stepEnd_cases s p
      · rw [result]
        exact executed.of_same rfl rfl (by simp only [EventLoop.running, hpc, top])
      · rw [result]
        exact executed.of_same rfl rfl (by simp only [EventLoop.running, hpc, outside])

theorem EventLoop.Executed.step {s t : EventLoop α} {a : Action α} (executed : s.Executed)
    (h : step s a = some t) : t.Executed := by
  rcases Option.or_eq_some_iff.mp h with hcall | ⟨_, hloop⟩
  · exact callStep_executed executed hcall
  · exact loopStep_executed executed hloop

theorem callStep_move {s t : EventLoop α} {a : Action α} (h : callStep s a = some t) :
    ReadyMove s t := by
  cases callStep_stepped h with
  | push thread how callback => exact .push how callback rfl rfl rfl rfl rfl
  | count | wake | later | cancel | stop => exact .idle rfl rfl rfl rfl rfl

@[simp] theorem pending_afterPlan (tickLast : Nat) (plan : PollPlan) :
    (afterPlan tickLast plan : Pc α).pending = [] := by
  cases plan <;> rfl

theorem filter_append_io (batch handles : List (Entry α)) :
    (batch ++ handles.map fun h : Entry α => { h with source := .io }).filter Entry.isReady =
      batch.filter Entry.isReady := by
  have none : (handles.map fun h : Entry α => { h with source := .io }).filter
      Entry.isReady = [] := by
    rw [List.filter_eq_nil_iff]
    intro e he
    obtain ⟨h, _, rfl⟩ := List.mem_map.mp he
    simp [Entry.isReady]
  rw [List.filter_append, none, List.append_nil]

theorem loopStep_move {s t : EventLoop α} {a : Action α} (h : loopStep s a = some t) :
    ReadyMove s t := by
  cases loopStep_stepped h with
  | run hpc | post hpc | leave _ hpc | enter _ hpc | noneReady _ _ hpc | enterPoll _ _ hpc
  | pollReturns _ _ _ _ hpc
  | timers _ _ _ hpc | timersDone _ _ _ hpc | finish _ _ _ hpc =>
      exact .idle rfl rfl rfl rfl (by simp [EventLoop.waiting, hpc, Pc.pending])
  | ready tick tickLast hpc | peek tick tickLast hpc =>
      exact .idle rfl rfl rfl rfl (by simp only [EventLoop.waiting, hpc, pending_afterPlan]; rfl)
  | swap p hpc => exact .swap (by simp [EventLoop.waiting, hpc, Pc.pending]) rfl rfl rfl rfl rfl
  | uncount p batch hpc =>
      refine .idle rfl rfl rfl rfl ?_
      simp only [EventLoop.waiting, hpc]
      split_ifs <;> rfl
  | dispatch handles signalled p batch hpc =>
      refine .idle rfl rfl rfl rfl ?_
      simp only [EventLoop.waiting, hpc, Pc.pending]
      exact filter_append_io _ _
  | popTimer index p tick batch t hpc =>
      refine .idle rfl rfl rfl rfl ?_
      simp [EventLoop.waiting, hpc, Pc.pending, Entry.isReady]
  | pop p e rest hpc => exact .front e rest (by rw [hpc]; rfl) rfl rfl rfl rfl rfl
  | stepEnd p hpc =>
      obtain ⟨handled, pc, exits, result, top | outside⟩ := stepEnd_cases s p
      · rw [result]
        exact .idle rfl rfl rfl rfl (by simp [EventLoop.waiting, hpc, top, Pc.pending])
      · rw [result]
        exact .idle rfl rfl rfl rfl (by simp [EventLoop.waiting, hpc, outside, Pc.pending])

theorem step_move {s t : EventLoop α} {a : Action α} (h : step s a = some t) : ReadyMove s t := by
  rcases Option.or_eq_some_iff.mp h with hcall | ⟨_, hloop⟩
  · exact callStep_move hcall
  · exact loopStep_move hloop

/-- The invariant behind `ReadyLaw`: its order, the numbering of the pushes, and that a
handle without a settable flag is the only one whose flag could go unheeded. -/
structure ReadyInv (s : EventLoop α) : Prop where
  order : s.taken ++ s.waiting ++ s.handlesReady = s.pushes
  numbered : ∀ (i : Nat) (e : Entry α), s.pushes[i]? = some e → ∃ pushedAt,
      e.source = .ready i pushedAt
  ready : ∀ e ∈ s.handlesReady, e.isReady = true
  heeded : ∀ e ∈ s.pushes, e.kind = .cbOneArg → e.obj = none
  skipped : ∀ d ∈ s.done, d.entry.isReady → (d.ran = false ↔ d.flag = true)
  later : ∀ d ∈ s.done, ∀ seq pushedAt, d.entry.source = .ready seq pushedAt → pushedAt < d.batch
  current : ∀ e ∈ s.waiting, ∀ seq pushedAt, e.source = .ready seq pushedAt → pushedAt < s.swaps
  queued : ∀ e ∈ s.handlesReady, ∀ seq pushedAt, e.source = .ready seq pushedAt → pushedAt ≤ s.swaps

theorem readyInv_new : ReadyInv (new : EventLoop α) := by
  constructor <;> simp [new, EventLoop.taken, EventLoop.waiting, Pc.pending]

theorem Scheduling.heeded (how : Scheduling) (callback : α) (s : EventLoop α)
    (one : (how.entry callback s).kind = .cbOneArg) : (how.entry callback s).obj = none := by
  cases how with
  | scheduleHandle obj own => cases own <;> cases one
  | callSoon | callSoonThreadsafe => cases one
  | schedule0 | schedule1 | schedule => rfl

theorem cancelled_eq_flag {s : EventLoop α} {e : Entry α} (h : e.kind = .cbOneArg → e.obj = none) :
    s.cancelled e = s.flag e.obj := by
  cases hk : e.kind with
  | cbOneArg => simp [EventLoop.cancelled, HandleKind.cancelled, EventLoop.flag, hk, h hk]
  | cb | cbNoArgs | own => simp [EventLoop.cancelled, HandleKind.cancelled, hk]

theorem ReadyInv.push {s t : EventLoop α} (inv : ReadyInv s) (how : Scheduling) (callback : α)
    (hready : t.handlesReady = s.handlesReady ++ [how.entry callback s])
    (hpushes : t.pushes = s.pushes ++ [how.entry callback s]) (hdone : t.done = s.done)
    (hswaps : t.swaps = s.swaps) (hwait : t.waiting = s.waiting) : ReadyInv t where
  order := by
    rw [EventLoop.taken, hdone, hwait, hready, hpushes, ← inv.order]
    simp only [EventLoop.taken, List.append_assoc]
  numbered i e he := by
    rw [hpushes, List.getElem?_append] at he
    split_ifs at he with inside
    · exact inv.numbered i e he
    · obtain ⟨hi, rfl⟩ := List.getElem?_eq_some_iff.mp he
      have last : i = s.pushes.length := by simp at hi; omega
      subst last
      exact ⟨s.swaps, by simp [Scheduling.entry]⟩
  ready e he := by
    rw [hready, List.mem_append] at he
    rcases he with old | fresh
    · exact inv.ready e old
    · rw [List.mem_singleton.mp fresh]; rfl
  heeded e he := by
    rw [hpushes, List.mem_append] at he
    rcases he with old | fresh
    · exact inv.heeded e old
    · rw [List.mem_singleton.mp fresh]; exact how.heeded callback s
  skipped := hdone ▸ inv.skipped
  later := hdone ▸ inv.later
  current := by rw [hwait, hswaps]; exact inv.current
  queued e he := by
    rw [hready, List.mem_append] at he
    rcases he with old | fresh
    · exact hswaps ▸ inv.queued e old
    · rw [List.mem_singleton.mp fresh, hswaps]
      rintro seq pushedAt same
      cases same
      exact le_rfl

theorem ReadyInv.swap {s t : EventLoop α} (inv : ReadyInv s) (hnone : s.waiting = [])
    (hready : t.handlesReady = []) (hpushes : t.pushes = s.pushes) (hdone : t.done = s.done)
    (hswaps : t.swaps = s.swaps + 1) (hwait : t.waiting = s.handlesReady.filter Entry.isReady) :
    ReadyInv t := by
  have whole : s.handlesReady.filter Entry.isReady = s.handlesReady :=
    List.filter_eq_self.mpr inv.ready
  rw [whole] at hwait
  refine ⟨?_, hpushes ▸ inv.numbered, ?_, hpushes ▸ inv.heeded, hdone ▸ inv.skipped,
    hdone ▸ inv.later, ?_, ?_⟩
  · rw [EventLoop.taken, hdone, hwait, hready, hpushes, ← inv.order, hnone]
    simp [EventLoop.taken]
  · simp [hready]
  · intro e he seq pushedAt same
    have bound := inv.queued e (hwait ▸ he) seq pushedAt same
    omega
  · simp [hready]

theorem ReadyInv.front {s t : EventLoop α} (inv : ReadyInv s) {e : Entry α} {rest : List (Entry α)}
    (hs : s.pc.pending = e :: rest) (ht : t.pc.pending = rest)
    (hready : t.handlesReady = s.handlesReady) (hpushes : t.pushes = s.pushes)
    (hswaps : t.swaps = s.swaps) (hdone :
      t.done = s.done ++ [⟨e, s.flag e.obj, !s.cancelled e, s.swaps⟩]) : ReadyInv t := by
  have hwait : s.waiting = [e].filter Entry.isReady ++ t.waiting := by
    simp only [EventLoop.waiting, hs, ht, ← List.filter_append, List.singleton_append]
  have htaken : t.taken = s.taken ++ [e].filter Entry.isReady := by
    simp only [EventLoop.taken, hdone, List.map_append, List.filter_append, List.map_cons,
      List.map_nil]
  have mem : e.isReady = true → e ∈ s.waiting := fun he => by simp [hwait, he]
  refine ⟨?_, hpushes ▸ inv.numbered, hready ▸ inv.ready, hpushes ▸ inv.heeded, ?_, ?_, ?_, ?_⟩
  · rw [htaken, hready, hpushes, ← inv.order, hwait]
    simp only [List.append_assoc]
  · rw [hdone]
    intro d hd
    rcases List.mem_append.mp hd with old | fresh
    · exact inv.skipped d old
    · rw [List.mem_singleton.mp fresh]
      intro he
      have pushed : e ∈ s.pushes := by
        rw [← inv.order]
        exact List.mem_append_left _ (List.mem_append_right _ (mem he))
      simp only [cancelled_eq_flag (inv.heeded e pushed), Bool.not_eq_false']
  · rw [hdone]
    intro d hd
    rcases List.mem_append.mp hd with old | fresh
    · exact inv.later d old
    · rw [List.mem_singleton.mp fresh]
      intro seq pushedAt same
      exact inv.current e (mem (by simp only [Entry.isReady]; rw [same])) seq pushedAt same
  · intro x hx
    rw [hswaps]
    exact inv.current x (by rw [hwait]; exact List.mem_append_right _ hx)
  · rw [hready, hswaps]; exact inv.queued

theorem ReadyMove.preserves {s t : EventLoop α} (m : ReadyMove s t) (inv : ReadyInv s) :
    ReadyInv t := by
  cases m with
  | idle hready hpushes hdone hswaps hwait =>
      refine ⟨?_, ?_, ?_, ?_, ?_, ?_, ?_, ?_⟩
      · rw [EventLoop.taken, hdone, hwait, hready, hpushes]; exact inv.order
      · rw [hpushes]; exact inv.numbered
      · rw [hready]; exact inv.ready
      · rw [hpushes]; exact inv.heeded
      · rw [hdone]; exact inv.skipped
      · rw [hdone]; exact inv.later
      · rw [hwait, hswaps]; exact inv.current
      · rw [hready, hswaps]; exact inv.queued
  | push how callback hready hpushes hdone hswaps hwait =>
      exact inv.push how callback hready hpushes hdone hswaps hwait
  | swap hnone hready hpushes hdone hswaps hwait =>
      exact inv.swap hnone hready hpushes hdone hswaps hwait
  | front e rest hs ht hready hpushes hswaps hdone =>
      exact inv.front hs ht hready hpushes hswaps hdone

theorem ReadyInv.nodup {s : EventLoop α} (inv : ReadyInv s) : s.pushes.Nodup := by
  rw [List.nodup_iff_getElem?_ne_getElem?]
  intro i j hij hj same
  obtain ⟨e, he⟩ : ∃ e, s.pushes[j]? = some e := ⟨_, List.getElem?_eq_getElem hj⟩
  obtain ⟨pushedAt, hi⟩ := inv.numbered i e (same.trans he)
  obtain ⟨pushedAt', hj'⟩ := inv.numbered j e he
  cases hi.symm.trans hj'
  exact absurd hij (lt_irrefl _)

/-- The ready queue is exactly-once FIFO in every state of every run. -/
theorem ready_fifo (actions : List (Action α)) (s : EventLoop α)
    (h : Runs.run step new actions = some s) : ReadyLaw s := by
  have inv : ReadyInv s := Runs.run_invariant
    (fun _ _ _ inv hstep => (step_move hstep).preserves inv) h readyInv_new
  have executed : s.Executed := Runs.run_invariant (fun _ _ _ executed hstep =>
    executed.step hstep) h rfl
  exact ⟨inv.order, inv.nodup, inv.skipped, executed, inv.later, inv.current⟩

/-- Two handles pushed before the run; the first cancels the second and pushes a third. -/
def cancelSecond : List (Action Unit) :=
  [.push 0 (.callSoon 0) (), .count 0, .push 0 (.callSoon 1) (), .count 0, .run, .top, .load 1000,
    .enterPoll, .pollReturns .error 1000, .swap, .uncount, .dispatch [] false, .timers 1000,
    .timersDone, .pop, .cancel 1, .push 0 (.callSoon 2) (), .finish, .pop, .stepEnd]

theorem ready_fifo_cancelled_second :
    ∃ s : EventLoop Unit, Runs.run step new cancelSecond = some s ∧
      s.done.map Done.ran = [true, false] ∧ s.handlesReady.length = 1 ∧ ReadyLaw s := by
  refine ⟨_, rfl, rfl, rfl, ?_⟩
  exact ready_fifo cancelSecond _ rfl

end TokioLoop.Loop
