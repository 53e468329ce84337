import Mathlib.Data.List.Perm.Basic
import TokioLoop.TokioScheduler
import TokioLoop.Lib.LeastFirst

/-! Where a scheduled handle is, over whole runs with any number of stops and
restarts: `account` never changes except by a send. -/
namespace TokioLoop.Scheduler

/-- Every place a sent handle can be in. -/
def TEventLoop.account (s : TEventLoop) : List Nat := s.held ++ s.executed ++ s.skipped ++ s.left

/-- What the task of `_run` may change. -/
structure RunFrame (s t : TEventLoop) : Prop where
  account : t.account.Perm s.account
  sent : t.sent = s.sent
  calls : t.calls = s.calls
  returned : t.returned = s.returned
  created : t.created = s.created
  cancelled : t.cancelled = s.cancelled
  skipped : ∀ h ∈ t.skipped, h ∈ s.skipped ∨ s.cancelled h = true

theorem goto_frame {s : TEventLoop} {r : Run} (hrun : s.run = some r)
    (pc : Pc) : RunFrame s (s.goto r pc) where
  account := by
    simp only [TEventLoop.account, TEventLoop.held, TEventLoop.localHandles, TEventLoop.goto, hrun]
    exact .refl _
  sent := rfl
  calls := rfl
  returned := rfl
  created := rfl
  cancelled := rfl
  skipped _ h := .inl h

theorem endRun_frame {s : TEventLoop} {r : Run} (hrun : s.run = some r) :
    RunFrame s (s.endRun r) where
  account := by
    simp only [TEventLoop.account, TEventLoop.held, TEventLoop.localHandles,
      TEventLoop.endRun, hrun, Option.map_some, Option.map_none, Option.getD_some, Option.getD_none]
    apply List.perm_iff_count.mpr
    intro h
    simp only [List.count_append, List.count_nil]
    omega
  sent := rfl
  calls := rfl
  returned := rfl
  created := rfl
  cancelled := rfl
  skipped _ h := .inl h

theorem RunFrame.stop {s t : TEventLoop} (frame : RunFrame { s with stopping := true } t) :
    RunFrame s t :=
  ⟨frame.account, frame.sent, frame.calls, frame.returned, frame.created, frame.cancelled,
    frame.skipped⟩

/-- Within one `_run` the account is kept by keeping the number of times each handle is in it. -/
theorem account_perm {s t : TEventLoop} {r r' : Run} (run : s.run = some r) (run' : t.run = some r')
    (left : t.left = s.left) (same : ∀ x,
      (t.scheduler.map ScheduledTask.handle).count x + r'.handles.count x + t.executed.count
      x + t.skipped.count x = (s.scheduler.map ScheduledTask.handle).count x + r.handles.count
      x + s.executed.count x + s.skipped.count x) :
    t.account.Perm s.account := by
  simp only [TEventLoop.account, TEventLoop.held, TEventLoop.localHandles, run, run', left,
    Option.map_some, Option.getD_some]
  apply List.perm_iff_count.mpr
  intro x
  simp only [List.count_append, same x]

theorem earliest_count {heap : List TokioTimer} {index : Nat} {timer : TokioTimer}
    (least : earliest heap index = some timer) (x : Nat) :
    (heap.map TokioTimer.handle).count x =
      ((heap.eraseIdx index).map TokioTimer.handle).count x + if timer.handle == x then 1
      else 0 := by
  have moved := ((LeastFirst.least_perm TokioTimer.when least).map TokioTimer.handle).count_eq x
  rw [← moved, List.map_cons, List.count_cons]

theorem runStep_frame {s t : TEventLoop} {a : Action} (h : runStep s a = some t) :
    RunFrame s t := by
  have skips {handle x : Nat} (off : s.cancelled handle = true) (hx : x ∈ s.skipped ++ [handle]) :
      x ∈ s.skipped ∨ s.cancelled x = true := by
    rcases List.mem_append.mp hx with old | fresh
    · exact .inl old
    · exact .inr (List.mem_singleton.mp fresh ▸ off)
  cases runStep_stepped h with
  | run idle =>
      refine ⟨?_, rfl, rfl, rfl, rfl, rfl, fun _ h => .inl h⟩
      simp only [TEventLoop.account, TEventLoop.held, TEventLoop.localHandles, idle]
      exact .refl _
  | immediate r handle rest run pc head | delayed r timer rest run pc head =>
      refine ⟨account_perm run rfl rfl fun x => ?_, rfl, rfl, rfl, rfl, rfl, fun _ h => .inl h⟩
      simp only [head, Run.handles, List.map_cons, List.map_append, List.map_nil,
        ScheduledTask.handle, List.count_append, List.count_cons, List.count_nil]
      omega
  | skip r handle rest run pc head off =>
      refine ⟨account_perm run rfl rfl fun x => ?_, rfl, rfl, rfl, rfl, rfl, fun _ => skips off⟩
      simp only [head, Run.handles, List.count_append, List.count_cons, List.count_nil]
      omega
  | execute r handle rest run pc head =>
      refine ⟨account_perm run rfl rfl fun x => ?_, rfl, rfl, rfl, rfl, rfl, fun _ h => .inl h⟩
      simp only [head, Run.handles, List.count_append, List.count_cons, List.count_nil]
      omega
  | discard r index currentTime timer run pc least due off =>
      refine ⟨account_perm run rfl rfl fun x => ?_, rfl, rfl, rfl, rfl, rfl, fun _ => skips off⟩
      simp only [Run.handles, earliest_count least, List.count_append, List.count_cons,
        List.count_nil]
      omega
  | expire r index currentTime timer run pc least =>
      refine ⟨account_perm run rfl rfl fun x => ?_, rfl, rfl, rfl, rfl, rfl, fun _ h => .inl h⟩
      simp only [Run.handles, earliest_count least, List.count_append, List.count_cons,
        List.count_nil]
      omega
  | caught r num run =>
      split_ifs
      · exact (goto_frame (s := { s with stopping := true }) run _).stop
      · exact goto_frame run _
  | uncaught r num run =>
      split_ifs
      · exact (endRun_frame (s := { s with stopping := true }) run).stop
      · exact endRun_frame run
  | early _ _ _ _ run | due _ _ _ _ run | sleep _ run | expired _ _ run | finish _ _ run
  | goesOn _ run =>
      exact goto_frame run _
  | crash _ _ run | stops _ run => exact endRun_frame run

/-- The books of a loop. `pending` and `apart` keep the handle of a call in progress
distinct from every other one. -/
structure Books (s : TEventLoop) : Prop where
  account : s.account.Perm s.sent
  once : s.sent.Nodup
  below : ∀ h ∈ s.sent, h < s.created
  returned : ∀ r ∈ s.returned, r.handle < s.created ∧ (r.passed = true ↔ r.handle ∈ s.sent)
  pending : ∀ thread c, s.calls thread = some c →
    c.handle < s.created ∧ c.handle ∉ s.sent ∧ ∀ r ∈ s.returned, r.handle ≠ c.handle
  apart : ∀ t u c d, s.calls t = some c → s.calls u = some d → t ≠ u → c.handle ≠ d.handle
  skipped : ∀ h ∈ s.skipped, s.cancelled h = true

theorem books_new : Books new := by
  constructor <;> simp [new, TEventLoop.account, TEventLoop.held, TEventLoop.localHandles]

theorem RunFrame.books {s t : TEventLoop} (frame : RunFrame s t) (books : Books s) : Books t := by
  refine ⟨?_, ?_, ?_, ?_, ?_, ?_, ?_⟩
  · exact frame.account.trans (frame.sent ▸ books.account)
  · rw [frame.sent]; exact books.once
  · rw [frame.sent, frame.created]; exact books.below
  · rw [frame.sent, frame.created, frame.returned]; exact books.returned
  · rw [frame.sent, frame.created, frame.returned, frame.calls]; exact books.pending
  · rw [frame.calls]; exact books.apart
  · intro h hh
    rw [frame.cancelled]
    rcases frame.skipped h hh with old | fresh
    · exact books.skipped h old
    · exact fresh

/-- A new call takes the next number. -/
theorem Books.call {s : TEventLoop} (books : Books s) (thread : Nat) (delay : Option Nat) :
    Books { s with
      calls := Function.update s.calls thread (some ⟨s.created, delay, .entered⟩)
      created := s.created + 1 } := by
  have old : ∀ u d, Function.update s.calls thread (some ⟨s.created, delay, .entered⟩) u = some d →
      u = thread ∧ d.handle = s.created ∨ u ≠ thread ∧ s.calls u = some d := by
    intro u d hd
    by_cases same : u = thread
    · subst same
      rw [Function.update_self] at hd
      cases hd
      exact .inl ⟨rfl, rfl⟩
    · rw [Function.update_of_ne same] at hd
      exact .inr ⟨same, hd⟩
  refine ⟨books.account, books.once, ?_, ?_, ?_, ?_, books.skipped⟩
  · intro h hh
    exact Nat.lt_succ_of_lt (books.below h hh)
  · intro r hr
    exact ⟨Nat.lt_succ_of_lt (books.returned r hr).1, (books.returned r hr).2⟩
  · intro u d hd
    rcases old u d hd with ⟨_, fresh⟩ | ⟨_, hd⟩
    · rw [fresh]
      exact ⟨Nat.lt_succ_self _, fun hh => absurd (books.below _ hh) (Nat.lt_irrefl _),
        fun r hr => Nat.ne_of_lt (books.returned r hr).1⟩
    · obtain ⟨hlt, hsent, hret⟩ := books.pending u d hd
      exact ⟨Nat.lt_succ_of_lt hlt, hsent, hret⟩
  · intro t u c d hc hd hne
    rcases old t c hc with ⟨ht, freshc⟩ | ⟨_, oldc⟩ <;> rcases old u d hd with
      ⟨hu, freshd⟩ | ⟨_, oldd⟩
    · exact absurd (ht.trans hu.symm) hne
    · rw [freshc]
      exact (Nat.ne_of_lt (books.pending u d oldd).1).symm
    · rw [freshd]
      exact Nat.ne_of_lt (books.pending t c oldc).1
    · exact books.apart t u c d oldc oldd hne

/-- A call that goes on keeps its handle. -/
theorem Books.goOn {s : TEventLoop} (books : Books s) {thread : Nat} {c d : Call}
    (hc : s.calls thread = some c) (same : d.handle = c.handle) : Books
    { s with calls := Function.update s.calls thread (some d) } := by
  have old : ∀ u e, Function.update s.calls thread (some d) u = some e →
      ∃ e', s.calls u = some e' ∧ e'.handle = e.handle := by
    intro u e he
    by_cases hu : u = thread
    · subst hu
      rw [Function.update_self] at he
      cases he
      exact ⟨c, hc, same.symm⟩
    · rw [Function.update_of_ne hu] at he
      exact ⟨e, he, rfl⟩
  refine ⟨books.account, books.once, books.below, books.returned, ?_, ?_, books.skipped⟩
  · intro u e he
    obtain ⟨e', he', hsame⟩ := old u e he
    exact hsame ▸ books.pending u e' he'
  · intro t u e f he hf hne
    obtain ⟨e', he', hsame⟩ := old t e he
    obtain ⟨f', hf', hsamef⟩ := old u f hf
    exact hsame ▸ hsamef ▸ books.apart t u e' f' he' hf' hne

/-- What holds of the calls still in progress when the one of `thread` returns. -/
theorem Books.others {s : TEventLoop} (books : Books s) {thread : Nat} {c : Call}
    (hc : s.calls thread = some c) (u : Nat) (d : Call)
    (hd : Function.update s.calls thread none u = some d) : s.calls u = some d ∧
    d.handle ≠ c.handle := by
  by_cases same : u = thread
  · subst same
    rw [Function.update_self] at hd
    cases hd
  · rw [Function.update_of_ne same] at hd
    exact ⟨hd, books.apart u thread d c hd hc same⟩

/-- A call that finds the loop stopping or closed returns without sending. -/
theorem Books.refuse {s : TEventLoop} (books : Books s) {thread : Nat} {c : Call}
    (hc : s.calls thread = some c) : Books (s.returnOk thread c.handle false) := by
  obtain ⟨hlt, hsent, _⟩ := books.pending thread c hc
  refine ⟨books.account, books.once, books.below, ?_, ?_, ?_, books.skipped⟩
  · intro r hr
    rcases List.mem_append.mp hr with old | fresh
    · exact books.returned r old
    · rw [List.mem_singleton.mp fresh]
      exact ⟨hlt, iff_of_false (by simp) hsent⟩
  · intro u d hd
    obtain ⟨hd, hne⟩ := books.others hc u d hd
    obtain ⟨hltd, hsentd, hret⟩ := books.pending u d hd
    refine ⟨hltd, hsentd, ?_⟩
    intro r hr
    rcases List.mem_append.mp hr with old | fresh
    · exact hret r old
    · rw [List.mem_singleton.mp fresh]
      exact hne.symm
  · intro t u e f he hf hne
    exact books.apart t u e f (books.others hc t e he).1 (books.others hc u f hf).1 hne

theorem task_handle (c : Call) (now : Nat) : (task c now).handle = c.handle := by
  rcases c with ⟨handle, delay, point⟩
  cases delay <;> rfl

theorem Books.send {s : TEventLoop} (books : Books s) {thread : Nat} {c : Call}
    (hc : s.calls thread = some c) (now : Nat) : Books { s.returnOk thread c.handle true with
      scheduler := s.scheduler ++ [task c now]
      sent := s.sent ++ [c.handle] } := by
  obtain ⟨hlt, hsent, hret⟩ := books.pending thread c hc
  refine ⟨?_, ?_, ?_, ?_, ?_, ?_, books.skipped⟩
  · have before := List.perm_iff_count.mp books.account
    apply List.perm_iff_count.mpr
    intro x
    have same := before x
    simp only [TEventLoop.account, TEventLoop.held, TEventLoop.localHandles, TEventLoop.returnOk,
      List.map_append, List.map_cons, List.map_nil, task_handle, List.count_append] at same ⊢
    omega
  · rw [List.nodup_append]
    refine ⟨books.once, by simp, ?_⟩
    rintro x hx y hy rfl
    exact hsent (List.mem_singleton.mp hy ▸ hx)
  · intro h hh
    rcases List.mem_append.mp hh with old | fresh
    · exact books.below h old
    · exact List.mem_singleton.mp fresh ▸ hlt
  · intro r hr
    rcases List.mem_append.mp hr with old | fresh
    · refine ⟨(books.returned r old).1, ?_⟩
      rw [List.mem_append, List.mem_singleton, (books.returned r old).2, or_iff_left (hret r old)]
    · rw [List.mem_singleton.mp fresh]
      exact ⟨hlt, iff_of_true rfl (by simp)⟩
  · intro u d hd
    obtain ⟨hd, hne⟩ := books.others hc u d hd
    obtain ⟨hltd, hsentd, hretd⟩ := books.pending u d hd
    refine ⟨hltd, ?_, ?_⟩
    · rw [List.mem_append, List.mem_singleton, not_or]
      exact ⟨hsentd, hne⟩
    · intro r hr
      rcases List.mem_append.mp hr with old | fresh
      · exact hretd r old
      · rw [List.mem_singleton.mp fresh]
        exact hne.symm
  · intro t u e f he hf hne
    exact books.apart t u e f (books.others hc t e he).1 (books.others hc u f hf).1 hne

theorem Books.callStep {s t : TEventLoop} {a : Action} (books : Books s)
    (h : callStep s a = some t) : Books t := by
  cases callStep_stepped h with
  | call thread delay => exact books.call thread delay
  | stopping thread c there | closed thread c there => exact books.refuse there
  | notStopping thread handle delay there
  | notClosed thread handle delay there => exact books.goOn there rfl
  | send thread now handle delay there => exact books.send there now
  | cancel handle =>
      refine ⟨books.account, books.once, books.below, books.returned, books.pending,
        books.apart, ?_⟩
      intro x hx
      by_cases same : x = handle
      · rw [same]
        exact Function.update_self handle true s.cancelled
      · exact (Function.update_of_ne same true s.cancelled).trans (books.skipped x hx)
  | setStopping | close | listen =>
      exact ⟨books.account, books.once, books.below, books.returned, books.pending, books.apart,
        books.skipped⟩

theorem Books.step {s t : TEventLoop} {a : Action} (books : Books s) (h : step s a = some t) :
    Books t := by
  rcases Option.or_eq_some_iff.mp h with hcall | ⟨_, hrun⟩
  · exact books.callStep hcall
  · exact (runStep_frame hrun).books books

/-- Retention. A handle whose call passed the flag checks has been executed or is held,
unless it was cancelled or a `_run` ended with it in its local queues; a call that
found the loop stopping or closed returned `Ok` and scheduled nothing. -/
structure Retention (s : TEventLoop) : Prop where
  kept : ∀ r ∈ s.returned, r.passed = true → s.cancelled r.handle = false → r.handle ∉ s.left →
    r.handle ∈ s.executed ∨ r.handle ∈ s.held
  refused : ∀ r ∈ s.returned, r.passed = false → r.handle ∉ s.executed ∧ r.handle ∉ s.held

theorem Books.mem_sent {s : TEventLoop} (books : Books s) (h : Nat) :
    h ∈ s.sent ↔ h ∈ s.held ∨ h ∈ s.executed ∨ h ∈ s.skipped ∨ h ∈ s.left := by
  rw [← books.account.mem_iff]
  simp only [TEventLoop.account, List.mem_append, or_assoc]

theorem Books.kept {s : TEventLoop} (books : Books s) : Retention s where
  kept r hr passed live stays := by
    have sent := (books.returned r hr).2.mp passed
    rcases (books.mem_sent r.handle).mp sent with held | executed | skipped | left
    · exact .inr held
    · exact .inl executed
    · rw [books.skipped r.handle skipped] at live
      cases live
    · exact absurd left stays
  refused r hr passed := by
    have unsent : r.handle ∉ s.sent := by
      intro sent
      have contrary := (books.returned r hr).2.mpr sent
      rw [passed] at contrary
      cases contrary
    rw [books.mem_sent] at unsent
    push Not at unsent
    exact ⟨unsent.2.1, unsent.1⟩

theorem retention (actions : List Action) (s : TEventLoop)
    (h : Runs.run step new actions = some s) : Retention s :=
  (Runs.run_invariant (fun _ _ _ books hstep => books.step hstep) h books_new).kept

/-- A callback stops the loop; a handle scheduled before that waits for the next
`_run`, one scheduled after it is ignored. -/
def stopAndRestart : List Action :=
  [.call 0 none, .loadStopping 0, .loadClosed 0, .send 0 10, .call 0 none, .loadStopping 0,
      .loadClosed 0,
    .send 0 11, .run, .recvTask, .checkStop, .recvHandle, .setStopping true, .call 0 none,
    .loadStopping 0, .finish, .checkStop, .setStopping false, .run, .recvTask, .checkStop,
    .recvHandle, .finish, .checkStop]

theorem retention_restart :
    ∃ s, Runs.run step new stopAndRestart = some s ∧ s.executed = [0, 1] ∧
      s.returned = [⟨0, true, false⟩, ⟨1, true, false⟩, ⟨2, false, false⟩] ∧ s.left = [] ∧
      Retention s := by
  refine ⟨_, rfl, rfl, rfl, rfl, ?_⟩
  exact retention stopAndRestart _ rfl

/-- `call_soon` after `stop()` returns `Ok` and the handle is nowhere. -/
theorem stopped_call_is_lost :
    ¬ ∀ s, Runs.Reachable step new s → ∀ r ∈ s.returned, r.closed = false →
    s.cancelled r.handle = false →
      r.handle ∈ s.executed ∨ r.handle ∈ s.held := by
  intro always
  obtain ⟨s, hrun, hret, hcancel, hexec, hheld⟩ :
      ∃ s, Runs.run step new [.setStopping true, .call 0 none, .loadStopping 0] = some s ∧
        s.returned = [⟨0, false, false⟩] ∧ s.cancelled 0 = false ∧ s.executed = [] ∧ s.held = [] :=
    ⟨_, rfl, rfl, rfl, rfl, rfl⟩
  have place := always s ⟨_, hrun⟩ ⟨0, false, false⟩ (by rw [hret]; simp) rfl hcancel
  rw [hexec, hheld] at place
  simp at place

end TokioLoop.Scheduler
