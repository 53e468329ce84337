import Mathlib.Data.List.Range
import TokioLoop.TcpAccounting

/-!
Flow control of a plain transport whose `write(2)` never fails for good: what the protocol
was told last, the two limits and the buffer. Whether `pause_writing` calls methods does
not matter: from the middle of `try_write` they abort the process.
-/
namespace TokioLoop.Tcp

open ByteLedger Runs

variable {σ : Type} {R : Rustls σ}

def Callback.isFlow : Callback → Bool
  | .pauseWriting | .resumeWriting => true
  | _ => false

/-- The calls of `pause_writing` and `resume_writing`. -/
def Cfg.flow (c : Cfg σ) : List Callback := c.callbacks.filter Callback.isFlow

/-- `n` calls in turn, the first of them `pause_writing`. -/
def alternation (n : Nat) : List Callback :=
  (List.range n).map fun i => if i % 2 = 0 then .pauseWriting else .resumeWriting

theorem alternation_succ (n : Nat) :
    alternation (n + 1) = alternation n ++ [if n % 2 = 0 then .pauseWriting
      else .resumeWriting] := by
  rw [alternation, List.range_succ, List.map_append]
  rfl

structure Throttled (c : Cfg σ) : Prop where
  order : c.flow = alternation c.flow.length
  told : c.tr.protoPaused = decide (c.flow.length % 2 = 1)
  limits : c.tr.waterLo ≤ c.tr.waterHi
  above : c.tr.waterHi < c.tr.state.writeBufDsize → c.tr.protoPaused = true
  resumes : c.tr.protoPaused = true → 0 < c.tr.state.writeBufDsize
  held : c.borrowed = true → c.tr.protoPaused = true

/-- Flow control has not moved. -/
structure Level (c d : Cfg σ) : Prop where
  flow : d.flow = c.flow
  protoPaused : d.tr.protoPaused = c.tr.protoPaused
  waterHi : d.tr.waterHi = c.tr.waterHi
  waterLo : d.tr.waterLo = c.tr.waterLo
  size : d.tr.state.writeBufDsize = c.tr.state.writeBufDsize
  borrowed : d.borrowed = true → c.borrowed = true

theorem Level.refl (c : Cfg σ) : Level c c := ⟨rfl, rfl, rfl, rfl, rfl, id⟩

theorem Level.trans {b c d : Cfg σ} (first : Level b c) (second : Level c d) : Level b d where
  flow := second.flow.trans first.flow
  protoPaused := second.protoPaused.trans first.protoPaused
  waterHi := second.waterHi.trans first.waterHi
  waterLo := second.waterLo.trans first.waterLo
  size := second.size.trans first.size
  borrowed := first.borrowed ∘ second.borrowed

theorem Throttled.level {c d : Cfg σ} (h : Throttled c) (same : Level c d) : Throttled d := by
  constructor
  · rw [same.flow]
    exact h.order
  · rw [same.flow, same.protoPaused]
    exact h.told
  · rw [same.waterHi, same.waterLo]
    exact h.limits
  · rw [same.waterHi, same.size, same.protoPaused]
    exact h.above
  · rw [same.size, same.protoPaused]
    exact h.resumes
  · rw [same.protoPaused]
    exact h.held ∘ same.borrowed

theorem flow_of_callbacks {c d : Cfg σ} (h : d.callbacks = c.callbacks) : d.flow = c.flow := by
  rw [Cfg.flow, h]
  rfl

theorem flow_emit {c : Cfg σ} {o : Obs} (silent : o.asCallback = none) : (c.emit o).flow = c.flow :=
  flow_of_callbacks (callbacks_append rfl (List.forall_mem_singleton.mpr silent))

theorem flow_call (c : Cfg σ) (e : Callback) (frame : Frame) :
    (c.call e frame).flow = c.flow ++ if e.isFlow then [e] else [] := by
  have one : (c.call e frame).callbacks = c.callbacks ++ [e] := by
    rw [Cfg.callbacks, Cfg.call, Cfg.emit, List.filterMap_append]
    rfl
  rw [Cfg.flow, one, List.filter_append, List.filter_singleton, Bool.cond_eq_ite]
  rfl

theorem level_emit {c : Cfg σ} {o : Obs} (silent : o.asCallback = none) : Level c (c.emit o) :=
  ⟨flow_emit silent, rfl, rfl, rfl, rfl, id⟩

theorem level_call {c : Cfg σ} {e : Callback} {frame : Frame} (other : e.isFlow = false)
    (free : frame.borrows = false) : Level c (c.call e frame) := by
  refine ⟨?_, rfl, rfl, rfl, rfl, fun held => ?_⟩
  · rw [flow_call, other]
    exact List.append_nil _
  · rwa [Cfg.borrowed, Cfg.call, List.any_cons, free, Bool.false_or] at held

/-- `pause_writing` and `resume_writing` take turns. -/
theorem Throttled.turn {c d : Cfg σ} (h : Throttled c) {e : Callback}
    (flow : d.flow = c.flow ++ [e]) (turned : d.tr.protoPaused = !c.tr.protoPaused)
    (expected : e = if c.tr.protoPaused then .resumeWriting else .pauseWriting) :
    d.flow = alternation d.flow.length ∧ d.tr.protoPaused = decide (d.flow.length % 2 = 1) := by
  have length : d.flow.length = c.flow.length + 1 := by
    rw [flow, List.length_append, List.length_singleton]
  have told := h.told
  rw [length]
  constructor
  · rw [flow, alternation_succ, ← h.order, expected, told]
    congr 2
    by_cases odd : c.flow.length % 2 = 1
    · simp [odd]
    · simp [Nat.mod_two_ne_one.mp odd]
  · rw [turned, told]
    by_cases odd : c.flow.length % 2 = 1
    · simp [odd, Nat.add_mod]
    · simp [Nat.mod_two_ne_one.mp odd, Nat.add_mod]

/-- A call of `pause_writing`, made above the limit and with the flag just set. -/
theorem Throttled.pause {c d : Cfg σ} (h : Throttled c) (inWrite : Bool)
    (running : c.tr.protoPaused = false) (flow : d.flow = c.flow)
    (limits : d.tr.waterLo ≤ d.tr.waterHi) (above : d.tr.waterHi < d.tr.state.writeBufDsize) :
    Throttled (d.pauseProto inWrite) := by
  have called : (d.pauseProto inWrite).flow = c.flow ++ [.pauseWriting] := by
    rw [Cfg.pauseProto, flow_call]
    exact congrArg (· ++ [Callback.pauseWriting]) flow
  obtain ⟨order, told⟩ := h.turn called (by rw [running]; rfl) (by rw [running]; rfl)
  exact ⟨order, told, limits, fun _ => rfl, fun _ => Nat.lt_of_le_of_lt (Nat.zero_le _) above,
    fun _ => rfl⟩

theorem Throttled.pushBack {c : Cfg σ} (h : Throttled c)
    (data : Bytes) : Throttled (pushBack c data) := by
  have grown : ∀ d : Cfg σ, d.log = c.log → d.stack = c.stack →
      d.tr.protoPaused = c.tr.protoPaused → d.tr.waterHi = c.tr.waterHi →
      d.tr.waterLo = c.tr.waterLo → d.tr.state.writeBufDsize = c.tr.state.writeBufDsize +
      data.length → Throttled (if d.tr.waterHi < d.tr.state.writeBufDsize ∧
        d.tr.protoPaused = false then d.pauseProto true
        else d) := by
    intro d log stack paused hi lo size
    have flow : d.flow = c.flow := flow_of_callbacks (by rw [Cfg.callbacks, log]; rfl)
    have limits : d.tr.waterLo ≤ d.tr.waterHi := by
      rw [hi, lo]
      exact h.limits
    split_ifs with exceeds
    · exact h.pause true (paused ▸ exceeds.2) flow limits exceeds.1
    · constructor
      · rw [flow]
        exact h.order
      · rw [flow, paused]
        exact h.told
      · exact limits
      · intro above
        exact Bool.not_eq_false _ ▸ fun running => exceeds ⟨above, running⟩
      · intro waiting
        rw [size]
        exact Nat.add_pos_left (h.resumes (paused ▸ waiting)) _
      · rw [Cfg.borrowed, stack, paused]
        exact h.held
  simp only [Tcp.pushBack, bufAdded, grow]
  split
  · exact grown _ rfl rfl rfl rfl rfl rfl
  · exact grown _ rfl rfl rfl rfl rfl rfl

theorem Throttled.tryWrite {c : Cfg σ} (h : Throttled c) (data : Bytes) {env : Env}
    (alive : env.nextWrite.isFatal = false) : Throttled (tryWrite c data env) := by
  have accepted : Throttled (c.emit (.accepted data)) := h.level (level_emit rfl)
  simp only [Tcp.tryWrite]
  split_ifs
  · exact h.level (level_emit rfl)
  · exact h
  · exact h.level ⟨rfl, rfl, rfl, rfl, rfl, id⟩
  · exact accepted.pushBack data
  · have wrote : Throttled ((c.emit (.accepted data)).emit (.write data env.nextWrite)) :=
      accepted.level (level_emit rfl)
    simp only [directWrite]
    split
    · split_ifs
      · exact wrote
      · exact wrote.pushBack _
    · exact wrote.pushBack data
    · exact wrote.pushBack data
    next fatal =>
      rw [fatal] at alive
      cases alive
  · exact accepted.pushBack data

theorem level_lost {c d : Cfg σ} (h : Level c d) (err : Option String) :
    Level c (callConnLost d err .callConnLost) :=
  h.trans (level_call rfl rfl)

theorem level_close {c : Cfg σ} (plain : c.tr.state.tlsConn = none)
    (env : Env) : Level c (close R c env) := by
  have same : c.setClosing.tr.state.tlsConn = none := plain
  simp only [close, same]
  split_ifs
  · exact .refl c
  · exact ⟨rfl, rfl, rfl, rfl, rfl, id⟩
  · simp only [closePlain]
    split_ifs
    · apply level_lost
      exact ⟨rfl, rfl, rfl, rfl, rfl, id⟩
    · exact ⟨rfl, rfl, rfl, rfl, rfl, id⟩

theorem level_abort (c : Cfg σ) : Level c (abort c) := by
  simp only [abort]
  split_ifs
  · exact ⟨rfl, rfl, rfl, rfl, rfl, id⟩
  all_goals
    apply level_lost
    exact ⟨rfl, rfl, rfl, rfl, rfl, id⟩

theorem level_tcpStreamClose {c : Cfg σ} (plain : c.tr.state.tlsConn = none) (held : Bool)
    (env : Env) : Level c (tcpStreamClose R c held env) := by
  have same : c.unbind.tr.state.tlsConn.isSome = false := by
    rw [← Option.isSome_none (α := σ), ← plain]; rfl
  simp only [tcpStreamClose, same, Bool.false_eq_true, if_false, Cfg.unlist]
  split_ifs <;> exact ⟨rfl, rfl, rfl, rfl, rfl, id⟩

theorem Throttled.setWriteBufferLimits {c : Cfg σ} (h : Throttled c) (high low : Option Nat) :
    Throttled (setWriteBufferLimits c high low) := by
  simp only [Tcp.setWriteBufferLimits]
  split_ifs with invalid held above
  · exact h.level (level_emit rfl)
  · exact ⟨h.order, h.told, Nat.not_lt.mp invalid, fun _ => h.held held, h.resumes, h.held⟩
  · exact h.pause false above.2 rfl (Nat.not_lt.mp invalid) above.1
  · refine ⟨h.order, h.told, Nat.not_lt.mp invalid, fun exceeds => ?_, h.resumes, h.held⟩
    exact Bool.not_eq_false _ ▸ fun running => above ⟨exceeds, running⟩

theorem Throttled.method {c : Cfg σ} (h : Throttled c) (plain : c.tr.state.tlsConn = none)
    (m : Method) {env : Env} (alive : env.nextWrite.isFatal = false) : Throttled
    (m.run R c env) := by
  cases m with
  | write data => exact h.tryWrite data alive
  | writelines data => exact h.tryWrite data.flatten alive
  | close => exact h.level (level_close plain env)
  | abort => exact h.level (level_abort c)
  | callConnectionLost => exact h.level (level_lost (.refl c) none)
  | setWriteBufferLimits high low => exact h.setWriteBufferLimits high low
  | writeEof =>
      simp only [Method.run, writeEof, Cfg.shutdownWrite]
      split_ifs
      · exact h
      · exact h
      · exact h.level ⟨rfl, rfl, rfl, rfl, rfl, id⟩
      · exact h.level (.trans (c := { c with tr := { c.tr with weof := true } })
          ⟨rfl, rfl, rfl, rfl, rfl, id⟩ (level_emit rfl))
      · exact h.level ⟨rfl, rfl, rfl, rfl, rfl, id⟩
  | pauseReading | resumeReading =>
      simp only [Method.run, pauseReading, resumeReading]
      split_ifs <;> exact h.level ⟨rfl, rfl, rfl, rfl, rfl, id⟩
  | isTls | getWriteBufferSize =>
      simp only [Method.run, isTls, getWriteBufferSize, readState]
      split_ifs <;> exact h.level ⟨rfl, rfl, rfl, rfl, rfl, id⟩

theorem level_received (c : Cfg σ) (data : Option Bytes)
    (eof : Bool) : Level c (received (c, data, eof)) := by
  cases data with
  | some data => exact level_call rfl rfl
  | none =>
      cases eof with
      | true =>
          exact .trans (c := c.streamRem .readable) ⟨rfl, rfl, rfl, rfl, rfl, id⟩
            (level_call rfl rfl)
      | false => exact .refl c

theorem level_readRound {c : Cfg σ} (plain : c.tr.state.tlsConn = none) (env : Env) :
    Level c (readRound R c env) := by
  simp only [readRound]
  split_ifs
  · exact level_call rfl rfl
  · simp only [recvDirect, plain]
    exact (level_emit rfl).trans (level_received _ _ _)

theorem level_eofReceived {c : Cfg σ} (plain : c.tr.state.tlsConn = none) (truthy : Bool)
    (env : Env) : Level c (eofReceived R c truthy env) := by
  have same : c.setClosing.tr.state.tlsConn = none := plain
  simp only [eofReceived, closeFromReadHandle, plain, same, Option.isSome_none, Bool.false_eq_true,
    false_and, if_false]
  split_ifs
  · exact .refl c
  · exact .refl c
  · exact ⟨rfl, rfl, rfl, rfl, rfl, id⟩
  · exact .trans (c := c.setClosing.streamRem .writable) ⟨rfl, rfl, rfl, rfl, rfl, id⟩
      (level_call rfl rfl)

theorem level_finishWrite {c : Cfg σ} (plain : c.tr.state.tlsConn = none)
    (streamClose : Option Bool) (env : Env) : Level c (finishWrite R c streamClose env) := by
  have settled : Level c (if c.tr.state.writeBuf = [] then c.streamRem .writable else c) := by
    split_ifs
    · exact ⟨rfl, rfl, rfl, rfl, rfl, id⟩
    · exact .refl c
  have still : (if c.tr.state.writeBuf = [] then c.streamRem .writable
      else c).tr.state.tlsConn = none := by
    split_ifs <;> exact plain
  simp only [finishWrite]
  cases streamClose with
  | none => exact settled
  | some stop =>
      cases stop with
      | true => exact settled.trans (level_tcpStreamClose still _ env)
      | false => exact settled.trans (level_emit rfl)

theorem level_afterWrite {c : Cfg σ} (plain : c.tr.state.tlsConn = none) (env : Env) :
    Level c (afterWrite R c env) := by
  simp only [afterWrite, closeFromWriteHandle, plain, Bool.false_eq_true, if_false]
  split_ifs
  · exact level_finishWrite plain _ env
  · exact level_call rfl rfl
  all_goals exact level_finishWrite plain _ env

/-- Bytes that went out take the size down; a resume that was due is called. -/
theorem Throttled.written {c d : Cfg σ} (h : Throttled c) (plain : d.tr.state.tlsConn = none)
    {n : Nat} (env : Env) (flow : d.flow = c.flow) (paused : d.tr.protoPaused = c.tr.protoPaused)
    (hi : d.tr.waterHi = c.tr.waterHi) (lo : d.tr.waterLo = c.tr.waterLo) (free : d.stack = [])
    (size : d.tr.state.writeBufDsize + n = c.tr.state.writeBufDsize) : Throttled
    (written R d n env) := by
  have limits : d.tr.waterLo ≤ d.tr.waterHi := by
    rw [hi, lo]
    exact h.limits
  simp only [Tcp.written]
  split_ifs with due
  · obtain ⟨sent, low, waiting⟩ := due
    have called : (Cfg.call { d with tr := { d.tr with protoPaused := false } } .resumeWriting
      .resume).flow =
        c.flow ++ [.resumeWriting] := by
      rw [flow_call]
      exact congrArg (· ++ [Callback.resumeWriting]) flow
    have held : c.tr.protoPaused = true := paused ▸ waiting
    obtain ⟨order, told⟩ := h.turn called (by rw [held]; rfl) (by rw [held]; rfl)
    refine ⟨order, told, limits, fun exceeds => ?_, fun run => (by cases run), fun lent => ?_⟩
    · exact absurd (Nat.lt_of_le_of_lt limits exceeds) (Nat.not_lt.mpr low)
    · simp [Cfg.borrowed, Cfg.call, Cfg.emit, free, Frame.borrows] at lent
  · refine Throttled.level ?_ (level_afterWrite plain env)
    refine ⟨flow ▸ h.order, ?_, limits, fun exceeds => ?_, fun waiting => ?_, ?_⟩
    · rw [flow, paused]
      exact h.told
    · rw [paused]
      refine h.above ?_
      omega
    · by_contra empty
      have before := h.resumes (paused ▸ waiting)
      exact due ⟨by omega, by omega, waiting⟩
    · rw [Cfg.borrowed, free]
      exact fun lent => by cases lent

/-- Without a fatal error the loop ends with a count, and that is what the kernel took. -/
theorem writeLoop_taken (results : List WriteResult) (buf : List Bytes)
    (alive : ∀ r ∈ results, r.isFatal = false) : ∃ n, (writeLoop results buf).2.1 = some n ∧
      ((writeLoop results buf).2.2.flatMap Obs.kernelBytes).length = n := by
  fun_induction writeLoop results buf with
  | case1 | case2 | case6 => exact ⟨0, rfl, rfl⟩
  | case3 n results data buf part =>
      refine ⟨n, rfl, ?_⟩
      simp only [List.flatMap_singleton, Obs.kernelBytes, WriteResult.taken, List.length_take]
      omega
  | case4 n results data buf whole left ret obs hloop ih =>
      obtain ⟨m, hm, taken⟩ := ih fun r hr => alive r (List.mem_cons_of_mem _ hr)
      rw [hloop] at hm taken
      refine ⟨data.length + m, congrArg (Option.map (data.length + ·)) hm, ?_⟩
      simp only [List.flatMap_cons, Obs.kernelBytes, WriteResult.taken, List.length_append,
        List.length_take, taken]
      omega
  | case5 results data buf left ret obs hloop ih =>
      obtain ⟨m, hm, taken⟩ := ih fun r hr => alive r (List.mem_cons_of_mem _ hr)
      rw [hloop] at hm taken
      exact ⟨m, hm, taken⟩
  | case7 text => exact absurd (alive (.fatal text) List.mem_cons_self) Bool.noConfusion

theorem kernelBytes_emit {c : Cfg σ} {o : Obs} (silent : o.kernelBytes = []) :
    (c.emit o).kernelBytes = c.kernelBytes := by
  simp [Cfg.kernelBytes, Cfg.emit, silent]

theorem kernelBytes_finishWrite {c : Cfg σ} (plain : c.tr.state.tlsConn = none)
    (streamClose : Option Bool) (env : Env) :
    (finishWrite R c streamClose env).kernelBytes = c.kernelBytes := by
  have same : ∀ d : Cfg σ, d.log = c.log → d.kernelBytes = c.kernelBytes := fun d log =>
    congrArg (List.flatMap Obs.kernelBytes) log
  have closed : ∀ d : Cfg σ, d.log = c.log → d.tr.state = c.tr.state →
      (tcpStreamClose R d d.borrowed env).kernelBytes = c.kernelBytes := by
    intro d log state
    have unbound : d.unbind.tr.state.tlsConn.isSome = false := by
      rw [← Option.isSome_none (α := σ), ← plain, ← state]
      rfl
    simp only [tcpStreamClose, unbound, Bool.false_eq_true, if_false, Cfg.unlist]
    split_ifs <;> exact same d log
  simp only [finishWrite]
  cases streamClose with
  | none => split_ifs <;> rfl
  | some stop =>
      cases stop with
      | true => split_ifs <;> exact closed _ rfl rfl
      | false => split_ifs <;> exact kernelBytes_emit rfl

theorem kernelBytes_afterWrite {c : Cfg σ} (plain : c.tr.state.tlsConn = none) (env : Env) :
    (afterWrite R c env).kernelBytes = c.kernelBytes := by
  have finished := fun streamClose => kernelBytes_finishWrite (R := R) plain streamClose env
  simp only [afterWrite, closeFromWriteHandle, plain, Bool.false_eq_true, if_false]
  split_ifs
  · exact finished _
  · exact kernelBytes_emit rfl
  all_goals exact finished _

/-- A write handle on a plain transport counts what the kernel took before it goes on. -/
theorem writeHandleRun_written {c : Cfg σ} (sized : Sized c) {env : Env}
    (alive : ∀ r ∈ env.writes, r.isFatal = false) :
    ∃ d n, writeHandleRun R c env = written R d n env ∧
    d.kernelBytes.length = c.kernelBytes.length + n ∧
      d.tr.state.writeBufDsize + n = c.tr.state.writeBufDsize ∧ d.callbacks = c.callbacks ∧
      d.stack = c.stack ∧ d.tr.state.tlsConn = none ∧ d.tr.protoPaused = c.tr.protoPaused ∧
      d.tr.waterHi = c.tr.waterHi ∧ d.tr.waterLo = c.tr.waterLo := by
  have noTimeout : closeTimedOut c.tr.state env.now = false := by
    simp [closeTimedOut, sized.plain]
  obtain ⟨n, wrote, taken⟩ := writeLoop_taken env.writes c.tr.state.writeBuf alive
  have pair : (writePlain c env).2 = some n := wrote
  have enough := sized.enough pair
  refine ⟨(writePlain c env).1, n, ?_, ?_, ?_, (writePlain_untouched c env).callbacks, rfl,
    sized.plain, rfl, rfl, rfl⟩
  · simp only [writeHandleRun, noTimeout, Bool.false_eq_true, if_false, sized.plain]
    generalize writePlain c env = result at pair
    obtain ⟨d, ret⟩ := result
    cases pair
    rfl
  · simp [Cfg.kernelBytes, writePlain, taken]
  · simp only [writePlain, wrote, Option.elim_some, Cfg.setState]
    exact Nat.sub_add_cancel enough

theorem Throttled.writeHandleRun {c : Cfg σ} (h : Throttled c) (sized : Sized c)
    (free : c.stack = []) {env : Env} (alive : ∀ r ∈ env.writes, r.isFatal = false) : Throttled
    (writeHandleRun R c env) := by
  obtain ⟨d, n, run, -, size, callbacks, stack, plain, paused, hi, lo⟩ :=
    writeHandleRun_written (R := R) sized alive
  rw [run]
  exact h.written plain env (flow_of_callbacks callbacks) paused hi lo (stack.trans free) size

/-- A write handle that sends something and comes below the limit resumes the protocol. -/
theorem writeHandleRun_resumes {c : Cfg σ} (sized : Sized c) {env : Env}
    (alive : ∀ r ∈ env.writes, r.isFatal = false)
    (sent : c.kernelBytes.length < (writeHandleRun R c env).kernelBytes.length)
    (low : (writeHandleRun R c env).tr.state.writeBufDsize ≤ (writeHandleRun R c env).tr.waterLo)
    (paused : c.tr.protoPaused = true) :
    (writeHandleRun R c env).callbacks = c.callbacks ++ [.resumeWriting] := by
  obtain ⟨d, n, run, counted, -, callbacks, -, plain, same, -⟩ :=
    writeHandleRun_written (R := R) sized alive
  rw [run] at sent low ⊢
  unfold written at sent low ⊢
  split_ifs at sent low ⊢ with due
  · rw [← callbacks]
    exact List.filterMap_append
  · rw [kernelBytes_afterWrite plain, counted] at sent
    rw [(level_afterWrite plain env).size, (level_afterWrite plain env).waterLo] at low
    exact absurd ⟨by omega, low, same.trans paused⟩ due

theorem level_register (c : Cfg σ) : Level c (register c) := ⟨rfl, rfl, rfl, rfl, rfl, id⟩

theorem Throttled.after {c : Cfg σ} {frame : Frame} {stack : List Frame} (h : Throttled c)
    (plain : c.tr.state.tlsConn = none) (top : c.stack = frame :: stack) (r : Ret) (env : Env) :
    Throttled (frame.after R { c with stack := stack } r env) := by
  have popped : Throttled { c with stack := stack } := by
    refine h.level ⟨rfl, rfl, rfl, rfl, rfl, fun lent => ?_⟩
    rw [Cfg.borrowed, top, List.any_cons]
    exact Bool.or_eq_true_iff.mpr (.inr lent)
  have still : ({ c with stack := stack } : Cfg σ).tr.state.tlsConn = none := plain
  cases frame with
  | attach =>
      simp only [Frame.after]
      split_ifs
      · exact popped
      · exact popped.level (level_register _)
  | connectionMade | pause => exact popped
  | getBuffer =>
      cases r with
      | buffer size => exact popped.level ((level_emit rfl).trans (level_received _ _ _))
      | falsy | truthy | raised => exact popped.level ⟨rfl, rfl, rfl, rfl, rfl, id⟩
  | data ended =>
      cases ended with
      | true => exact popped.level (level_received _ none true)
      | false => exact popped.level (level_readRound still env)
  | eof => exact popped.level (level_eofReceived still _ env)
  | lost k =>
      cases k with
      | writeHandle => exact popped.level (level_finishWrite still (some true) env)
      | callConnLost | tryWrite | recvEof
      | readHandle => exact popped.level (level_tcpStreamClose still _ env)
  | resume => exact popped.level (level_afterWrite still env)

/-- No system call fails for good. -/
def Alive (a : Act × Env) : Prop := ∀ r ∈ a.2.writes, r.isFatal = false

theorem Throttled.step {c d : Cfg σ} {a : Act × Env} (h : Throttled c) (sized : Sized c)
    (alive : Alive a) (hstep : step R c a = some d) : Throttled d := by
  obtain ⟨act, env⟩ := a
  cases (step_stepped hstep).2 with
  | call m => exact h.method sized.plain m (nextWrite_alive alive)
  | server aborts => exact h.method sized.plain _ (nextWrite_alive alive)
  | ret r frame stack hstack => exact h.after sized.plain hstack r env
  | poll => exact h.level ⟨rfl, rfl, rfl, rfl, rfl, id⟩
  | fire dir free =>
      have taken : Throttled { c with tables := { c.tables with event := none } } :=
        h.level ⟨rfl, rfl, rfl, rfl, rfl, id⟩
      simp only [Tcp.fire]
      split_ifs
      · cases dir with
        | readable =>
            refine taken.level (level_readRound ?_ env)
            exact sized.plain
        | writable => exact taken.writeHandleRun (sized.retains ⟨rfl, id, fun _ => rfl⟩) free alive
      · exact taken
  | made =>
      refine Throttled.level ?_ (level_call rfl rfl)
      exact h.level ⟨rfl, rfl, rfl, rfl, rfl, id⟩

theorem PlainStart.throttled {c : Cfg σ} (h : PlainStart R c) : Throttled c := by
  have limits : 1024 * 64 / 4 ≤ 1024 * 64 := Nat.div_le_self _ _
  cases h with
  | accepted | connected =>
      exact ⟨rfl, rfl, limits, fun exceeds => (by cases exceeds), fun run => (by cases run),
        fun lent => (by cases lent)⟩

/-- `set_write_buffer_limits` refuses the limits. -/
def rejects (high low : Option Nat) : Prop := (bufferLimits high low).1 < (bufferLimits high low).2

/-- The calls take turns and the flag is the last of them. Above the limit the protocol is
paused, and what is paused has something left to send, so that a write handle will come;
one that sends and ends below the lower limit resumes. -/
structure FlowControl (R : Rustls σ) (c : Cfg σ) : Prop where
  alternates : c.flow = alternation c.flow.length
  told : c.tr.protoPaused = true ↔ c.flow.length % 2 = 1
  limits : c.tr.waterLo ≤ c.tr.waterHi
  rejected : ∀ high low, rejects high low → ∃ text, setWriteBufferLimits c high low = c.emit
      (.raised text)
  above : c.tr.waterHi < c.tr.state.writeBufDsize → c.tr.protoPaused = true
  resumes : c.tr.protoPaused = true → 0 < c.tr.state.writeBufDsize
  due : ∀ env d, Alive (.fire, env) → c.tables.event = some .writable → step R c
      (.fire, env) = some d →
    c.kernelBytes.length < d.kernelBytes.length → d.tr.state.writeBufDsize ≤ d.tr.waterLo →
    c.tr.protoPaused = true →
      d.callbacks = c.callbacks ++ [.resumeWriting]

theorem Throttled.flowControl {c : Cfg σ} (h : Throttled c) (sized : Sized c) :
    FlowControl R c := by
  refine ⟨h.order, ?_, h.limits, fun high low no => ?_, h.above, h.resumes, ?_⟩
  · rw [h.told, decide_eq_true_iff]
  · exact ⟨_, if_pos no⟩
  · intro env d alive event one sent low paused
    cases (step_stepped one).2 with
    | fire dir free there =>
        cases event.symm.trans there
        simp only [fire] at sent low ⊢
        split_ifs at sent low ⊢
        · have taken : Sized { c with tables := { c.tables with event := none } } :=
            sized.retains ⟨rfl, id, fun _ => rfl⟩
          exact writeHandleRun_resumes taken alive sent low paused
        · exact absurd sent (Nat.lt_irrefl _)

theorem plain_flow (R : Rustls σ) (actions : List (Act × Env)) (start : Cfg σ)
    (hstart : PlainStart R start) (alive : ∀ a ∈ actions, Alive a) : Always (step R)
    (FlowControl R) start actions := by
  have throttled : Always (step R) (fun c => Accounted c ∧ Throttled c) start actions :=
    always_of_guarded (G := fun _ a => Alive a)
      (fun _ _ _ h good hstep => ⟨h.1.step hstep, h.2.step h.1.toSized good hstep⟩)
      ⟨hstart.accounted, hstart.throttled⟩ (guarded_of_forall alive)
  exact throttled.mono fun _ h => h.2.flowControl h.1.toSized

/-- Two bytes of which none goes out at once, over a limit of one, and the write handle
that sends them. -/
def pausedThenSent : List (Act × Env) :=
  [(.ret .falsy, ⟨[], [], 0⟩), (.call (.setWriteBufferLimits (some 1) none), ⟨[], [], 0⟩),
    (.call (.write [1, 2]), ⟨[], [], 0⟩), (.ret .falsy, ⟨[], [], 0⟩),
    (.poll .writable, ⟨[], [], 0⟩), (.fire, ⟨[], [.ok 2], 0⟩)]

theorem plain_flow_paused :
    ∃ c, run (step noTls) (connected noTls none false 1000) pausedThenSent = some c ∧
      c.flow = [.pauseWriting, .resumeWriting] ∧ FlowControl noTls c := by
  refine ⟨_, rfl, rfl, ?_⟩
  refine (plain_flow noTls pausedThenSent _ (.connected false 1000) ?_).last rfl
  simp [pausedThenSent, Alive, WriteResult.isFatal]

end TokioLoop.Tcp
