import TokioLoop.TcpFrames
import TokioLoop.TcpOutbound
import Mathlib.Algebra.GroupWithZero.Nat

/-!
What a plain transport counts: the size next to the buffer, and the registration for
`WRITABLE`, which follows the size until `connection_lost`. Only while the write handle is
in `resume_writing` may a buffer that it has drained still be registered.
-/
namespace TokioLoop.Tcp

open ByteLedger Runs

variable {σ : Type} {R : Rustls σ}

/-- The counters agree with the buffer, and what is buffered is waited for. -/
structure Sized (c : Cfg σ) : Prop where
  plain : c.tr.state.tlsConn = none
  size : c.tr.state.writeBufDsize = held c.tr.state.writeBuf
  chunks : ∀ chunk ∈ c.tr.state.writeBuf, chunk ≠ []
  watched : ¬ c.lost → 0 < c.tr.state.writeBufDsize → c.watches .writable = true

/-- Nothing else is waited for. -/
structure Accounted (c : Cfg σ) : Prop extends Sized c where
  needed : ¬ c.lost → c.watches .writable = true → 0 < c.tr.state.writeBufDsize ∨
      Frame.resume ∈ c.stack

theorem Sized.empty_iff {c : Cfg σ} (h : Sized c) : c.tr.state.writeBufDsize = 0 ↔
    c.tr.state.writeBuf = [] := by
  rw [h.size]
  exact held_eq_zero_iff h.chunks

/-- The state is the same, and the registration as long as it counts. -/
structure Retains (c d : Cfg σ) : Prop where
  state : d.tr.state = c.tr.state
  lost : c.lost → d.lost
  watches : ¬ d.lost → d.watches .writable = c.watches .writable

theorem Sized.retains {c d : Cfg σ} (h : Sized c) (pass : Retains c d) : Sized d := by
  obtain ⟨state, lost, watches⟩ := pass
  constructor
  · rw [state]
    exact h.plain
  · rw [state]
    exact h.size
  · rw [state]
    exact h.chunks
  · intro alive
    rw [state, watches alive]
    exact h.watched (alive ∘ lost)

theorem Accounted.retains {c d : Cfg σ} (h : Accounted c) (pass : Retains c d)
    (stack : Frame.resume ∈ c.stack → Frame.resume ∈ d.stack) : Accounted d := by
  refine ⟨h.toSized.retains pass, fun alive watched => ?_⟩
  rw [pass.watches alive] at watched
  rw [pass.state]
  exact (h.needed (alive ∘ pass.lost) watched).imp_right stack

/-- After `connection_lost` only the buffer counts. -/
theorem Sized.ended {c d : Cfg σ} (h : Sized c) (state : d.tr.state = c.tr.state)
    (lost : d.lost) : Accounted d :=
  ⟨h.retains ⟨state, fun _ => lost, fun alive => absurd lost alive⟩, fun alive => absurd lost alive⟩

theorem retains_emit {c : Cfg σ} {o : Obs} (silent : o.isLost = false) : Retains c (c.emit o) :=
  ⟨rfl, (lost_emit silent).mpr, fun _ => rfl⟩

theorem retains_call {c : Cfg σ} (e : Callback) (frame : Frame) : Retains c (c.call e frame) :=
  ⟨rfl, lost_mono rfl, fun _ => rfl⟩

theorem mem_cons_of_resume {c : Cfg σ} {frame : Frame} (h : Frame.resume ∈ c.stack) :
    Frame.resume ∈ frame :: c.stack :=
  List.mem_cons_of_mem frame h

theorem Accounted.pushBack {c : Cfg σ} (h : Accounted c) {data : Bytes} (hne : data ≠ []) :
    Accounted (pushBack c data) := by
  have grown : ∀ d : Cfg σ, d.tr.state = { c.tr.state with
        writeBuf := c.tr.state.writeBuf ++ [data]
        writeBufDsize := c.tr.state.writeBufDsize + data.length } →
      d.log = c.log → (¬ c.lost → d.watches .writable = true) → Accounted d := by
    intro d state log watched
    have same : d.lost ↔ c.lost := by simp only [Cfg.lost, Cfg.callbacks, log]
    have some : 0 < d.tr.state.writeBufDsize := by
      rw [state]
      exact Nat.add_pos_right _ (List.length_pos_of_ne_nil hne)
    constructor
    · constructor
      · rw [state]
        exact h.plain
      · rw [state, held_append, ← h.size, held_cons, held_nil, Nat.add_zero]
      · rw [state]
        exact List.forall_mem_append.mpr ⟨h.chunks, List.forall_mem_singleton.mpr hne⟩
      · exact fun alive _ => watched (alive ∘ same.mpr)
    · exact fun _ _ => .inl some
  have intact : Accounted (grow (c.setState
    { c.tr.state with writeBuf := c.tr.state.writeBuf ++ [data] })
      data.length) := by
    simp only [grow]
    split_ifs with none
    · exact grown _ rfl rfl fun _ => watches_streamAdd_same _ _
    · exact grown _ rfl rfl fun alive => h.watched alive (Nat.pos_of_ne_zero none)
  simp only [Tcp.pushBack, bufAdded]
  split_ifs
  · exact intact.retains ⟨rfl, lost_mono rfl, fun _ => rfl⟩ mem_cons_of_resume
  · exact intact

theorem Accounted.tryWrite {c : Cfg σ} (h : Accounted c) (data : Bytes) (env : Env) :
    Accounted (tryWrite c data env) := by
  simp only [Tcp.tryWrite]
  split_ifs with weof empty _ tls none
  · exact h.retains (retains_emit rfl) id
  · exact h
  · exact h.retains ⟨rfl, id, fun _ => rfl⟩ id
  · exact absurd tls (by simp [Cfg.emit, h.plain])
  · have wrote : Accounted ((c.emit (.accepted data)).emit (.write data env.nextWrite)) :=
      (h.retains (retains_emit rfl) id).retains (retains_emit rfl) id
    simp only [directWrite]
    split
    next n _ =>
      split_ifs with whole
      · exact wrote
      · exact wrote.pushBack fun gone => whole (List.drop_eq_nil_iff.mp gone)
    · exact wrote.pushBack empty
    · exact wrote.pushBack empty
    · refine wrote.ended ?_ (lost_call ..)
      split_ifs <;> rfl
  · exact (h.retains (retains_emit rfl) id).pushBack empty

theorem Accounted.close {c : Cfg σ} (h : Accounted c) (env : Env) : Accounted (close R c env) := by
  have plain : c.setClosing.tr.state.tlsConn = none := h.plain
  simp only [Tcp.close]
  split_ifs
  · exact h
  · exact h.retains ⟨rfl, id, fun _ => rfl⟩ id
  · rw [plain]
    simp only [closePlain]
    split_ifs
    · exact h.ended rfl (lost_call ..)
    · exact h.retains ⟨rfl, id, fun _ => watches_streamRem_other Dir.noConfusion⟩ id

theorem retains_tcpStreamClose {c : Cfg σ} (plain : c.tr.state.tlsConn = none) (held : Bool)
    (env : Env) : Retains c (tcpStreamClose R c held env) := by
  have same : c.unbind.tr.state.tlsConn.isSome = false := by
    rw [← Option.isSome_none (α := σ), ← plain]; rfl
  simp only [tcpStreamClose, same, Bool.false_eq_true, if_false, Cfg.unlist]
  split_ifs <;> exact ⟨rfl, id, fun _ => rfl⟩

theorem Accounted.tcpStreamClose {c : Cfg σ} (h : Accounted c) (held : Bool) (env : Env) :
    Accounted (tcpStreamClose R c held env) := by
  refine h.retains (retains_tcpStreamClose h.plain held env) fun resume => ?_
  rcases tcpStreamClose_nests (R := R) c held env with same | ⟨frame, -, pushed⟩
  · exact same ▸ resume
  · exact pushed ▸ mem_cons_of_resume resume

theorem Accounted.tuned {c d : Cfg σ} (h : Accounted c) (tuned : Tuned c d) : Accounted d := by
  cases tuned with
  | unchanged => exact h
  | set | borrowed => exact h.retains ⟨rfl, id, fun _ => rfl⟩ id
  | raised => exact h.retains (retains_emit rfl) id
  | shutdown => exact h.retains ⟨rfl, lost_mono rfl, fun _ => rfl⟩ id
  | pauseReading => exact h.retains ⟨rfl, id, fun _ => watches_streamRem_other Dir.noConfusion⟩ id
  | resumeReading => exact h.retains ⟨rfl, id, fun _ => watches_streamAdd Dir.noConfusion⟩ id
  | pauseWriting => exact h.retains ⟨rfl, lost_mono rfl, fun _ => rfl⟩ mem_cons_of_resume

theorem Accounted.method {c : Cfg σ} (h : Accounted c) (m : Method)
    (env : Env) : Accounted (m.run R c env) := by
  cases m with
  | write data => exact h.tryWrite data env
  | writelines data => exact h.tryWrite data.flatten env
  | close => exact h.close env
  | abort =>
      simp only [Method.run, abort]
      split_ifs
      · exact h.retains ⟨rfl, id, fun _ => rfl⟩ id
      all_goals exact h.ended rfl (lost_call ..)
  | callConnectionLost => exact h.ended rfl (lost_call ..)
  | writeEof | pauseReading | resumeReading | setWriteBufferLimits | isTls | getWriteBufferSize =>
      exact h.tuned (Method.tuned rfl c env)

theorem Accounted.received {c : Cfg σ} (h : Accounted c) (data : Option Bytes) (eof : Bool) :
    Accounted (received (c, data, eof)) := by
  cases data with
  | some data => exact h.retains (retains_call ..) mem_cons_of_resume
  | none =>
      cases eof with
      | true =>
          refine h.retains ⟨rfl, lost_mono rfl, fun _ => ?_⟩ mem_cons_of_resume
          exact watches_streamRem_other (c := c) Dir.noConfusion
      | false => exact h

theorem Accounted.readRound {c : Cfg σ} (h : Accounted c)
    (env : Env) : Accounted (readRound R c env) := by
  simp only [Tcp.readRound]
  split_ifs
  · exact h.retains (retains_call ..) mem_cons_of_resume
  · simp only [recvDirect, h.plain]
    exact (h.retains (retains_emit rfl) id).received _ _

theorem Accounted.eofReceived {c : Cfg σ} (h : Accounted c) (truthy : Bool) (env : Env) :
    Accounted (eofReceived R c truthy env) := by
  have plain : c.setClosing.tr.state.tlsConn = none := h.plain
  simp only [Tcp.eofReceived, closeFromReadHandle, h.plain, plain, Option.isSome_none,
    Bool.false_eq_true, false_and, if_false]
  split_ifs
  · exact h
  · exact h
  · exact h.retains ⟨rfl, id, fun _ => rfl⟩ id
  · exact h.ended rfl (lost_call ..)

/-- The end of the write handle settles the registration again. -/
theorem Sized.finishWrite {c : Cfg σ} (h : Sized c) (streamClose : Option Bool) (env : Env) :
    Accounted (finishWrite R c streamClose env) := by
  have settled : Accounted (if c.tr.state.writeBuf = [] then c.streamRem .writable else c) := by
    split_ifs with drained
    · have none : c.tr.state.writeBufDsize = 0 := h.empty_iff.mpr drained
      have sized : Sized (c.streamRem .writable) :=
        ⟨h.plain, h.size, h.chunks, fun _ some => absurd none (Nat.ne_of_gt some)⟩
      exact ⟨sized, fun _ watched => by rw [watches_streamRem_same] at watched; cases watched⟩
    · exact ⟨h, fun _ _ => .inl (Nat.pos_of_ne_zero (mt h.empty_iff.mp drained))⟩
  simp only [Tcp.finishWrite]
  cases streamClose with
  | none => exact settled
  | some stop =>
      cases stop with
      | true => exact settled.tcpStreamClose _ env
      | false => exact settled.retains (retains_emit rfl) id

theorem Sized.closeFromWriteHandle {c : Cfg σ} (h : Sized c) (errored : Bool) (env : Env) :
    Accounted (closeFromWriteHandle R c errored env) := by
  simp only [Tcp.closeFromWriteHandle]
  split_ifs
  · exact h.ended rfl (lost_call ..)
  · exact h.ended rfl (lost_call ..)
  all_goals exact h.finishWrite _ env

theorem Sized.afterWrite {c : Cfg σ} (h : Sized c)
    (env : Env) : Accounted (afterWrite R c env) := by
  simp only [Tcp.afterWrite, h.plain]
  split_ifs
  · exact h.finishWrite _ env
  · exact h.closeFromWriteHandle _ env
  · exact h.finishWrite _ env

theorem Sized.written {c : Cfg σ} (h : Sized c) (n : Nat)
    (env : Env) : Accounted (written R c n env) := by
  simp only [Tcp.written]
  split_ifs
  · exact ⟨h.retains ⟨rfl, lost_mono rfl, fun _ => rfl⟩, fun _ _ => .inr List.mem_cons_self⟩
  · exact h.afterWrite env

/-- The write handle takes no more off the size than it counts. -/
theorem Sized.enough {c : Cfg σ} (h : Sized c) {env : Env} {n : Nat}
    (wrote : (writePlain c env).2 = some n) : n ≤ c.tr.state.writeBufDsize := by
  have taken := (writeLoop_held env.writes c.tr.state.writeBuf).2 n wrote
  rw [h.size]
  omega

theorem Sized.writePlain {c : Cfg σ} (h : Sized c)
    (env : Env) : Sized (Tcp.writePlain c env).1 := by
  have pass := writePlain_untouched c env
  have counted : (Tcp.writePlain c env).1.tr.state.writeBufDsize = held
    (Tcp.writePlain c env).1.tr.state.writeBuf ∧
      (Tcp.writePlain c env).1.tr.state.writeBufDsize ≤ c.tr.state.writeBufDsize := by
    obtain ⟨failed, took⟩ := writeLoop_held env.writes c.tr.state.writeBuf
    have size := h.size
    simp only [Tcp.writePlain, Cfg.setState]
    cases hr : (writeLoop env.writes c.tr.state.writeBuf).2.1 with
    | none =>
        rw [failed hr]
        exact ⟨rfl, Nat.zero_le _⟩
    | some n =>
        have rest := took n hr
        simp only [Option.elim_some]
        omega
  have same : c.lost → (Tcp.writePlain c env).1.lost := by
    intro lost
    rw [Cfg.lost, pass.callbacks]
    exact lost
  refine ⟨h.plain, counted.1, writeLoop_chunks env.writes h.chunks, fun alive some => ?_⟩
  rw [Cfg.watches, pass.tables]
  exact h.watched (alive ∘ same) (Nat.lt_of_lt_of_le some counted.2)

theorem Accounted.writeHandleRun {c : Cfg σ} (h : Accounted c)
    (env : Env) : Accounted (writeHandleRun R c env) := by
  have noTimeout : closeTimedOut c.tr.state env.now = false := by
    simp [closeTimedOut, h.plain]
  have wrote := h.writePlain env
  simp only [Tcp.writeHandleRun, noTimeout, Bool.false_eq_true, if_false, h.plain]
  generalize Tcp.writePlain c env = result at wrote
  obtain ⟨d, ret⟩ := result
  cases ret with
  | none => exact wrote.closeFromWriteHandle true env
  | some n => exact wrote.written n env

theorem Accounted.after {c : Cfg σ} {frame : Frame} {stack : List Frame} (h : Accounted c)
    (top : c.stack = frame :: stack) (r : Ret) (env : Env) :
    Accounted (frame.after R { c with stack := stack } r env) := by
  have sized : Sized { c with stack := stack } := h.toSized.retains ⟨rfl, id, fun _ => rfl⟩
  have popped : frame ≠ .resume → Accounted { c with stack := stack } := by
    intro other
    refine h.retains ⟨rfl, id, fun _ => rfl⟩ fun resume => ?_
    rw [top] at resume
    exact (List.mem_cons.mp resume).resolve_left fun same => other same.symm
  cases frame with
  | attach =>
      simp only [Frame.after, register]
      split_ifs
      · exact popped Frame.noConfusion
      · refine (popped Frame.noConfusion).retains ⟨rfl, id, fun _ => ?_⟩ id
        exact watches_streamAdd (c :=
          { c with stack := stack, tables := { c.tables with bound := true } })
          Dir.noConfusion
  | connectionMade | pause => exact popped Frame.noConfusion
  | getBuffer =>
      cases r with
      | buffer size => exact ((popped Frame.noConfusion).retains (retains_emit rfl) id).received _ _
      | falsy | truthy | raised =>
          exact (popped Frame.noConfusion).retains ⟨rfl, id, fun _ => rfl⟩ id
  | data ended =>
      cases ended with
      | true => exact (popped Frame.noConfusion).received none true
      | false => exact (popped Frame.noConfusion).readRound env
  | eof => exact (popped Frame.noConfusion).eofReceived _ env
  | lost k =>
      cases k with
      | writeHandle => exact sized.finishWrite (some true) env
      | callConnLost | tryWrite | recvEof
      | readHandle => exact (popped Frame.noConfusion).tcpStreamClose _ env
  | resume => exact sized.afterWrite env

theorem Accounted.step {c d : Cfg σ} {a : Act × Env} (h : Accounted c)
    (hstep : step R c a = some d) :
    Accounted d := by
  obtain ⟨act, env⟩ := a
  cases (step_stepped hstep).2 with
  | call m => exact h.method m env
  | server aborts => exact h.method _ env
  | ret r frame stack hstack => exact h.after hstack r env
  | poll => exact h.retains ⟨rfl, id, fun _ => rfl⟩ id
  | fire dir =>
      have taken : Accounted { c with tables := { c.tables with event := none } } :=
        h.retains ⟨rfl, id, fun _ => rfl⟩ id
      simp only [Tcp.fire]
      split_ifs
      · cases dir with
        | readable => exact taken.readRound env
        | writable => exact taken.writeHandleRun env
      · exact taken
  | made => exact h.retains ⟨rfl, lost_mono rfl, fun _ => rfl⟩ mem_cons_of_resume

theorem PlainStart.accounted {c : Cfg σ} (h : PlainStart R c) : Accounted c := by
  have clear : ∀ d : Cfg σ, d.tr.state.tlsConn = none → d.tr.state.writeBuf = [] →
    d.tr.state.writeBufDsize = 0 →
      d.watches .writable = false → Accounted d := by
    intro d plain empty none unwatched
    refine ⟨⟨plain, ?_, ?_, ?_⟩, ?_⟩
    · rw [none, empty, held_nil]
    · rw [empty]
      exact List.forall_mem_nil _
    · intro _ some
      exact absurd none (Nat.ne_of_gt some)
    · intro _ watched
      rw [unwatched] at watched
      cases watched
  cases h with
  | accepted lfd protoBuffered timeout => exact clear _ rfl rfl rfl rfl
  | connected protoBuffered timeout => exact clear _ rfl rfl rfl rfl

/-- The size is that of the chunks, none of which is empty, and covers what a write handle
may take; the descriptor is registered for `WRITABLE` as long as there is something to
send. `resume_writing` is called from the middle of `write_buf_size_decr`. -/
structure Accounting (c : Cfg σ) : Prop where
  size : c.tr.state.writeBufDsize = (c.tr.state.writeBuf.map List.length).sum
  chunks : ∀ chunk ∈ c.tr.state.writeBuf, chunk ≠ []
  empty : c.tr.state.writeBufDsize = 0 ↔ c.tr.state.writeBuf = []
  enough : ∀ env n, (writePlain c env).2 = some n → n ≤ c.tr.state.writeBufDsize
  registered : ¬ c.lost → Frame.resume ∉ c.stack →
      (c.watches .writable = true ↔ 0 < c.tr.state.writeBufDsize)

theorem Accounted.accounting {c : Cfg σ} (h : Accounted c) : Accounting c where
  size := h.size.trans List.length_flatten
  chunks := h.chunks
  empty := h.empty_iff
  enough _ _ := h.enough
  registered alive idle := ⟨fun watched => (h.needed alive watched).resolve_right idle,
      h.watched alive⟩

theorem plain_accounting (R : Rustls σ) (actions : List (Act × Env)) (start : Cfg σ)
    (hstart : PlainStart R start) : Always (step R) Accounting start actions := by
  have accounted : Always (step R) Accounted start actions :=
    always_of_guarded (G := fun _ _ => True) (fun _ _ _ h _ hstep => h.step hstep) hstart.accounted
      (guarded_of_forall fun _ _ => trivial)
  exact accounted.mono fun _ => Accounted.accounting

/-- Of two bytes written one stays, and the descriptor is registered until it is sent. -/
theorem plain_accounting_partial :
    ∃ c, run (step noTls) (connected noTls none false 1000) (partialWrite.take 2) = some c ∧
      c.watches .writable = true ∧ Accounting c := by
  refine ⟨_, rfl, rfl, ?_⟩
  exact (plain_accounting noTls (partialWrite.take 2) _ (.connected false 1000)).last rfl

end TokioLoop.Tcp
