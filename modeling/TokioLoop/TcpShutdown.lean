import TokioLoop.TcpFrames
import TokioLoop.TcpOutbound

/-!
What the code of a plain transport adds to its log: after `write_eof` it accepts nothing
more, and it shuts the stream down with an empty buffer, to which nothing comes then.
-/
namespace TokioLoop.Tcp

variable {σ : Type} {R : Rustls σ}

def Obs.isShutdown : Obs → Bool
  | .shutdown _ => true
  | _ => false

/-- The stream was shut down for writing. -/
def Cfg.shut (c : Cfg σ) : Bool := c.log.any Obs.isShutdown

/-- Neither accepts a byte nor shuts the stream down. -/
def Obs.mild (o : Obs) : Prop := o.acceptedBytes = [] ∧ o.isShutdown = false

structure Continues (c d : Cfg σ) : Prop where
  log : c.log <+: d.log
  weof : c.tr.weof = true → d.tr.weof = true
  accepts : c.tr.weof = true → d.acceptedBytes = c.acceptedBytes
  drained : c.tr.weof = true → c.tr.state.writeBuf = [] → d.tr.state.writeBuf = []
  shut : d.shut = true → c.shut = true ∨ d.tr.weof = true ∧ d.tr.state.writeBuf = []

theorem Continues.trans {b c d : Cfg σ} (first : Continues b c) (second : Continues c d) :
    Continues b d where
  log := first.log.trans second.log
  weof h := second.weof (first.weof h)
  accepts h := (second.accepts (first.weof h)).trans (first.accepts h)
  drained h empty := second.drained (first.weof h) (first.drained h empty)
  shut h := by
    rcases second.shut h with before | ended
    · exact (first.shut before).imp_right fun ⟨weof, empty⟩ =>
        ⟨second.weof weof, second.drained weof empty⟩
    · exact .inr ended

theorem shut_append {c d : Cfg σ} {obs : List Obs} (log : d.log = c.log ++ obs)
    (going : ∀ o ∈ obs, o.isShutdown = false) : d.shut = c.shut := by
  have none : obs.any Obs.isShutdown = false :=
    List.any_eq_false.mpr fun o member => Bool.eq_false_iff.mp (going o member)
  rw [Cfg.shut, log, List.any_append, none, Bool.or_false]
  rfl

theorem accepted_append {c d : Cfg σ} (obs : List Obs) (log : d.log = c.log ++ obs)
    (none : ∀ o ∈ obs, o.acceptedBytes = []) : d.acceptedBytes = c.acceptedBytes := by
  rw [Cfg.acceptedBytes, log, List.flatMap_append, List.flatMap_eq_nil_iff.mpr none,
    List.append_nil]
  rfl

theorem Continues.logs {c d : Cfg σ} (obs : List Obs) (log : d.log = c.log ++ obs)
    (mild : ∀ o ∈ obs, o.mild) (weof : c.tr.weof = true → d.tr.weof = true)
    (drained : c.tr.weof = true → c.tr.state.writeBuf = [] → d.tr.state.writeBuf = []) :
    Continues c d where
  log := ⟨obs, log.symm⟩
  weof := weof
  accepts _ := accepted_append obs log fun o member => (mild o member).1
  drained := drained
  shut h := .inl ((shut_append log fun o member => (mild o member).2) ▸ h)

theorem Continues.same {c d : Cfg σ} (log : d.log = c.log)
    (weof : c.tr.weof = true → d.tr.weof = true) (buf : d.tr.state.writeBuf = c.tr.state.writeBuf) :
    Continues c d :=
  .logs [] (log.trans (List.append_nil _).symm) (List.forall_mem_nil _) weof fun _ empty =>
    buf.trans empty

theorem Continues.refl (c : Cfg σ) : Continues c c := .same rfl id rfl

theorem Continues.emit (c : Cfg σ) {o : Obs} (mild : o.mild) : Continues c (c.emit o) :=
  .logs [o] rfl (List.forall_mem_singleton.mpr mild) id fun _ => id

theorem Continues.call (c : Cfg σ) (e : Callback) (frame : Frame) : Continues c (c.call e frame) :=
  .logs [.callback e c.tr.state.writeBuf] rfl (List.forall_mem_singleton.mpr ⟨rfl, rfl⟩) id fun _ =>
    id

/-- Before `write_eof` data may be accepted. -/
theorem Continues.opened {c d : Cfg σ} (obs : List Obs) (log : d.log = c.log ++ obs)
    (weof : c.tr.weof = false) (going : ∀ o ∈ obs, o.isShutdown = false) : Continues c d where
  log := ⟨obs, log.symm⟩
  weof h := absurd h (Bool.eq_false_iff.mp weof)
  accepts h := absurd h (Bool.eq_false_iff.mp weof)
  drained h := absurd h (Bool.eq_false_iff.mp weof)
  shut h := .inl (shut_append log going ▸ h)

theorem Continues.shutdown {c : Cfg σ} (weof : c.tr.weof = true)
    (empty : c.tr.state.writeBuf = []) : Continues c c.shutdownWrite where
  log := List.prefix_append _ _
  weof _ := weof
  accepts _ := accepted_append [.shutdown c.tr.state.writeBuf] rfl
      (List.forall_mem_singleton.mpr rfl)
  drained _ := id
  shut _ := .inr ⟨weof, empty⟩

theorem unlist_continues (c : Cfg σ) : Continues c c.unlist := by
  unfold Cfg.unlist
  split_ifs
  · exact .same rfl id rfl
  · exact .refl c

theorem close_continues {c : Cfg σ} (plain : c.tr.state.tlsConn = none)
    (env : Env) : Continues c (close R c env) := by
  have same : c.setClosing.tr.state.tlsConn = none := plain
  simp only [close, same, closePlain]
  split_ifs
  · exact .refl c
  · exact .same rfl id rfl
  · exact Continues.trans (c := (c.setClosing.streamRem .readable).streamRem .writable)
      (.same rfl id rfl) (.call _ _ _)
  · exact .same rfl id rfl

theorem tcpStreamClose_continues {c : Cfg σ} (plain : c.tr.state.tlsConn = none) (held : Bool)
    (env : Env) : Continues c (tcpStreamClose R c held env) := by
  have unbound : Continues c c.unbind := .same rfl id rfl
  have same : c.unbind.tr.state.tlsConn = none := plain
  simp only [tcpStreamClose, same, Option.isSome_none, Bool.false_eq_true, if_false]
  split_ifs
  · exact .same rfl id rfl
  · exact unbound
  · exact unbound.trans (unlist_continues _)
  · exact .refl c

theorem abort_continues (c : Cfg σ) : Continues c (abort c) := by
  have ended : ∀ d : Cfg σ, d.log = c.log → d.tr.weof = c.tr.weof → d.tr.state = c.tr.state →
      Continues c (callConnLost d none .callConnLost) := fun d log weof state =>
    Continues.trans (c := d) (.same log (fun h => weof.trans h) (congrArg (·.writeBuf) state))
      (.call _ _ _)
  simp only [abort]
  split_ifs
  · exact .same rfl id rfl
  all_goals exact ended _ rfl rfl rfl

theorem pushBack_log (c : Cfg σ) (data : Bytes) :
    ∃ obs, (pushBack c data).log = c.log ++ obs ∧ ∀ o ∈ obs, o.isShutdown = false := by
  apply pushBack_rule (P := fun d => ∃ obs, d.log = c.log ++ obs ∧ ∀ o ∈ obs, o.isShutdown = false)
  · intro paused
    refine ⟨[], ?_, List.forall_mem_nil _⟩
    simp only [grow, List.append_nil]
    split_ifs <;> rfl
  · rintro d ⟨obs, log, going⟩
    refine ⟨obs ++ [.callback .pauseWriting d.tr.state.writeBuf], ?_,
      List.forall_mem_append.mpr ⟨going, ?_⟩⟩
    · rw [Cfg.call, Cfg.emit, log, List.append_assoc]
    · exact List.forall_mem_singleton.mpr rfl

theorem tryWrite_continues (c : Cfg σ) (data : Bytes)
    (env : Env) : Continues c (tryWrite c data env) := by
  have pushed : ∀ (seen : List Obs) (rest : Bytes), c.tr.weof = false →
    (∀ o ∈ seen, o.isShutdown = false) →
      Continues c (pushBack { c with log := c.log ++ seen } rest) := by
    intro seen rest weof going
    obtain ⟨more, log, after⟩ := pushBack_log { c with log := c.log ++ seen } rest
    refine .opened (seen ++ more) ?_ weof (List.forall_mem_append.mpr ⟨going, after⟩)
    rw [log, List.append_assoc]
  have offered : ∀ o ∈ [Obs.accepted data], o.isShutdown = false :=
    List.forall_mem_singleton.mpr rfl
  have written : ∀ o ∈ [Obs.accepted data, Obs.write data env.nextWrite], o.isShutdown = false :=
    List.forall_mem_cons.mpr ⟨rfl, List.forall_mem_singleton.mpr rfl⟩
  have twice : ((c.emit (.accepted data)).emit (.write data env.nextWrite)) =
      { c with log := c.log ++ [.accepted data, .write data env.nextWrite] } := by
    simp only [Cfg.emit, List.append_assoc, List.singleton_append]
  simp only [tryWrite]
  split_ifs with weof
  · exact .emit c ⟨rfl, rfl⟩
  · exact .refl c
  · exact .same rfl id rfl
  all_goals have weof := Bool.eq_false_iff.mpr weof
  · exact pushed [.accepted data] data weof offered
  · simp only [directWrite, twice]
    split
    · split_ifs
      · exact .opened _ rfl weof written
      · exact pushed _ _ weof written
    · exact pushed _ _ weof written
    · exact pushed _ _ weof written
    · refine Continues.trans (c := { c with
        log := c.log ++ [.accepted data, .write data env.nextWrite] })
        (.opened _ rfl weof written) ?_
      split_ifs
      · exact .call _ _ _
      · exact Continues.trans (c := Cfg.streamRem (Cfg.setClosing { c with
          log := c.log ++ [.accepted data, .write data env.nextWrite] }) .readable)
              (.same rfl id rfl) (.call _ _ _)
  · exact pushed [.accepted data] data weof offered

theorem writeEof_continues {c : Cfg σ} (h : Intact c) : Continues c (writeEof c) := by
  have marked : Continues c { c with tr := { c.tr with weof := true } } :=
    .same rfl (fun _ => rfl) rfl
  simp only [writeEof]
  split_ifs with _ _ _ none
  · exact .refl c
  · exact .refl c
  · exact .same rfl (fun _ => rfl) rfl
  · exact marked.trans (.shutdown rfl (h.empty_iff.mp none))
  · exact marked

theorem method_continues {c : Cfg σ} (h : Intact c) (env : Env)
    (m : Method) : Continues c (m.run R c env) := by
  have read : Continues c (readState c) := by
    unfold readState
    split_ifs
    · exact .same rfl id rfl
    · exact .refl c
  cases m with
  | write data => exact tryWrite_continues c data env
  | writelines data => exact tryWrite_continues c data.flatten env
  | writeEof => exact writeEof_continues h
  | close => exact close_continues h.plain env
  | abort => exact abort_continues c
  | pauseReading =>
      simp only [Method.run, pauseReading]
      split_ifs
      · exact .refl c
      · exact .refl c
      · exact .same rfl id rfl
  | resumeReading =>
      simp only [Method.run, resumeReading]
      split_ifs
      · exact .refl c
      · exact .same rfl id rfl
      · exact .refl c
  | setWriteBufferLimits high low =>
      simp only [Method.run, setWriteBufferLimits]
      split_ifs
      · exact .emit c ⟨rfl, rfl⟩
      · exact .same rfl id rfl
      · exact Continues.trans (c := { c with tr := { c.tr with
          waterHi := (bufferLimits high low).1
          waterLo := (bufferLimits high low).2
          protoPaused := true } }) (.same rfl id rfl) (.call _ _ _)
      · exact .same rfl id rfl
  | isTls | getWriteBufferSize => exact read
  | callConnectionLost => exact .call c _ _

theorem received_continues (c : Cfg σ) (data : Option Bytes)
    (eof : Bool) : Continues c (received (c, data, eof)) := by
  cases data with
  | some data => exact .call c _ _
  | none =>
      cases eof with
      | true => exact Continues.trans (c := c.streamRem .readable) (.same rfl id rfl) (.call _ _ _)
      | false => exact .refl c

theorem readRound_continues {c : Cfg σ} (plain : c.tr.state.tlsConn = none) (env : Env) :
    Continues c (readRound R c env) := by
  simp only [readRound]
  split_ifs
  · exact .call c _ _
  · simp only [recvDirect, plain]
    exact (Continues.emit c ⟨rfl, rfl⟩).trans (received_continues _ _ _)

theorem eofReceived_continues {c : Cfg σ} (plain : c.tr.state.tlsConn = none) (truthy : Bool)
    (env : Env) : Continues c (eofReceived R c truthy env) := by
  have same : c.setClosing.tr.state.tlsConn = none := plain
  simp only [eofReceived, closeFromReadHandle, plain, same, Option.isSome_none, Bool.false_eq_true,
    false_and, if_false]
  split_ifs
  · exact .refl c
  · exact .refl c
  · exact .same rfl id rfl
  · exact Continues.trans (c := c.setClosing.streamRem .writable) (.same rfl id rfl) (.call _ _ _)

theorem finishWrite_continues {c : Cfg σ} (plain : c.tr.state.tlsConn = none)
    {streamClose : Option Bool} (half : streamClose = some false → c.tr.weof = true ∧
      c.tr.state.writeBuf = []) (env : Env) :
    Continues c (finishWrite R c streamClose env) := by
  have settled : ∃ d, (if c.tr.state.writeBuf = [] then c.streamRem .writable else c) = d ∧
    Continues c d ∧
      d.tr = c.tr := by
    split_ifs
    · exact ⟨_, rfl, .same rfl id rfl, rfl⟩
    · exact ⟨_, rfl, .refl c, rfl⟩
  obtain ⟨d, made, first, tr⟩ := settled
  simp only [finishWrite, made]
  cases streamClose with
  | none => exact first
  | some stop =>
      cases stop with
      | true => exact first.trans (tcpStreamClose_continues (tr ▸ plain) _ env)
      | false =>
          obtain ⟨weof, empty⟩ := half rfl
          exact first.trans (.shutdown (tr ▸ weof) (tr ▸ empty))

theorem afterWrite_continues {c : Cfg σ} (plain : c.tr.state.tlsConn = none) (env : Env) :
    Continues c (afterWrite R c env) := by
  simp only [afterWrite, plain, closeFromWriteHandle, Bool.false_eq_true, if_false]
  split_ifs with empty _ _ weof
  · exact finishWrite_continues plain (by simp) env
  · exact .call c _ _
  · exact finishWrite_continues plain (fun _ => ⟨weof, empty⟩) env
  · exact finishWrite_continues plain (by simp) env
  · exact finishWrite_continues plain (by simp) env

theorem writePlain_continues {c : Cfg σ} (env : Env) : Continues c (writePlain c env).1 := by
  have silent : ∀ o ∈ (writeLoop env.writes c.tr.state.writeBuf).2.2, o.mild := by
    generalize c.tr.state.writeBuf = buf
    generalize env.writes = results
    fun_induction writeLoop results buf with
    | case1 => exact List.forall_mem_nil _
    | case2 | case3 | case6 | case7 => exact List.forall_mem_singleton.mpr ⟨rfl, rfl⟩
    | case4 n results data buf whole left ret obs hloop ih
    | case5 results data buf left ret obs hloop ih =>
        rw [hloop] at ih
        exact List.forall_mem_cons.mpr ⟨⟨rfl, rfl⟩, ih⟩
  exact .logs _ rfl silent id fun _ => (writePlain_untouched c env).empty

theorem writeHandleRun_continues {c : Cfg σ} (h : Intact c) {env : Env}
    (alive : ∀ r ∈ env.writes, r.isFatal = false) : Continues c (writeHandleRun R c env) := by
  have noTimeout : closeTimedOut c.tr.state env.now = false := by
    simp [closeTimedOut, h.plain]
  have wrote := writePlain_continues (c := c) env
  obtain ⟨n, some, after⟩ := h.writePlain alive
  simp only [writeHandleRun, noTimeout, Bool.false_eq_true, if_false, h.plain]
  generalize writePlain c env = result at wrote some after
  obtain ⟨d, ret⟩ := result
  cases some
  simp only [written]
  split_ifs
  · exact wrote.trans (Continues.trans (c := { d with tr := { d.tr with protoPaused := false } })
      (.same rfl id rfl) (.call _ _ _))
  · exact wrote.trans (afterWrite_continues after.plain env)

theorem after_continues {c : Cfg σ} (plain : c.tr.state.tlsConn = none) (frame : Frame) (r : Ret)
    (env : Env) : Continues c (frame.after R c r env) := by
  cases frame with
  | attach =>
      simp only [Frame.after, register]
      split_ifs
      · exact .refl c
      · exact .same rfl id rfl
  | connectionMade | pause => exact .refl c
  | getBuffer =>
      cases r with
      | buffer size => exact (Continues.emit c ⟨rfl, rfl⟩).trans (received_continues _ _ _)
      | falsy | truthy | raised => exact .same rfl id rfl
  | data ended =>
      cases ended with
      | true => exact received_continues c none true
      | false => exact readRound_continues plain env
  | eof => exact eofReceived_continues plain _ env
  | lost k =>
      cases k with
      | writeHandle =>
          have half : some true = some false → c.tr.weof = true ∧ c.tr.state.writeBuf = [] :=
            fun h => by cases h
          exact finishWrite_continues plain half env
      | callConnLost | tryWrite | recvEof | readHandle => exact tcpStreamClose_continues plain _ env
  | resume => exact afterWrite_continues plain env

theorem step_continues {c d : Cfg σ} {a : Act × Env} (h : Intact c) (undisturbed : Undisturbed a)
    (one : step R c a = some d) : Continues c d := by
  obtain ⟨act, env⟩ := a
  cases (step_stepped one).2 with
  | call m => exact method_continues h env m
  | server aborts => exact method_continues h env _
  | ret r frame stack =>
      have popped : Continues c { c with stack := stack } := .same rfl id rfl
      have same : Intact { c with stack := stack } := h.of_eq rfl rfl
      exact popped.trans (after_continues same.plain frame r env)
  | poll => exact .same rfl id rfl
  | fire dir =>
      have taken : Continues c { c with tables := { c.tables with event := none } } :=
        .same rfl id rfl
      have same : Intact { c with tables := { c.tables with event := none } } := h.of_eq rfl rfl
      simp only [fire]
      split_ifs
      · cases dir with
        | readable => exact taken.trans (readRound_continues same.plain env)
        | writable => exact taken.trans (writeHandleRun_continues same undisturbed.1)
      · exact taken
  | made =>
      exact Continues.trans (c := { c with
        tables := { c.tables with pendingMade := false }, exposed := true })
        (.same rfl id rfl) (.call _ _ _)

theorem kernelBytes_grow {c d : Cfg σ} (h : Continues c d) : c.kernelBytes <+: d.kernelBytes := by
  obtain ⟨obs, log⟩ := h.log
  rw [Cfg.kernelBytes, Cfg.kernelBytes, ← log, List.flatMap_append]
  exact List.prefix_append _ _

/-- A stream that was shut down, with all that was accepted before. -/
def Finished (c : Cfg σ) : Prop := c.shut = true → c.tr.weof = true ∧ c.tr.state.writeBuf = []

theorem Continues.finished {c d : Cfg σ} (h : Continues c d) (finished : Finished c) : Finished d :=
  fun shut =>
  (h.shut shut).elim
    (fun before => ⟨h.weof (finished before).1, h.drained (finished before).1 (finished before).2⟩)
    id

theorem Intact.sent {c : Cfg σ} (h : Intact c) (empty : c.tr.state.writeBuf = []) :
    c.kernelBytes = c.acceptedBytes := by
  have balanced : c.kernelBytes ++ c.tr.state.writeBuf.flatten = c.acceptedBytes := h.balanced
  rwa [empty, List.flatten_nil, List.append_nil] at balanced

/-- Nothing is written to a stream that was shut down. -/
theorem Continues.silent {c d : Cfg σ} (h : Continues c d) (before : Intact c) (after : Intact d)
    (finished : Finished c) (shut : c.shut = true) : d.kernelBytes = c.kernelBytes := by
  obtain ⟨weof, empty⟩ := finished shut
  rw [before.sent empty, after.sent (h.drained weof empty), h.accepts weof]

end TokioLoop.Tcp
