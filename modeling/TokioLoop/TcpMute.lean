import TokioLoop.TcpFrames

/-!
The code that does not read: the methods, the write handle and the ends of both handles
call neither `data_received` nor `eof_received`. What they do to a TLS connection is left
to a relation that its writing operations respect.
-/
namespace TokioLoop.Tcp

variable {σ : Type} {R : Rustls σ}

def Callback.payload : Callback → Bytes
  | .dataReceived data => data
  | _ => []

/-- The bytes given to `data_received`. -/
def Cfg.delivered (c : Cfg σ) : Bytes := c.callbacks.flatMap Callback.payload

/-- The callbacks that need an open connection. -/
def Callback.inbound : Callback → Bool
  | .dataReceived _ | .eofReceived => true
  | _ => false

def Frame.inbound : Frame → Bool
  | .getBuffer | .data _ | .eof => true
  | _ => false

theorem delivered_append {c d : Cfg σ} {more : List Callback}
    (h : d.callbacks = c.callbacks ++ more) :
    d.delivered = c.delivered ++ more.flatMap Callback.payload := by
  rw [Cfg.delivered, h, List.flatMap_append]
  rfl

theorem payload_of_quiet {e : Callback} (quiet : e.inbound = false) : e.payload = [] := by
  cases e with
  | dataReceived data => cases quiet
  | _ => rfl

/-- What writing keeps of a connection. -/
structure Conserving (R : Rustls σ) where
  rel : σ → σ → Prop
  refl : ∀ conn, rel conn conn
  trans : ∀ {a b c}, rel a b → rel b c → rel a c
  write : ∀ conn data, rel conn (R.write conn data).1
  writeTls : ∀ conn, rel conn (R.writeTls conn).1
  closeNotify : ∀ conn, rel conn (R.sendCloseNotify conn)

/-- Nothing is asked of the connection. -/
def Conserving.any (R : Rustls σ) : Conserving R where
  rel _ _ := True
  refl _ := trivial
  trans _ _ := trivial
  write _ _ := trivial
  writeTls _ := trivial
  closeNotify _ := trivial

/-- The code calls neither `data_received` nor `eof_received` nor `connection_made`, and
leaves the handshake and the kind of the protocol alone. -/
structure Mute (K : Conserving R) (c d : Cfg σ) : Prop where
  conn : Option.Rel K.rel c.tr.state.tlsConn d.tr.state.tlsConn
  buffered : d.tr.protoBuffered = c.tr.protoBuffered
  handshake : d.tr.state.handshakeComplete = c.tr.state.handshakeComplete
  pending : d.tables.pendingMade = c.tables.pendingMade
  calls : ∃ more, d.callbacks = c.callbacks ++ more ∧ ∀ e ∈ more, e.inbound = false ∧
      e ≠ .connectionMade
  frames : ∀ frame ∈ d.stack, frame.inbound = true → frame ∈ c.stack

theorem Conserving.rel_refl (K : Conserving R) (conn : Option σ) : Option.Rel K.rel conn conn := by
  cases conn with
  | none => exact .none
  | some conn => exact .some (K.refl conn)

theorem Mute.tls {K : Conserving R} {c d : Cfg σ} (h : Mute K c d) :
    d.tr.state.tlsConn.isSome = c.tr.state.tlsConn.isSome := by
  have conn := h.conn
  revert conn
  generalize c.tr.state.tlsConn = before
  generalize d.tr.state.tlsConn = after
  rintro (one | _) <;> rfl

theorem Mute.trans {K : Conserving R} {b c d : Cfg σ} (first : Mute K b c) (second : Mute K c d) :
    Mute K b d := by
  obtain ⟨more, hmore, quiet⟩ := first.calls
  obtain ⟨rest, hrest, calm⟩ := second.calls
  refine ⟨?_, second.buffered.trans first.buffered, second.handshake.trans first.handshake,
    second.pending.trans first.pending, ⟨more ++ rest, by rw [hrest, hmore, List.append_assoc], ?_⟩,
    ?_⟩
  · have before := first.conn
    have after := second.conn
    revert before after
    generalize b.tr.state.tlsConn = x
    generalize c.tr.state.tlsConn = y
    generalize d.tr.state.tlsConn = z
    rintro (one | _) (two | _)
    · exact .some (K.trans one two)
    · exact .none
  · exact fun e he => (List.mem_append.mp he).elim (quiet e) (calm e)
  · exact fun frame hd inbound => first.frames frame (second.frames frame hd inbound) inbound

/-- Code that does not touch the connection, the handshake or the log. -/
theorem Mute.same {K : Conserving R} {c d : Cfg σ} (conn : d.tr.state.tlsConn = c.tr.state.tlsConn)
    (buffered : d.tr.protoBuffered = c.tr.protoBuffered)
    (handshake : d.tr.state.handshakeComplete = c.tr.state.handshakeComplete)
    (pending : d.tables.pendingMade = c.tables.pendingMade) (log : d.log = c.log)
    (stack : d.stack = c.stack) : Mute K c d where
  conn := conn ▸ K.rel_refl _
  buffered := buffered
  handshake := handshake
  pending := pending
  calls := ⟨[], by rw [Cfg.callbacks, log, List.append_nil]; rfl, List.forall_mem_nil _⟩
  frames frame h _ := stack ▸ h

theorem Mute.refl (K : Conserving R) (c : Cfg σ) : Mute K c c := .same rfl rfl rfl rfl rfl rfl

theorem Mute.emit (K : Conserving R) (c : Cfg σ) {o : Obs} (mute : o.asCallback = none) :
    Mute K c (c.emit o) :=
  { Mute.refl K c with
    calls := ⟨[], by rw [callbacks_append rfl (List.forall_mem_singleton.mpr mute),
        List.append_nil],
      List.forall_mem_nil _⟩ }

theorem callbacks_call (c : Cfg σ) (e : Callback) (frame : Frame) :
    (c.call e frame).callbacks = c.callbacks ++ [e] := by
  rw [Cfg.callbacks, Cfg.call, Cfg.emit, List.filterMap_append]
  rfl

theorem Mute.call (K : Conserving R) (c : Cfg σ) {e : Callback} {frame : Frame}
    (quiet : e.inbound = false) (later : e ≠ .connectionMade) (other : frame.inbound = false) :
    Mute K c (c.call e frame) :=
  { Mute.refl K c with
    calls := ⟨[e], callbacks_call c e frame, List.forall_mem_singleton.mpr ⟨quiet, later⟩⟩
    frames := fun top htop inbound => (List.mem_cons.mp htop).resolve_left fun same => by
      rw [same, other] at inbound
      cases inbound }

/-- The connection itself takes a step. -/
theorem Mute.step {K : Conserving R} {c d : Cfg σ} {before after : σ}
    (hc : c.tr.state.tlsConn = some before) (hd : d.tr.state.tlsConn = some after)
    (rel : K.rel before after) (buffered : d.tr.protoBuffered = c.tr.protoBuffered)
    (handshake : d.tr.state.handshakeComplete = c.tr.state.handshakeComplete)
    (pending : d.tables.pendingMade = c.tables.pendingMade) (callbacks : d.callbacks = c.callbacks)
    (stack : d.stack = c.stack) : Mute K c d where
  conn := by
    rw [hc, hd]
    exact .some rel
  buffered := buffered
  handshake := handshake
  pending := pending
  calls := ⟨[], by rw [callbacks, List.append_nil], List.forall_mem_nil _⟩
  frames frame h _ := stack ▸ h

theorem closeAlert_mute (K : Conserving R) {c : Cfg σ} {conn : σ}
    (h : c.tr.state.tlsConn = some conn) (env : Env) : Mute K c (closeAlert R c conn env) :=
  .step h rfl (K.trans (K.closeNotify conn) (K.writeTls _)) rfl rfl rfl
    (callbacks_append rfl (List.forall_mem_singleton.mpr rfl)) rfl

theorem close_mute (K : Conserving R) (c : Cfg σ) (env : Env) : Mute K c (close R c env) := by
  have closed : Mute K c c.setClosing := .same rfl rfl rfl rfl rfl rfl
  simp only [close]
  split_ifs
  · exact .refl K c
  · exact .same rfl rfl rfl rfl rfl rfl
  · split
    next conn hconn =>
      simp only [closeTls]
      split_ifs
      · exact .same rfl rfl rfl rfl rfl rfl
      · exact closed.trans ((closeAlert_mute K hconn env).trans (.same rfl rfl rfl rfl rfl rfl))
      · exact closed.trans ((closeAlert_mute K hconn env).trans (.same rfl rfl rfl rfl rfl rfl))
    next hconn =>
      simp only [closePlain]
      split_ifs
      · exact Mute.trans (c := (c.setClosing.streamRem .readable).streamRem .writable)
          (.same rfl rfl rfl rfl rfl rfl) (.call K _ rfl Callback.noConfusion rfl)
      · exact .same rfl rfl rfl rfl rfl rfl

theorem unlist_mute (K : Conserving R) (c : Cfg σ) : Mute K c c.unlist := by
  unfold Cfg.unlist
  split_ifs
  · exact .same rfl rfl rfl rfl rfl rfl
  · exact .refl K c

theorem tcpStreamClose_mute (K : Conserving R) (c : Cfg σ) (held : Bool) (env : Env) :
    Mute K c (tcpStreamClose R c held env) := by
  have unbound : Mute K c c.unbind := .same rfl rfl rfl rfl rfl rfl
  simp only [tcpStreamClose]
  split_ifs
  · exact .same rfl rfl rfl rfl rfl rfl
  · exact unbound.trans (close_mute K _ env)
  · exact unbound.trans ((close_mute K _ env).trans (unlist_mute K _))
  · exact unbound
  · exact unbound.trans (unlist_mute K _)
  · exact .refl K c

theorem pushBack_mute (K : Conserving R) (c : Cfg σ)
    (data : Bytes) : Mute K c (pushBack c data) := by
  apply pushBack_rule
  · intro paused
    simp only [grow]
    split_ifs <;> exact .same rfl rfl rfl rfl rfl rfl
  · intro d grown
    exact grown.trans (.call K _ rfl Callback.noConfusion rfl)

theorem tryWrite_mute (K : Conserving R) (c : Cfg σ) (data : Bytes)
    (env : Env) : Mute K c (tryWrite c data env) := by
  have offered : Mute K c (c.emit (.accepted data)) := .emit K c rfl
  have wrote : Mute K c ((c.emit (.accepted data)).emit (.write data env.nextWrite)) :=
    offered.trans (.emit K _ rfl)
  simp only [tryWrite]
  split_ifs
  · exact .emit K c rfl
  · exact .refl K c
  · exact .same rfl rfl rfl rfl rfl rfl
  · exact offered.trans (pushBack_mute K _ _)
  · simp only [directWrite]
    split
    · split_ifs
      · exact wrote
      · exact wrote.trans (pushBack_mute K _ _)
    · exact wrote.trans (pushBack_mute K _ _)
    · exact wrote.trans (pushBack_mute K _ _)
    · split_ifs
      · exact wrote.trans (.call K _ rfl Callback.noConfusion rfl)
      · exact wrote.trans (Mute.trans
          (c := ((c.emit (.accepted data)).emit (.write data env.nextWrite)).setClosing.streamRem
            .readable)
          (.same rfl rfl rfl rfl rfl rfl) (.call K _ rfl Callback.noConfusion rfl))
  · exact offered.trans (pushBack_mute K _ _)

theorem Tuned.mute (K : Conserving R) {c d : Cfg σ} (h : Tuned c d) : Mute K c d := by
  cases h with
  | unchanged | set | borrowed | pauseReading | resumeReading => exact .same rfl rfl rfl rfl rfl rfl
  | raised => exact .emit K c rfl
  | shutdown =>
      exact Mute.trans (c := { c with tr := { c.tr with weof := true } })
        (.same rfl rfl rfl rfl rfl rfl) (.emit K _ rfl)
  | pauseWriting waterHi waterLo =>
      exact Mute.trans (c := { c with tr := { c.tr with
        waterHi := waterHi
        waterLo := waterLo
        protoPaused := true } }) (.same rfl rfl rfl rfl rfl rfl)
            (.call K _ rfl Callback.noConfusion rfl)

theorem method_mute (K : Conserving R) (c : Cfg σ) (env : Env)
    (m : Method) : Mute K c (m.run R c env) := by
  cases m with
  | write data => exact tryWrite_mute K c data env
  | writelines data => exact tryWrite_mute K c data.flatten env
  | close => exact close_mute K c env
  | abort =>
      simp only [Method.run, abort]
      split_ifs
      · exact .same rfl rfl rfl rfl rfl rfl
      · exact Mute.trans (c := c.streamRem .writable) (.same rfl rfl rfl rfl rfl rfl)
          (.call K _ rfl Callback.noConfusion rfl)
      · exact Mute.trans (c := (c.streamRem .writable).setClosing.streamRem .readable)
          (.same rfl rfl rfl rfl rfl rfl) (.call K _ rfl Callback.noConfusion rfl)
      · exact .call K _ rfl Callback.noConfusion rfl
      · exact Mute.trans (c := c.setClosing.streamRem .readable) (.same rfl rfl rfl rfl rfl rfl)
          (.call K _ rfl Callback.noConfusion rfl)
  | callConnectionLost => exact .call K c rfl Callback.noConfusion rfl
  | writeEof | pauseReading | resumeReading | setWriteBufferLimits | isTls | getWriteBufferSize =>
      exact (Method.tuned rfl c env).mute K

theorem writeAll_rel (K : Conserving R) (fuel : Nat) (conn : σ) (data : Bytes) :
    K.rel conn (writeAll R fuel conn data).1 := by
  fun_induction writeAll R fuel conn data with
  | case1 | case2 => exact K.refl _
  | case3 fuel conn b data conn' hwrite | case4 fuel conn b data conn' hwrite =>
      have wrote := K.write conn (b :: data)
      rw [hwrite] at wrote
      exact wrote
  | case5 fuel conn b data conn' n hwrite conn'' taken ok hall ih =>
      have wrote := K.write conn (b :: data)
      rw [hwrite] at wrote
      rw [hall] at ih
      exact K.trans wrote ih

theorem encryptLoop_rel (K : Conserving R) (conn : σ) (buf : List Bytes) :
    K.rel conn (encryptLoop R conn buf).1 := by
  induction buf generalizing conn with
  | nil => exact K.refl _
  | cons data buf ih =>
      have wrote := writeAll_rel K data.length conn data
      simp only [encryptLoop]
      split
      next conn' taken hall =>
        rw [hall] at wrote
        exact wrote
      next conn' taken hall =>
        rw [hall] at wrote
        exact K.trans wrote (ih conn')

theorem writeTls_mute (K : Conserving R) {c : Cfg σ} {conn : σ} (h : c.tr.state.tlsConn = some conn)
    (env : Env) : Mute K c (writeTls R c conn env).1 := by
  refine writeTls_rel .trans (fun c conn env h => ?_) (fun c conn _ _ _ _ _ h hloop => ?_) h env
  · exact .step h rfl (K.writeTls conn) rfl rfl rfl
      (callbacks_append rfl (List.forall_mem_singleton.mpr rfl)) rfl
  · have silent := encryptLoop_silent (R := R) conn c.tr.state.writeBuf
    have rel := encryptLoop_rel K conn c.tr.state.writeBuf
    rw [hloop] at silent rel
    exact .step h rfl rel rfl rfl rfl (callbacks_append rfl silent) rfl

theorem finishWrite_mute (K : Conserving R) (c : Cfg σ) (streamClose : Option Bool) (env : Env) :
    Mute K c (finishWrite R c streamClose env) := by
  have drained : Mute K c (if c.tr.state.writeBuf = [] then c.streamRem .writable else c) := by
    split_ifs
    · exact .same rfl rfl rfl rfl rfl rfl
    · exact .refl K c
  simp only [finishWrite]
  split
  · exact drained.trans (tcpStreamClose_mute K _ _ env)
  · exact drained.trans (.emit K _ rfl)
  · exact drained

theorem closeFromWriteHandle_mute (K : Conserving R) (c : Cfg σ) (errored : Bool) (env : Env) :
    Mute K c (closeFromWriteHandle R c errored env) := by
  simp only [closeFromWriteHandle]
  split
  · exact .call K c rfl Callback.noConfusion rfl
  · exact finishWrite_mute K c _ env

theorem afterWrite_mute (K : Conserving R) (c : Cfg σ)
    (env : Env) : Mute K c (afterWrite R c env) := by
  simp only [afterWrite]
  split_ifs
  · split
    next conn hconn =>
      refine (closeAlert_mute K hconn env).trans (Mute.trans ?_ (finishWrite_mute K _ _ _))
      exact .same rfl rfl rfl rfl rfl rfl
    · exact finishWrite_mute K c _ env
  · exact closeFromWriteHandle_mute K c _ env
  · exact finishWrite_mute K c _ env

theorem written_mute (K : Conserving R) (c : Cfg σ) (n : Nat)
    (env : Env) : Mute K c (written R c n env) := by
  simp only [written]
  split_ifs
  · exact Mute.trans (c := { c with tr := { c.tr with protoPaused := false } })
      (.same rfl rfl rfl rfl rfl rfl) (.call K _ rfl Callback.noConfusion rfl)
  · exact afterWrite_mute K c env

theorem writePlain_mute (K : Conserving R) (c : Cfg σ)
    (env : Env) : Mute K c (writePlain c env).1 :=
  { Mute.refl K c with
    calls := ⟨[], by rw [(writePlain_untouched c env).callbacks, List.append_nil],
        List.forall_mem_nil _⟩ }

theorem writeHandleRun_mute (K : Conserving R) (c : Cfg σ)
    (env : Env) : Mute K c (writeHandleRun R c env) := by
  simp only [writeHandleRun]
  split_ifs
  · exact Mute.trans (c := (c.streamRem .readable).streamRem .writable)
      (.same rfl rfl rfl rfl rfl rfl) (.call K _ rfl Callback.noConfusion rfl)
  · split
    next conn hconn =>
      have wrote := writeTls_mute K hconn env
      split
      next hwrite =>
        rw [hwrite] at wrote
        exact wrote.trans (written_mute K _ _ _)
      next hwrite =>
        rw [hwrite] at wrote
        exact wrote.trans (closeFromWriteHandle_mute K _ _ _)
    · have wrote := writePlain_mute K c env
      split
      next hwrite =>
        rw [hwrite] at wrote
        exact wrote.trans (written_mute K _ _ _)
      next hwrite =>
        rw [hwrite] at wrote
        exact wrote.trans (closeFromWriteHandle_mute K _ _ _)

theorem eofReceived_mute (K : Conserving R) (c : Cfg σ) (truthy : Bool) (env : Env) :
    Mute K c (eofReceived R c truthy env) := by
  have closed : Mute K c c.setClosing := .same rfl rfl rfl rfl rfl rfl
  simp only [eofReceived, closeFromReadHandle]
  split_ifs
  · exact .refl K c
  · exact .call K c rfl Callback.noConfusion rfl
  · exact .refl K c
  · exact closed.trans ((close_mute K _ env).trans (tcpStreamClose_mute K _ _ env))
  · exact closed
  · exact Mute.trans (c := c.setClosing.streamRem .writable) (.same rfl rfl rfl rfl rfl rfl)
      (.call K _ rfl Callback.noConfusion rfl)

end TokioLoop.Tcp
