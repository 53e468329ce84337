import TokioLoop.TcpHandles

/-!
The trace of a TLS transport. What it reads, feeds, encrypts, flushes and buffers is a
sequence of a few kinds of exchange with rustls and the kernel, together with the
queue of chunks that wait for encryption; `Trace` is that abstract machine, and every
step of the transport is a trace of it.
-/
namespace TokioLoop.Tcp

variable {σ : Type} {R : Rustls σ}

/-- Observations without a part in the TLS stream. -/
def Obs.aside : Obs → Bool
  | .callback _ _ | .shutdown _ | .raised _ | .recv _ => true
  | _ => false

/-- Reports of rustls or of a flush, which do not touch the queue. -/
def Obs.report : Obs → Bool
  | .tlsError _ | .closeNotify _ | .flushed _ _ _ _ => true
  | _ => false

/-- `Trace q obs q'`: the observations lead the queue from `q` to `q'`. A chunk is
encrypted from the front of the queue and leaves it only when rustls took all of it;
what one read brings goes to one call of `read_tls`. -/
inductive Trace : List Bytes → List Obs → List Bytes → Prop where
  | nil (q : List Bytes) : Trace q [] q
  | aside {q q' : List Bytes} {o : Obs} {obs : List Obs} : o.aside = true → Trace q obs q' →
      Trace q (o :: obs) q'
  | report {q q' : List Bytes} {o : Obs} {obs : List Obs} : o.report = true → Trace q obs q' →
      Trace q (o :: obs) q'
  | accept {q q' : List Bytes} {data : Bytes} {obs : List Obs} :
      Trace (q ++ [data]) obs q' → Trace q (.accepted data :: obs) q'
  | encrypt {q q' : List Bytes} {data : Bytes} {obs : List Obs} :
      Trace q obs q' → Trace (data :: q) (.encrypted data data true :: obs) q'
  | refuse {q q' : List Bytes} {data taken : Bytes} {obs : List Obs} : taken <+: data →
      Trace (data :: q) obs q' → Trace (data :: q) (.encrypted data taken false :: obs) q'
  | feed {q q' : List Bytes} {bytes : Bytes} {n : Nat} {obs : List Obs} :
      Trace q obs q' → Trace q (.recvTls bytes :: .fed bytes n :: obs) q'
  | unfed {q q' : List Bytes} {bytes : Bytes} {more : Bool} {obs : List Obs} :
      Trace q obs q' → Trace q (.recvTls bytes :: .tlsError more :: obs) q'
  | unread {q q' : List Bytes} {obs : List Obs} : Trace q obs q' → Trace q (.recvTls [] :: obs) q'

theorem Trace.append {q q' q'' : List Bytes} {obs more : List Obs} (first : Trace q obs q')
    (second : Trace q' more q'') : Trace q (obs ++ more) q'' := by
  induction first with
  | nil => exact second
  | aside ho _ ih => exact .aside ho (ih second)
  | report ho _ ih => exact .report ho (ih second)
  | accept _ ih => exact .accept (ih second)
  | encrypt _ ih => exact .encrypt (ih second)
  | refuse part _ ih => exact .refuse part (ih second)
  | feed _ ih => exact .feed (ih second)
  | unfed _ ih => exact .unfed (ih second)
  | unread _ ih => exact .unread (ih second)

/-- `d` is a TLS transport that `c` became by a trace. -/
structure Traced (c d : Cfg σ) : Prop where
  tls : d.tr.state.tlsConn.isSome = true
  trace : ∃ obs, d.log = c.log ++ obs ∧ Trace c.tr.state.writeBuf obs d.tr.state.writeBuf

theorem Traced.trans {c d e : Cfg σ} (first : Traced c d) (second : Traced d e) : Traced c e := by
  obtain ⟨obs, hlog, htrace⟩ := first.trace
  obtain ⟨more, hlog', htrace'⟩ := second.trace
  exact ⟨second.tls, obs ++ more, by rw [hlog', hlog, List.append_assoc], htrace.append htrace'⟩

theorem Traced.same {c d : Cfg σ} (tls : d.tr.state.tlsConn.isSome = true)
    (buf : d.tr.state.writeBuf = c.tr.state.writeBuf) (log : d.log = c.log) : Traced c d :=
  ⟨tls, [], by rw [log, List.append_nil], buf ▸ .nil _⟩

theorem Traced.one {c d : Cfg σ} {o : Obs} (tls : d.tr.state.tlsConn.isSome = true)
    (buf : d.tr.state.writeBuf = c.tr.state.writeBuf) (log : d.log = c.log ++ [o])
    (aside : o.aside = true) : Traced c d :=
  ⟨tls, [o], log, buf ▸ .aside aside (.nil _)⟩

theorem Traced.reported {c d : Cfg σ} {o : Obs} (tls : d.tr.state.tlsConn.isSome = true)
    (buf : d.tr.state.writeBuf = c.tr.state.writeBuf) (log : d.log = c.log ++ [o])
    (report : o.report = true) : Traced c d :=
  ⟨tls, [o], log, buf ▸ .report report (.nil _)⟩

theorem closeAlert_traced (c : Cfg σ) (conn : σ) (env : Env) : Traced c (closeAlert R c conn env) :=
  .reported rfl rfl rfl rfl

theorem close_traced {c : Cfg σ} (tls : c.tr.state.tlsConn.isSome = true) (env : Env) :
    Traced c (close R c env) := by
  obtain ⟨conn, hconn⟩ := Option.isSome_iff_exists.mp tls
  simp only [close]
  split_ifs
  · exact .same tls rfl rfl
  · exact .same tls rfl rfl
  · have same : c.setClosing.tr.state.tlsConn = some conn := hconn
    rw [same]
    have closing : Traced c c.setClosing := .same tls rfl rfl
    have alert := closing.trans (closeAlert_traced (R := R) c.setClosing conn env)
    simp only [closeTls]
    split_ifs
    · exact closing.trans (.same tls rfl rfl)
    · exact alert.trans (.same alert.tls rfl rfl)
    · exact alert.trans (.same alert.tls rfl rfl)

theorem unlist_traced {c : Cfg σ} (tls : c.tr.state.tlsConn.isSome = true) : Traced c c.unlist := by
  simp only [Cfg.unlist]
  split_ifs
  · exact .same tls rfl rfl
  · exact .same tls rfl rfl

theorem tcpStreamClose_traced {c : Cfg σ} (tls : c.tr.state.tlsConn.isSome = true) (held : Bool)
    (env : Env) : Traced c (tcpStreamClose R c held env) := by
  have unbound : Traced c c.unbind := .same tls rfl rfl
  have closed : Traced c (close R c.unbind env) := unbound.trans (close_traced unbound.tls env)
  simp only [tcpStreamClose, unbound.tls, if_true]
  split_ifs
  · exact .same tls rfl rfl
  · exact closed
  · exact closed.trans (unlist_traced closed.tls)
  · exact .same tls rfl rfl

theorem pushBack_traced {c : Cfg σ} (tls : c.tr.state.tlsConn.isSome = true) (data : Bytes) :
    Traced c (pushBack (c.emit (.accepted data)) data) := by
  have grown : Traced c (grow ((c.emit (.accepted data)).setState
      { c.tr.state with writeBuf := c.tr.state.writeBuf ++ [data] }) data.length) := by
    simp only [grow]
    split_ifs <;> exact ⟨tls, [.accepted data], rfl, .accept (.nil _)⟩
  simp only [pushBack, bufAdded]
  split_ifs
  · exact grown.trans (.one grown.tls rfl rfl rfl)
  · exact grown

theorem tryWrite_traced {c : Cfg σ} (tls : c.tr.state.tlsConn.isSome = true) (data : Bytes)
    (env : Env) : Traced c (tryWrite c data env) := by
  have emitted : (c.emit (.accepted data)).tr.state.tlsConn.isSome = true := tls
  simp only [tryWrite, emitted, if_true]
  split_ifs
  · exact .one tls rfl rfl rfl
  · exact .same tls rfl rfl
  · exact .same tls rfl rfl
  · exact pushBack_traced tls data

theorem Tuned.traced {c d : Cfg σ} (h : Tuned c d) (tls : c.tr.state.tlsConn.isSome = true) :
    Traced c d := by
  cases h with
  | unchanged | set | borrowed | pauseReading | resumeReading => exact .same tls rfl rfl
  | raised | shutdown | pauseWriting => exact .one tls rfl rfl rfl

theorem method_traced {c : Cfg σ} (tls : c.tr.state.tlsConn.isSome = true) (m : Method)
    (env : Env) : Traced c (m.run R c env) := by
  cases m with
  | write data => exact tryWrite_traced tls data env
  | writelines data => exact tryWrite_traced tls data.flatten env
  | close => exact close_traced tls env
  | abort =>
      simp only [Method.run, abort]
      split_ifs
      · exact .same tls rfl rfl
      all_goals exact .one tls rfl rfl rfl
  | callConnectionLost => exact .one tls rfl rfl rfl
  | writeEof | pauseReading | resumeReading | setWriteBufferLimits | isTls | getWriteBufferSize =>
      exact (Method.tuned rfl c env).traced tls

theorem recvPlaintext_traced (c : Cfg σ) (conn : σ) : Traced c (recvPlaintext R c conn).1 := by
  have shaken : Traced c (checkHandshake R (c.setConn conn) conn) := by
    simp only [checkHandshake]
    split_ifs <;> exact .same rfl rfl rfl
  have armed : Traced c (if R.wantsWrite conn
    then (checkHandshake R (c.setConn conn) conn).streamAdd .writable
      else checkHandshake R (c.setConn conn) conn) := by
    split_ifs
    · exact shaken.trans (.same shaken.tls rfl rfl)
    · exact shaken
  simp only [recvPlaintext]
  generalize (if R.wantsWrite conn then (checkHandshake R (c.setConn conn) conn).streamAdd .writable
    else checkHandshake R (c.setConn conn) conn) = d at armed ⊢
  split_ifs
  · exact armed.trans (.same rfl rfl rfl)
  · exact armed.trans (.same rfl rfl rfl)
  · exact armed

theorem feedTls_traced (c : Cfg σ) (conn : σ) (bytes : Bytes) :
    Traced c (feedTls R (c.emit (.recvTls bytes)) conn bytes).1 := by
  simp only [feedTls]
  split
  next conn' _ =>
    exact ⟨rfl, [.recvTls bytes, .tlsError (R.wantsWrite conn')], List.append_assoc _ _ _,
      .unfed (.nil _)⟩
  next conn' n _ =>
    split
    next conn'' _ =>
      refine ⟨rfl, [.recvTls bytes, .fed bytes n, .tlsError (R.wantsWrite conn'')], ?_,
        .feed (.report rfl (.nil _))⟩
      simp [Cfg.emit, Cfg.setConn, Cfg.setState]
    next conn'' _ =>
      refine ⟨rfl, [.recvTls bytes, .fed bytes n,
        .closeNotify (R.wantsWrite (R.sendCloseNotify conn''))], ?_,
        .feed (.report rfl (.nil _))⟩
      simp [Cfg.emit, Cfg.setState]
    next conn'' _ =>
      have plain := recvPlaintext_traced (R := R) ((c.emit (.recvTls bytes)).emit (.fed bytes n))
        conn''
      obtain ⟨more, hlog, htrace⟩ := plain.trace
      refine ⟨plain.tls, .recvTls bytes :: .fed bytes n :: more, ?_, .feed htrace⟩
      rw [hlog]
      simp [Cfg.emit]

theorem received_traced {c d : Cfg σ} {data : Option Bytes} {eof : Bool} (h : Traced c d) :
    Traced c (received (d, data, eof)) := by
  cases data with
  | some data => exact h.trans (.one h.tls rfl rfl rfl)
  | none =>
      cases eof with
      | true => exact h.trans (.one h.tls rfl rfl rfl)
      | false => exact h

theorem readRound_traced {c : Cfg σ} (tls : c.tr.state.tlsConn.isSome = true) (env : Env) :
    Traced c (readRound R c env) := by
  obtain ⟨conn, hconn⟩ := Option.isSome_iff_exists.mp tls
  simp only [readRound]
  split_ifs
  · exact .one tls rfl rfl rfl
  · simp only [recvDirect, hconn]
    split_ifs with none
    · rw [none]
      exact received_traced ⟨tls, [.recvTls []], rfl, .unread (.nil _)⟩
    · exact received_traced (feedTls_traced c conn _)

theorem recvBuffered_traced {c : Cfg σ} (tls : c.tr.state.tlsConn.isSome = true) (size : Nat)
    (env : Env) : Traced c (recvBuffered c size env) :=
  received_traced (.one tls rfl rfl rfl)

theorem eofReceived_traced {c : Cfg σ} (tls : c.tr.state.tlsConn.isSome = true) (truthy : Bool)
    (env : Env) : Traced c (eofReceived R c truthy env) := by
  simp only [eofReceived, closeFromReadHandle]
  have closing : Traced c c.setClosing := .same tls rfl rfl
  have closed : Traced c (close R c.setClosing env) := closing.trans (close_traced closing.tls env)
  split_ifs
  · exact .same tls rfl rfl
  · exact .one tls rfl rfl rfl
  · exact .same tls rfl rfl
  · exact closed.trans (tcpStreamClose_traced closed.tls _ env)
  · exact .same tls rfl rfl
  · exact .one tls rfl rfl rfl

/-- What `write_all` accepts is a prefix, and all of the data when it succeeds. -/
theorem writeAll_taken (fuel : Nat) (conn : σ) (data : Bytes) :
    (writeAll R fuel conn data).2.1 <+: data ∧
      ((writeAll R fuel conn data).2.2 = true → (writeAll R fuel conn data).2.1 = data) := by
  induction fuel generalizing conn data with
  | zero =>
      cases data with
      | nil => exact ⟨List.prefix_refl _, fun _ => rfl⟩
      | cons b data => exact ⟨List.nil_prefix, fun h => (by cases h)⟩
  | succ fuel ih =>
      cases data with
      | nil => exact ⟨List.prefix_refl _, fun _ => rfl⟩
      | cons b data =>
          simp only [writeAll]
          split
          · exact ⟨List.nil_prefix, fun h => (by cases h)⟩
          · exact ⟨List.nil_prefix, fun h => (by cases h)⟩
          next conn' n _ =>
            obtain ⟨part, whole⟩ := ih conn' (data.drop n)
            have joined : b :: data = b :: data.take n ++ data.drop n := by
              rw [List.cons_append, List.take_append_drop]
            refine ⟨?_, ?_⟩
            · rw [joined]
              exact (List.prefix_append_right_inj (b :: data.take n)).mpr (by simpa using part)
            · intro ok
              have rest : (writeAll R fuel conn' (data.drop n)).2.1 = data.drop n := whole ok
              rw [rest, ← joined]

theorem encryptLoop_traced (conn : σ) (buf : List Bytes) :
    Trace buf (encryptLoop R conn buf).2.2.2.2 (encryptLoop R conn buf).2.1 := by
  induction buf generalizing conn with
  | nil => exact .nil _
  | cons data buf ih =>
      obtain ⟨part, whole⟩ := writeAll_taken (R := R) data.length conn data
      simp only [encryptLoop]
      split
      next conn' taken hall =>
        rw [hall] at part
        exact .refuse part (.nil _)
      next conn' taken hall =>
        rw [hall] at whole
        have all : taken = data := whole rfl
        rw [all]
        exact .encrypt (ih conn')

theorem flushTls_traced (c : Cfg σ) (conn : σ) (env : Env) : Traced c (flushTls R c conn env).1 :=
  .reported rfl rfl rfl rfl

theorem encrypted_traced (c : Cfg σ) (conn : σ) {conn' : σ} {left : List Bytes} {popped : Nat}
    {ok : Bool} {obs : List Obs} (hloop :
      encryptLoop R conn c.tr.state.writeBuf = (conn', left, popped, ok, obs)) :
    Traced c (encrypted c conn' left popped obs) := by
  have loop := encryptLoop_traced (R := R) conn c.tr.state.writeBuf
  rw [hloop] at loop
  exact ⟨rfl, obs, rfl, loop⟩

theorem writeEncrypted_traced {c : Cfg σ} {conn : σ} (h : c.tr.state.tlsConn = some conn)
    (env : Env) : Traced c (writeEncrypted R c conn env).1 :=
  writeEncrypted_rel .trans (fun c conn env _ => flushTls_traced c conn env)
    (fun c conn _ _ _ _ _ _ hloop => encrypted_traced c conn hloop) h env

theorem writeTls_traced {c : Cfg σ} {conn : σ} (h : c.tr.state.tlsConn = some conn) (env : Env) :
    Traced c (writeTls R c conn env).1 :=
  writeTls_rel .trans (fun c conn env _ => flushTls_traced c conn env)
    (fun c conn _ _ _ _ _ _ hloop => encrypted_traced c conn hloop) h env

theorem finishWrite_traced {c : Cfg σ} (tls : c.tr.state.tlsConn.isSome = true)
    (streamClose : Option Bool) (env : Env) : Traced c (finishWrite R c streamClose env) := by
  have removed : Traced c (if c.tr.state.writeBuf = [] then c.streamRem .writable else c) := by
    split_ifs <;> exact .same tls rfl rfl
  simp only [finishWrite]
  split
  · exact removed.trans (tcpStreamClose_traced removed.tls _ env)
  · exact removed.trans (.one removed.tls rfl rfl rfl)
  · exact removed

theorem closeFromWriteHandle_traced {c : Cfg σ} (tls : c.tr.state.tlsConn.isSome = true)
    (errored : Bool) (env : Env) : Traced c (closeFromWriteHandle R c errored env) := by
  simp only [closeFromWriteHandle]
  split
  · exact .one tls rfl rfl rfl
  · exact finishWrite_traced tls _ env

theorem afterWrite_traced {c : Cfg σ} (tls : c.tr.state.tlsConn.isSome = true) (env : Env) :
    Traced c (afterWrite R c env) := by
  simp only [afterWrite]
  split_ifs
  · split
    next conn _ =>
      have alert := closeAlert_traced (R := R) c conn env
      refine Traced.trans (alert.trans ?_) (finishWrite_traced ?_ _ _)
      · exact .same alert.tls rfl rfl
      · exact alert.tls
    · exact finishWrite_traced tls _ env
  · exact closeFromWriteHandle_traced tls false env
  · exact finishWrite_traced tls none env

theorem written_traced {c : Cfg σ} (tls : c.tr.state.tlsConn.isSome = true) (n : Nat) (env : Env) :
    Traced c (written R c n env) := by
  simp only [written]
  split_ifs
  · exact .one tls rfl rfl rfl
  · exact afterWrite_traced tls env

theorem writeHandleRun_traced {c : Cfg σ} (tls : c.tr.state.tlsConn.isSome = true) (env : Env) :
    Traced c (writeHandleRun R c env) := by
  obtain ⟨conn, hconn⟩ := Option.isSome_iff_exists.mp tls
  have wrote := writeTls_traced (R := R) hconn env
  simp only [writeHandleRun]
  split_ifs
  · exact .one tls rfl rfl rfl
  · rw [hconn]
    simp only
    split
    next hwrite =>
      rw [hwrite] at wrote
      exact wrote.trans (written_traced wrote.tls _ _)
    next hwrite =>
      rw [hwrite] at wrote
      exact wrote.trans (closeFromWriteHandle_traced wrote.tls _ _)

theorem after_traced {c : Cfg σ} (tls : c.tr.state.tlsConn.isSome = true) (frame : Frame) (r : Ret)
    (env : Env) : Traced c (frame.after R c r env) := by
  cases frame with
  | attach =>
      simp only [Frame.after, register]
      split_ifs <;> exact .same tls rfl rfl
  | connectionMade | pause => exact .same tls rfl rfl
  | getBuffer =>
      cases r with
      | buffer size => exact recvBuffered_traced tls size env
      | falsy | truthy | raised => exact .same tls rfl rfl
  | data ended =>
      cases ended with
      | true => exact .one tls rfl rfl rfl
      | false => exact readRound_traced tls env
  | eof => exact eofReceived_traced tls _ env
  | lost k =>
      cases k with
      | writeHandle => exact finishWrite_traced tls (some true) env
      | callConnLost | tryWrite | recvEof | readHandle => exact tcpStreamClose_traced tls _ env
  | resume => exact afterWrite_traced tls env

theorem step_traced {c d : Cfg σ} {a : Act × Env} (tls : c.tr.state.tlsConn.isSome = true)
    (h : step R c a = some d) : Traced c d := by
  obtain ⟨act, env⟩ := a
  cases (step_stepped h).2 with
  | call m => exact method_traced tls m env
  | server aborts => exact method_traced tls _ env
  | ret r frame stack =>
      have popped : Traced c { c with stack := stack } := .same tls rfl rfl
      exact popped.trans (after_traced popped.tls frame r env)
  | poll => exact .same tls rfl rfl
  | fire dir =>
      have taken : Traced c { c with tables := { c.tables with event := none } } :=
        .same tls rfl rfl
      simp only [fire]
      split_ifs
      · cases dir with
        | readable => exact taken.trans (readRound_traced taken.tls env)
        | writable => exact taken.trans (writeHandleRun_traced taken.tls env)
      · exact taken
  | made => exact .one tls rfl rfl rfl

/-- A TLS connection, accepted or opened by the client. -/
inductive TlsStart (R : Rustls σ) : Cfg σ → Prop where
  | accepted (lfd : Nat) (conn : σ) (protoBuffered : Bool) (timeout : Nat) :
      TlsStart R (Tcp.accepted lfd (some conn) protoBuffered timeout)
  | connected (conn : σ) (protoBuffered : Bool) (timeout : Nat) :
      TlsStart R (Tcp.connected R (some conn) protoBuffered timeout)

theorem TlsStart.fresh {c : Cfg σ} (h : TlsStart R c) :
    c.tr.state.tlsConn.isSome = true ∧ c.tr.state.writeBuf = [] ∧ c.log = [] := by
  cases h with
  | accepted => exact ⟨rfl, rfl, rfl⟩
  | connected =>
      simp only [Tcp.connected]
      split_ifs <;> exact ⟨rfl, rfl, rfl⟩

/-- Every run of a TLS transport is a trace of the abstract machine. -/
theorem run_traced {start c : Cfg σ} {actions : List (Act × Env)} (hstart : TlsStart R start)
    (h : Runs.run (step R) start actions = some c) : Trace [] c.log c.tr.state.writeBuf := by
  obtain ⟨tls, buf, log⟩ := hstart.fresh
  have traced : Traced start c := Runs.run_invariant (I := fun c => Traced start c)
    (fun _ _ _ inv hstep => inv.trans (step_traced inv.tls hstep)) h (.same tls rfl rfl)
  obtain ⟨obs, hlog, htrace⟩ := traced.trace
  rw [log, List.nil_append] at hlog
  rwa [buf, ← hlog] at htrace

end TokioLoop.Tcp
