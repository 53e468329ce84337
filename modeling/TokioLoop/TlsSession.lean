import TokioLoop.TcpLink
import TokioLoop.TlsBuffered
import TokioLoop.TlsInbound
import TokioLoop.TlsOutbound

/-!
A TLS connection and the log of its transport. A `Session` says what each operation of
rustls adds to the ciphertext the connection was fed, to the plaintext it encrypted and to
the ciphertext it gave; the transport logs each of these operations, so that its log tells
what its connection has seen.
-/
namespace TokioLoop.Tcp

open Runs

variable {σ : Type} {R : Rustls σ}

/-- What goes through a connection: ciphertext it is fed, plaintext it encrypts, and
ciphertext it gives. -/
inductive Stream where
  | heard
  | sealed
  | sent
  deriving DecidableEq, Repr

def Stream.of : Stream → Obs → Bytes
  | .heard, .fed offered n => offered.take n
  | .sealed, .encrypted _ taken _ => taken
  | .sent, .flushed _ out _ _ => out.getD []
  | _, _ => []

/-- It has no part in what goes through the connection or comes from the socket or goes to
the protocol. -/
def Obs.outside : Obs → Bool
  | .recvTls _ | .fed _ _ | .encrypted _ _ _ | .flushed _ _ _ _ | .callback (.dataReceived _) _ =>
      false
  | _ => true

theorem of_outside (s : Stream) {o : Obs} (outside : o.outside = true) : s.of o = [] := by
  cases o with
  | fed | encrypted | flushed => cases outside
  | _ => cases s <;> rfl

theorem readBytes_outside {o : Obs} (outside : o.outside = true) : o.readBytes = [] := by
  cases o with
  | recvTls data => cases outside
  | _ => rfl

def Obs.given : Obs → Bytes
  | .callback (.dataReceived data) _ => data
  | _ => []

theorem given_outside {o : Obs} (outside : o.outside = true) : o.given = [] := by
  cases o with
  | callback e buffered =>
      cases e with
      | dataReceived data => cases outside
      | _ => rfl
  | _ => rfl

theorem of_flushed (s : Stream) (alert more : Bool) (out : Option Bytes) (r : WriteResult) :
    s.of (.flushed alert out more r) = s.of (.flushed false out false .wouldBlock) := by
  cases s <;> rfl

theorem of_encrypted (s : Stream) (data taken : Bytes) (ok : Bool) :
    s.of (.encrypted data taken ok) = s.of (.encrypted [] taken true) := by
  cases s <;> rfl

theorem of_encrypted_append (s : Stream) (taken more : Bytes) :
    s.of (.encrypted [] (taken ++ more) true) = s.of (.encrypted [] taken true) ++ s.of
    (.encrypted [] more true) := by
  cases s <;> rfl

/-- What the connections of a session have seen, and what encryption is for: one of them
decrypts from what another gave no more than that one encrypted. -/
structure Session (R : Rustls σ) (P : Ledger R) where
  seen : Stream → σ → Bytes
  readTls_adds : ∀ s conn bytes, seen s (R.readTls conn bytes).1 =
    seen s conn ++ s.of (.fed bytes ((R.readTls conn bytes).2.getD 0))
  process_keeps : ∀ s conn, seen s (R.processNewPackets conn).1 = seen s conn
  read_keeps : ∀ s conn cap, seen s (R.read conn cap).1 = seen s conn
  write_adds : ∀ s conn data, seen s (R.write conn data).1 =
    seen s conn ++ s.of (.encrypted [] (data.take ((R.write conn data).2.getD 0)) true)
  writeTls_adds : ∀ s conn, seen s (R.writeTls conn).1 =
    seen s conn ++ s.of (.flushed false (R.writeTls conn).2 false .wouldBlock)
  closeNotify_keeps : ∀ s conn, seen s (R.sendCloseNotify conn) = seen s conn
  opens : ∀ writer reader, seen .heard reader <+: seen .sent writer → P.decrypted reader <+:
      seen .sealed writer

variable {P : Ledger R} {S : Session R P}

/-- The log is of this connection, and of the plaintext taken from it all but `left` was
given to the protocol; `read` came from the socket. -/
structure Records (S : Session R P) (read left : Bytes) (log : List Obs) (conn : σ) : Prop where
  seen : ∀ s, S.seen s conn = log.flatMap (Stream.of s)
  read : log.flatMap Obs.readBytes = read
  taken : P.taken conn = log.flatMap Obs.given ++ left

theorem Records.quiet {read left : Bytes} {log : List Obs} {before after : σ}
    (h : Records S read left log before) (same : ∀ s, S.seen s after = S.seen s before)
    (taken : P.taken after = P.taken before) : Records S read left log after :=
  ⟨fun s => (same s).trans (h.seen s), h.read, taken.trans h.taken⟩

theorem Records.concat {read left : Bytes} {log : List Obs} {before after : σ}
    (h : Records S read left log before) {o : Obs}
    (adds : ∀ s, S.seen s after = S.seen s before ++ s.of o)
    (taken : P.taken after = P.taken before)
    (unread : o.readBytes = []) (quiet : o.given = []) : Records S read left
    (log ++ [o]) after where
  seen s := by rw [adds, h.seen s, List.flatMap_append, List.flatMap_singleton]
  read := by rw [List.flatMap_append, List.flatMap_singleton, unread, List.append_nil, h.read]
  taken := by rw [taken, h.taken, List.flatMap_append, List.flatMap_singleton, quiet,
      List.append_nil]

theorem Records.logs {read left : Bytes} {log : List Obs} {conn : σ}
    (h : Records S read left log conn) {o : Obs} (outside : o.outside = true) : Records S read left
    (log ++ [o]) conn :=
  h.concat (fun s => by rw [of_outside s outside, List.append_nil]) rfl (readBytes_outside outside)
    (given_outside outside)

/-- The transport has a connection, and its log is of it. -/
def Agrees (S : Session R P) (read left : Bytes) (c : Cfg σ) : Prop :=
  ∃ conn, c.tr.state.tlsConn = some conn ∧ Records S read left c.log conn

variable {read left : Bytes}

theorem Agrees.tls {c : Cfg σ} (h : Agrees S read left c) : c.tr.state.tlsConn.isSome = true := by
  obtain ⟨conn, there, -⟩ := h
  exact Option.isSome_of_eq_some there

theorem Agrees.records {c : Cfg σ} (h : Agrees S read left c) {conn : σ}
    (there : c.tr.state.tlsConn = some conn) : Records S read left c.log conn := by
  obtain ⟨other, here, records⟩ := h
  cases there.symm.trans here
  exact records

theorem Agrees.same {c d : Cfg σ} (h : Agrees S read left c)
    (conn : d.tr.state.tlsConn = c.tr.state.tlsConn) (log : d.log = c.log) :
    Agrees S read left d := by
  obtain ⟨there, some, records⟩ := h
  exact ⟨there, conn.trans some, log ▸ records⟩

theorem Agrees.logs {c d : Cfg σ} (h : Agrees S read left c) {o : Obs}
    (conn : d.tr.state.tlsConn = c.tr.state.tlsConn) (log : d.log = c.log ++ [o])
    (outside : o.outside = true) : Agrees S read left d := by
  obtain ⟨there, some, records⟩ := h
  exact ⟨there, conn.trans some, log ▸ records.logs outside⟩

theorem closeAlert_agrees {c : Cfg σ} {conn : σ} (h : Records S read left c.log conn) (env : Env) :
    Agrees S read left (closeAlert R c conn env) := by
  refine ⟨_, rfl, h.concat (fun s => ?_) ?_ rfl rfl⟩
  · rw [S.writeTls_adds, S.closeNotify_keeps, of_flushed s true]
  · exact (P.writeTls_keeps _).2.trans (P.closeNotify_keeps conn).2

theorem close_agrees {c : Cfg σ} (h : Agrees S read left c)
    (env : Env) : Agrees S read left (close R c env) := by
  obtain ⟨conn, there, records⟩ := h
  have kept : Agrees S read left c := ⟨conn, there, records⟩
  simp only [close]
  split_ifs
  · exact kept
  · exact kept.same rfl rfl
  · have here : c.setClosing.tr.state.tlsConn = some conn := there
    rw [here]
    have alert : Agrees S read left (closeAlert R c.setClosing conn env) :=
      closeAlert_agrees (c := c.setClosing) records env
    simp only [closeTls]
    split_ifs
    · exact kept.same rfl rfl
    · exact alert.same rfl rfl
    · exact alert.same rfl rfl

theorem unlist_agrees {c : Cfg σ} (h : Agrees S read left c) : Agrees S read left c.unlist := by
  simp only [Cfg.unlist]
  split_ifs
  · exact h.same rfl rfl
  · exact h

theorem tcpStreamClose_agrees {c : Cfg σ} (h : Agrees S read left c) (held : Bool) (env : Env) :
    Agrees S read left (tcpStreamClose R c held env) := by
  have unbound : Agrees S read left c.unbind := h.same rfl rfl
  have closed : Agrees S read left (close R c.unbind env) := close_agrees unbound env
  simp only [tcpStreamClose, unbound.tls, if_true]
  split_ifs
  · exact unbound.same rfl rfl
  · exact closed
  · exact unlist_agrees closed
  · exact h

theorem pushBack_agrees {c : Cfg σ} (h : Agrees S read left c) (data : Bytes) :
    Agrees S read left (pushBack c data) := by
  apply pushBack_rule
  · intro paused
    simp only [grow]
    split_ifs <;> exact h.same rfl rfl
  · exact fun d grown => grown.logs rfl rfl rfl

theorem tryWrite_agrees {c : Cfg σ} (h : Agrees S read left c) (data : Bytes) (env : Env) :
    Agrees S read left (tryWrite c data env) := by
  have offered : Agrees S read left (c.emit (.accepted data)) := h.logs rfl rfl rfl
  simp only [tryWrite, offered.tls, if_true]
  split_ifs
  · exact h.logs rfl rfl rfl
  · exact h
  · exact h.same rfl rfl
  · exact pushBack_agrees offered data

theorem Tuned.agrees {c d : Cfg σ} (tuned : Tuned c d) (h : Agrees S read left c) :
    Agrees S read left d := by
  cases tuned with
  | unchanged | set | borrowed | pauseReading | resumeReading => exact h.same rfl rfl
  | raised | shutdown | pauseWriting => exact h.logs rfl rfl rfl

theorem method_agrees {c : Cfg σ} (h : Agrees S read left c) (m : Method) (env : Env) :
    Agrees S read left (m.run R c env) := by
  cases m with
  | write data => exact tryWrite_agrees h data env
  | writelines data => exact tryWrite_agrees h data.flatten env
  | close => exact close_agrees h env
  | abort =>
      simp only [Method.run, abort]
      split_ifs
      · exact h.same rfl rfl
      all_goals exact h.logs rfl rfl rfl
  | callConnectionLost => exact h.logs rfl rfl rfl
  | writeEof | pauseReading | resumeReading | setWriteBufferLimits | isTls | getWriteBufferSize =>
      exact (Method.tuned rfl c env).agrees h

theorem drainReader_keeps (S : Session R P) (s : Stream) (fuel : Nat) (conn : σ) :
    S.seen s (drainReader R fuel conn).1 = S.seen s conn := by
  fun_induction drainReader R fuel conn with
  | case1 => rfl
  | case2 fuel conn conn' read | case3 fuel conn conn' read =>
      have kept := S.read_keeps s conn 4096
      rwa [read] at kept
  | case4 fuel conn conn' b bytes read conn'' more rest ih =>
      have kept := S.read_keeps s conn 4096
      rw [read] at kept
      rw [rest] at ih
      exact ih.trans kept

/-- All decrypted data is taken at once. -/
theorem drainReader_records {log : List Obs} {conn : σ} (h : Records S read [] log conn) :
    Records S read (drainReader R (R.plaintextLeft conn + 1) conn).2 log
      (drainReader R (R.plaintextLeft conn + 1) conn).1 where
  seen s := (drainReader_keeps S s _ conn).trans (h.seen s)
  read := h.read
  taken := by
    obtain ⟨-, all, more⟩ := drainReader_all P (R.plaintextLeft conn + 1) conn (Nat.lt_succ_self _)
    rw [all, ← more, h.taken, List.append_nil]

theorem recvPlaintext_agrees {c : Cfg σ} {conn : σ} (h : Records S read [] c.log conn) :
    Agrees S read ((recvPlaintext R c conn).2.1.getD []) (recvPlaintext R c conn).1 := by
  have armed : (if R.wantsWrite conn
    then (checkHandshake R (c.setConn conn) conn).streamAdd .writable
        else checkHandshake R (c.setConn conn) conn).log = c.log ∧
      (if R.wantsWrite conn then (checkHandshake R (c.setConn conn) conn).streamAdd .writable
        else checkHandshake R (c.setConn conn) conn).tr.state.tlsConn = some conn := by
    simp only [checkHandshake]
    split_ifs <;> exact ⟨rfl, rfl⟩
  simp only [recvPlaintext]
  generalize (if R.wantsWrite conn then (checkHandshake R (c.setConn conn) conn).streamAdd .writable
    else checkHandshake R (c.setConn conn) conn) = d at armed ⊢
  obtain ⟨log, there⟩ := armed
  have drained := drainReader_records h
  rw [← log] at h drained
  split_ifs with done none
  · rw [none] at drained
    exact ⟨_, rfl, drained⟩
  · exact ⟨_, rfl, drained⟩
  · exact ⟨conn, there, h⟩

theorem feedTls_agrees {c : Cfg σ} {conn : σ} (h : Records S read [] c.log conn) (bytes : Bytes) :
    Agrees S read ((feedTls R c conn bytes).2.1.getD []) (feedTls R c conn bytes).1 := by
  have fed := fun s => S.readTls_adds s conn bytes
  have taken := (P.readTls_keeps conn bytes).2
  simp only [feedTls]
  split
  next conn' hread =>
    rw [hread] at fed taken
    have kept : Records S read [] c.log conn' :=
      h.quiet (fun s => (fed s).trans (by cases s <;> simp [Stream.of])) taken
    exact ⟨conn', rfl, kept.logs rfl⟩
  next conn' n hread =>
    rw [hread] at fed taken
    have took : Records S read [] (c.log ++ [.fed bytes n]) conn' := h.concat fed taken rfl rfl
    have processed := fun s => S.process_keeps s conn'
    have left := (P.process_adds conn').2
    split
    next conn'' process =>
      rw [process] at processed left
      exact ⟨conn'', rfl, (took.quiet processed left).logs rfl⟩
    next conn'' process =>
      rw [process] at processed left
      have alerted := (took.quiet processed left).quiet (fun s => S.closeNotify_keeps s conn'')
        (P.closeNotify_keeps conn'').2
      exact ⟨_, rfl, alerted.logs rfl⟩
    next conn'' process =>
      rw [process] at processed left
      exact recvPlaintext_agrees (c := c.emit (.fed bytes n)) (took.quiet processed left)

theorem recvDirect_agrees {c : Cfg σ} (h : Agrees S read [] c) (env : Env) :
    Agrees S (read ++ (readInto readBufSize env.reads).1) ((recvDirect R c env).2.1.getD [])
      (recvDirect R c env).1 := by
  obtain ⟨conn, there, seen, all, taken⟩ := h
  have got : Records S (read ++ (readInto readBufSize env.reads).1) []
      (c.log ++ [.recvTls (readInto readBufSize env.reads).1]) conn := by
    refine ⟨fun s => ?_, ?_, ?_⟩
    · rw [seen s, List.flatMap_append, List.flatMap_singleton]
      cases s <;> exact (List.append_nil _).symm
    · rw [List.flatMap_append, List.flatMap_singleton, all]
      rfl
    · rw [taken, List.flatMap_append, List.flatMap_singleton]
      exact congrArg (· ++ []) (List.append_nil _).symm
  simp only [recvDirect, there]
  split_ifs
  · exact ⟨conn, there, got⟩
  · exact feedTls_agrees (c := c.emit (.recvTls (readInto readBufSize env.reads).1)) got _

/-- What was taken is given to the protocol. -/
theorem received_agrees {c : Cfg σ} {data : Option Bytes} {eof : Bool}
    (h : Agrees S read (data.getD []) c) : Agrees S read [] (received (c, data, eof)) := by
  cases data with
  | some data =>
      obtain ⟨conn, there, seen, all, taken⟩ := h
      refine ⟨conn, there, fun s => ?_, ?_, ?_⟩
      · rw [seen s]
        simp only [received, Cfg.call, Cfg.emit, List.flatMap_append, List.flatMap_singleton]
        cases s <;> exact (List.append_nil _).symm
      · rw [← all]
        simp only [received, Cfg.call, Cfg.emit, List.flatMap_append, List.flatMap_singleton]
        exact List.append_nil _
      · rw [taken]
        simp only [received, Cfg.call, Cfg.emit, List.flatMap_append, List.flatMap_singleton]
        exact (List.append_nil _).symm
  | none =>
      cases eof with
      | true => exact h.logs rfl rfl rfl
      | false => exact h

theorem eofReceived_agrees {c : Cfg σ} (h : Agrees S read left c) (truthy : Bool) (env : Env) :
    Agrees S read left (eofReceived R c truthy env) := by
  have closing : Agrees S read left c.setClosing := h.same rfl rfl
  simp only [eofReceived, closeFromReadHandle]
  split_ifs
  · exact h
  · exact h.logs rfl rfl rfl
  · exact h
  · exact tcpStreamClose_agrees (close_agrees closing env) _ env
  · exact closing
  · exact h.logs rfl rfl rfl

theorem writeAll_adds (S : Session R P) (s : Stream) (fuel : Nat) (conn : σ) (data : Bytes) :
    S.seen s (writeAll R fuel conn data).1 =
      S.seen s conn ++ s.of (.encrypted [] (writeAll R fuel conn data).2.1 true) := by
  have nothing : s.of (.encrypted [] [] true) = [] := by cases s <;> rfl
  fun_induction writeAll R fuel conn data with
  | case1 | case2 => rw [nothing, List.append_nil]
  | case3 fuel conn b data conn' write | case4 fuel conn b data conn' write =>
      have wrote := S.write_adds s conn (b :: data)
      rwa [write] at wrote
  | case5 fuel conn b data conn' n write conn'' taken ok all ih =>
      have wrote := S.write_adds s conn (b :: data)
      rw [write] at wrote
      rw [all] at ih
      rw [ih, wrote, List.append_assoc, ← of_encrypted_append]
      rfl

theorem encryptLoop_records {log : List Obs} {conn : σ} (h : Records S read left log conn)
    (buf : List Bytes) : Records S read left (log ++ (encryptLoop R conn buf).2.2.2.2)
    (encryptLoop R conn buf).1 := by
  induction buf generalizing conn log with
  | nil => exact (List.append_nil log).symm ▸ h
  | cons data buf ih =>
      have wrote := fun s => writeAll_adds S s data.length conn data
      have kept := (writeAll_rel P.conserving data.length conn data).2
      simp only [encryptLoop]
      split
      next conn' taken all =>
        rw [all] at wrote kept
        exact h.concat (fun s => by rw [wrote s, of_encrypted s data]) kept rfl rfl
      next conn' taken all =>
        rw [all] at wrote kept
        have first : Records S read left (log ++ [.encrypted data taken true]) conn' :=
          h.concat (fun s => by rw [wrote s, of_encrypted s data]) kept rfl rfl
        have rest := ih first
        rwa [List.append_assoc] at rest

theorem writeTls_agrees {c : Cfg σ} {conn : σ} (h : Agrees S read left c)
    (there : c.tr.state.tlsConn = some conn) (env : Env) : Agrees S read left
    (writeTls R c conn env).1 := by
  refine writeTls_rel (S := fun c d => Agrees S read left c → Agrees S read left d)
    (fun first second => second ∘ first) (fun c conn env there h => ?_)
    (fun c conn conn' kept popped ok obs there loop h => ?_) there env h
  · refine ⟨_, rfl, (h.records there).concat (fun s => ?_) (P.writeTls_keeps conn).2 rfl rfl⟩
    exact (S.writeTls_adds s conn).trans (congrArg (S.seen s conn ++ ·) (of_flushed s _ _ _ _).symm)
  · have records := encryptLoop_records (h.records there) c.tr.state.writeBuf
    rw [loop] at records
    exact ⟨conn', rfl, records⟩

theorem finishWrite_agrees {c : Cfg σ} (h : Agrees S read left c) (streamClose : Option Bool)
    (env : Env) : Agrees S read left (finishWrite R c streamClose env) := by
  have drained : Agrees S read left (if c.tr.state.writeBuf = [] then c.streamRem .writable
      else c) := by
    split_ifs
    · exact h.same rfl rfl
    · exact h
  simp only [finishWrite]
  split
  · exact tcpStreamClose_agrees drained _ env
  · exact drained.logs rfl rfl rfl
  · exact drained

theorem closeFromWriteHandle_agrees {c : Cfg σ} (h : Agrees S read left c) (errored : Bool)
    (env : Env) : Agrees S read left (closeFromWriteHandle R c errored env) := by
  simp only [closeFromWriteHandle]
  split
  · exact h.logs rfl rfl rfl
  · exact finishWrite_agrees h _ env

theorem afterWrite_agrees {c : Cfg σ} (h : Agrees S read left c) (env : Env) :
    Agrees S read left (afterWrite R c env) := by
  simp only [afterWrite]
  split_ifs
  · split
    next conn there =>
      refine finishWrite_agrees ?_ _ _
      exact (closeAlert_agrees (h.records there) env).same rfl rfl
    · exact finishWrite_agrees h _ env
  · exact closeFromWriteHandle_agrees h false env
  · exact finishWrite_agrees h none env

theorem written_agrees {c : Cfg σ} (h : Agrees S read left c) (n : Nat) (env : Env) :
    Agrees S read left (written R c n env) := by
  simp only [written]
  split_ifs
  · exact h.logs rfl rfl rfl
  · exact afterWrite_agrees h env

theorem writeHandleRun_agrees {c : Cfg σ} (h : Agrees S read left c) (env : Env) :
    Agrees S read left (writeHandleRun R c env) := by
  obtain ⟨conn, there⟩ := Option.isSome_iff_exists.mp h.tls
  have wrote := writeTls_agrees h there env
  simp only [writeHandleRun]
  split_ifs
  · exact h.logs rfl rfl rfl
  · rw [there]
    simp only
    split
    next write =>
      rw [write] at wrote
      exact written_agrees wrote _ _
    next write =>
      rw [write] at wrote
      exact closeFromWriteHandle_agrees wrote _ _

/-- A frame of code that does not read. -/
theorem after_agrees {c : Cfg σ} (h : Agrees S read left c) {frame : Frame}
    (direct : frame ≠ .getBuffer) (quiet : frame ≠ .data false) (r : Ret)
    (env : Env) : Agrees S read left (frame.after R c r env) := by
  cases frame with
  | attach =>
      simp only [Frame.after, register]
      split_ifs
      · exact h
      · exact h.same rfl rfl
  | connectionMade | pause => exact h
  | getBuffer => exact absurd rfl direct
  | data ended =>
      cases ended with
      | true => exact h.logs rfl rfl rfl
      | false => exact absurd rfl quiet
  | eof => exact eofReceived_agrees h _ env
  | lost k =>
      cases k with
      | writeHandle => exact finishWrite_agrees h (some true) env
      | callConnLost | tryWrite | recvEof | readHandle => exact tcpStreamClose_agrees h _ env
  | resume => exact afterWrite_agrees h env

/-- A plain protocol on a transport whose log is of its connection. -/
structure Follows (S : Session R P) (w : Reader σ) : Prop where
  unbuffered : Unbuffered w
  agrees : Agrees S (bytesOf w.calls) [] w.cfg

theorem readRound_agrees {w : Reader σ} {c : Cfg σ} (direct : c.tr.protoBuffered = false)
    (h : Agrees S (bytesOf w.calls) [] c) (env : Env) :
    Agrees S (bytesOf (w.calls ++ (readCalls readBufSize env.reads).1)) [] (readRound R c env) := by
  rw [bytesOf_append, ← (readCalls_summed readBufSize env.reads).bytes, readRound,
    if_neg (by rw [direct]; decide)]
  exact received_agrees (recvDirect_agrees h env)

theorem pulls_agrees {w : Reader σ} {act : Act} {env : Env} {room : Nat} {d : Cfg σ}
    (h : Follows S w) (pulls : Pulls w.cfg room act)
    (one : step R w.cfg (act, { env with reads := w.sock }) = some d) :
    Agrees S (bytesOf (w.calls ++ (readCalls room w.sock).1)) [] d := by
  obtain ⟨inv, agrees⟩ := h
  cases pulls with
  | fire readable bound direct size =>
      subst size
      obtain ⟨dir, free, there, fired⟩ := fire_stepped one
      cases readable.symm.trans there
      have taken : Agrees S (bytesOf w.calls) []
          { w.cfg with tables := { w.cfg.tables with event := none } } :=
        agrees.same rfl rfl
      rw [fired]
      simp only [fire, if_pos bound]
      exact readRound_agrees (c := { w.cfg with tables := { w.cfg.tables with event := none } })
        inv.kind taken { env with reads := w.sock }
  | getBuffer stack top => exact absurd (top ▸ List.mem_cons_self) inv.frames
  | data r stack top direct size =>
      subst size
      have popped : Agrees S (bytesOf w.calls) [] { w.cfg with stack := stack } :=
        agrees.same rfl rfl
      rw [step_ret top one]
      exact readRound_agrees (c := { w.cfg with stack := stack }) inv.kind popped
        { env with reads := w.sock }

theorem quiet_agrees {w : Reader σ} {act : Act} {env : Env} {d : Cfg σ} (h : Follows S w)
    (room : roomOf w.cfg act = none) (one : step R w.cfg (act, env) = some d) : Agrees S
    (bytesOf w.calls) [] d := by
  obtain ⟨inv, agrees⟩ := h
  cases (step_stepped one).2 with
  | call m => exact method_agrees agrees m env
  | server aborts => exact method_agrees agrees _ env
  | ret r frame stack top =>
      have popped : Agrees S (bytesOf w.calls) [] { w.cfg with stack := stack } :=
        agrees.same rfl rfl
      refine after_agrees popped (fun other => ?_) (fun other => ?_) r env
      · exact absurd (top ▸ other ▸ List.mem_cons_self) inv.frames
      · simp [roomOf, top, other, inv.kind] at room
  | poll => exact agrees.same rfl rfl
  | fire dir free event =>
      have taken : Agrees S (bytesOf w.calls) []
          { w.cfg with tables := { w.cfg.tables with event := none } } :=
        agrees.same rfl rfl
      simp only [fire]
      split_ifs with bound
      · cases dir with
        | readable => simp [roomOf, event, bound, inv.kind] at room
        | writable => exact writeHandleRun_agrees taken env
      · exact taken
  | made => exact agrees.logs rfl rfl rfl

/-- Whatever code of the transport runs, its log goes on telling what its connection has
seen, what came from the socket and what the protocol was given. -/
theorem receive_follows {w t : Reader σ} {a : Act × Env} (h : Follows S w)
    (one : receive R w a = some t) :
    Follows S t := by
  refine ⟨step_unbuffered h.unbuffered one, ?_⟩
  cases room : roomOf w.cfg a.1 with
  | none =>
      obtain ⟨stepped, same⟩ := receive_quiet room one
      have calls : t.calls = w.calls := by rw [same]
      rw [calls]
      exact quiet_agrees h room stepped
  | some n =>
      obtain ⟨stepped, -, made⟩ := receive_reads room one
      rw [made]
      exact pulls_agrees h (roomOf_pulls room) stepped

end TokioLoop.Tcp
