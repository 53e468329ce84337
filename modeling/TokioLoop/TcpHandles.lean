import TokioLoop.TcpTransport

/-!
`TCPReadHandle` and `TCPWriteHandle`, and the machine they make with the methods of the
transport: the dispatch of readiness events, the calls of Python code and the returns
of the protocol's methods.
-/
namespace TokioLoop.Tcp

variable {σ : Type} (R : Rustls σ)

/-- `read_into` a buffer with room for `cap` bytes: the bytes and whether the end of
the stream was seen. -/
def readInto (cap : Nat) : List ReadResult → Bytes × Bool
  | [] => ([], false)
  | .data bytes :: rest =>
      if cap = 0 then ([], false)
      else
        let got := bytes.take cap
        if got = [] then ([], true)
        else
          let (more, closed) := readInto (cap - got.length) rest
          (got ++ more, closed)
  | .eof :: _ => ([], decide (0 < cap))
  | .interrupted :: rest => if cap = 0 then ([], false) else readInto cap rest
  | .wouldBlock :: _ | .error :: _ => ([], false)

/-- Size of the loop's read buffer. -/
def readBufSize : Nat := 262144

/-- Read all decrypted data, 4096 bytes at a time. -/
def drainReader : Nat → σ → σ × Bytes
  | 0, conn => (conn, [])
  | fuel + 1, conn =>
      match R.read conn 4096 with
      | (conn, none) => (conn, [])
      | (conn, some []) => (conn, [])
      | (conn, some (b :: bytes)) =>
          let (conn, more) := drainReader fuel conn
          (conn, b :: bytes ++ more)

/-- The handshake status; when it completes, `connection_made` is scheduled once. -/
def checkHandshake (c : Cfg σ) (conn : σ) : Cfg σ :=
  if c.tr.state.handshakeComplete = false ∧ R.isHandshaking conn = false then
    let made := c.tr.state.connectionMadeCalled
    let c := c.setState { c.tr.state with handshakeComplete := true, connectionMadeCalled := true }
    if made then c else { c with tables := { c.tables with pendingMade := true } }
  else c

/-- The TLS part of `recv_direct` once the packets are processed. -/
def recvPlaintext (c : Cfg σ) (conn : σ) : Cfg σ × Option Bytes × Bool :=
  let c := checkHandshake R (c.setConn conn) conn
  let c := if R.wantsWrite conn then c.streamAdd .writable else c
  if c.tr.state.handshakeComplete then
    let (conn, appData) := drainReader R (R.plaintextLeft conn + 1) conn
    let c := c.setConn conn
    if appData = [] then (c, none, c.tr.state.tlsCloseSent) else (c, some appData, false)
  else (c, none, c.tr.state.tlsCloseSent)

/-- Registering an interest where there is reason to changes the tables only. -/
theorem streamAdd_if {c d : Cfg σ} {wants : Bool} {dir : Dir}
    (hd : (if wants = true then c.streamAdd dir else c) = d) :
    d.tr = c.tr ∧ d.stack = c.stack ∧ d.callbacks = c.callbacks ∧
    d.tables.pendingMade = c.tables.pendingMade := by
  rw [← hd]
  split <;> exact ⟨rfl, rfl, rfl, rfl⟩

/-- Feed the bytes of one read to rustls with one call of `read_tls`. -/
def feedTls (c : Cfg σ) (conn : σ) (bytes : Bytes) : Cfg σ × Option Bytes × Bool :=
  match R.readTls conn bytes with
  | (conn, none) => ((c.setConn conn).emit (.tlsError (R.wantsWrite conn)), none, true)
  | (conn, some n) =>
      let c := c.emit (.fed bytes n)
      match R.processNewPackets conn with
      | (conn, none) => ((c.setConn conn).emit (.tlsError (R.wantsWrite conn)), none, true)
      | (conn, some true) =>
          let conn := R.sendCloseNotify conn
          let c := c.setState { c.tr.state with tlsConn := some conn, tlsCloseReceived := true }
          (c.emit (.closeNotify (R.wantsWrite conn)), none, true)
      | (conn, some false) => recvPlaintext R c conn

/-- `recv_direct`. On TLS the end of the stream is looked for with a read into an empty
buffer, which never shows it, so that only a sent close alert counts. -/
def recvDirect (c : Cfg σ) (env : Env) : Cfg σ × Option Bytes × Bool :=
  let (bytes, closed) := readInto readBufSize env.reads
  match c.tr.state.tlsConn with
  | some conn =>
      let c := c.emit (.recvTls bytes)
      if bytes = [] then (c, none, c.tr.state.tlsCloseSent) else feedTls R c conn bytes
  | none => (c.emit (.recv bytes), if bytes = [] then none else some bytes, closed)

/-- `recv_eof` up to the call. -/
def recvEof (c : Cfg σ) : Cfg σ := (c.streamRem .readable).call .eofReceived .eof

/-- The body of the loop of `TCPReadHandle::run` after a receive. -/
def received (r : Cfg σ × Option Bytes × Bool) : Cfg σ :=
  match r with
  | (c, some data, eof) => c.call (.dataReceived data) (.data eof)
  | (c, none, true) => recvEof c
  | (c, none, false) => c

/-- One round of the loop of `TCPReadHandle::run`. -/
def readRound (c : Cfg σ) (env : Env) : Cfg σ :=
  if c.tr.protoBuffered then c.call .getBuffer .getBuffer else received (recvDirect R c env)

/-- `recv_buffered` after `get_buffer` returned a buffer of `size` bytes. -/
def recvBuffered (c : Cfg σ) (size : Nat) (env : Env) : Cfg σ :=
  let (bytes, closed) := readInto size env.reads
  received (c.emit (.recv bytes), if bytes = [] then none else some bytes, closed)

/-- On TLS the nested `close` finds `closing` set and does nothing. -/
def closeFromReadHandle (c : Cfg σ) (env : Env) : Cfg σ :=
  if c.tr.closing then c
  else
    let c := c.setClosing
    if c.tr.state.tlsConn.isSome then tcpStreamClose R (close R c env) c.borrowed env
    else if c.tr.state.writeBuf ≠ [] then c
    else (c.streamRem .writable).call (.connectionLost none) (.lost .readHandle)

/-- `recv_eof` after `eof_received` returned, with the end of `TCPReadHandle::run`. -/
def eofReceived (c : Cfg σ) (truthy : Bool) (env : Env) : Cfg σ :=
  if truthy then c
  else if c.tr.state.tlsConn.isSome ∧ c.tr.state.tlsCloseSent then callConnLost c none .recvEof
  else closeFromReadHandle R c env

/-- The loop of `TCPWriteHandle::write` on a plain transport: the buffer it leaves, the
bytes written, or `none` after a fatal error, and its calls of `write(2)`. -/
def writeLoop : List WriteResult → List Bytes → List Bytes × Option Nat × List Obs
  | _, [] => ([], some 0, [])
  | [], data :: buf => (data :: buf, some 0, [.write data .wouldBlock])
  | .ok n :: results, data :: buf =>
      if n < data.length then (data.drop n :: buf, some n, [.write data (.ok n)])
      else
        let (left, ret, obs) := writeLoop results buf
        (left, ret.map (data.length + ·), .write data (.ok n) :: obs)
  | .interrupted :: results, data :: buf =>
      let (left, ret, obs) := writeLoop results (data :: buf)
      (left, ret, .write data .interrupted :: obs)
  | .wouldBlock :: _, data :: buf => (data :: buf, some 0, [.write data .wouldBlock])
  | .fatal text :: _, data :: _ => ([], none, [.write data (.fatal text)])

def writePlain (c : Cfg σ) (env : Env) : Cfg σ × Option Nat :=
  let (left, ret, obs) := writeLoop env.writes c.tr.state.writeBuf
  let dsize := ret.elim 0 (c.tr.state.writeBufDsize - ·)
  ({ c.setState { c.tr.state with writeBuf := left, writeBufDsize := dsize } with
    log := c.log ++ obs }, ret)

/-- `write_all` on the writer of a TLS connection: whether it succeeded, and the part of
the data that was accepted. -/
def writeAll : Nat → σ → Bytes → σ × Bytes × Bool
  | _, conn, [] => (conn, [], true)
  | 0, conn, _ :: _ => (conn, [], false)
  | fuel + 1, conn, b :: data =>
      match R.write conn (b :: data) with
      | (conn, none) => (conn, [], false)
      | (conn, some 0) => (conn, [], false)
      | (conn, some (n + 1)) =>
          let (conn, taken, ok) := writeAll fuel conn (data.drop n)
          (conn, b :: data.take n ++ taken, ok)

/-- The loop that encrypts the buffer: each chunk is popped only after `write_all`
succeeded on the whole of it. Gives the bytes popped and whether the loop ended. -/
def encryptLoop (conn : σ) : List Bytes → σ × List Bytes × Nat × Bool × List Obs
  | [] => (conn, [], 0, true, [])
  | data :: buf =>
      match writeAll R data.length conn data with
      | (conn, taken, false) => (conn, data :: buf, 0, false, [.encrypted data taken false])
      | (conn, taken, true) =>
          let (conn, left, popped, ok, obs) := encryptLoop conn buf
          (conn, left, data.length + popped, ok, .encrypted data taken true :: obs)

/-- How one flush of `TCPWriteHandle::write` ended: go on, return `Some` or return `None`. -/
inductive Flush where
  | sent
  | blocked
  | failed
  deriving DecidableEq, Repr

/-- The `write(2)` of a buffer that `write_tls` filled. -/
def flushOutcome (out : Option Bytes) (r : WriteResult) : Flush :=
  match out with
  | none => .failed
  | some [] => .sent
  | some out =>
      match r with
      | .ok n => if out.length ≤ n then .sent else .failed
      | .wouldBlock => .blocked
      | _ => .failed

/-- `write_tls` into a local buffer and one `write(2)` of it, if it is not empty. -/
def flushTls (c : Cfg σ) (conn : σ) (env : Env) : Cfg σ × σ × Flush × Env :=
  let (conn, out) := R.writeTls conn
  ((c.setConn conn).emit (.flushed false out (R.wantsWrite conn) env.nextWrite), conn,
    flushOutcome out env.nextWrite, if out.getD [] = [] then env else env.afterWrite)

/-- The state after the encryption loop. -/
def encrypted (c : Cfg σ) (conn : σ) (left : List Bytes) (popped : Nat) (obs : List Obs) : Cfg σ :=
  { c.setState { c.tr.state with
      tlsConn := some conn
      writeBuf := left
      writeBufDsize := c.tr.state.writeBufDsize - popped } with log := c.log ++ obs }

/-- The TLS branch from the encryption loop on. -/
def writeEncrypted (c : Cfg σ) (conn : σ) (env : Env) : Cfg σ × Option Nat × Env :=
  match encryptLoop R conn c.tr.state.writeBuf with
  | (conn, left, popped, false, obs) => (encrypted c conn left popped obs, none, env)
  | (conn, left, popped, true, obs) =>
      match flushTls R (encrypted c conn left popped obs) conn env with
      | (c, _, .failed, env) => (c, none, env)
      | (c, _, _, env) => (c, some popped, env)

def writeTls (c : Cfg σ) (conn : σ) (env : Env) : Cfg σ × Option Nat × Env :=
  match flushTls R c conn env with
  | (c, _, .failed, env) => (c, none, env)
  | (c, _, .blocked, env) => (c, some 0, env)
  | (c, conn, .sent, env) =>
      if c.tr.state.handshakeComplete then writeEncrypted R c conn env else (c, some 0, env)

/-- The end of `TCPWriteHandle::run` with its `stream_close`. -/
def finishWrite (c : Cfg σ) (streamClose : Option Bool) (env : Env) : Cfg σ :=
  let c := if c.tr.state.writeBuf = [] then c.streamRem .writable else c
  match streamClose with
  | some true => tcpStreamClose R c c.borrowed env
  | some false => c.shutdownWrite
  | none => c

def closeFromWriteHandle (c : Cfg σ) (errored : Bool) (env : Env) : Cfg σ :=
  if c.tr.closing then
    c.call (.connectionLost (if errored then some "socket transport failed" else none))
        (.lost .writeHandle)
  else finishWrite R c (if c.tr.weof then some false else none) env

/-- `TCPWriteHandle::run` after a successful `write` and a possible `resume_writing`. -/
def afterWrite (c : Cfg σ) (env : Env) : Cfg σ :=
  if c.tr.state.writeBuf = [] then
    if c.tr.state.tlsPendingClose then
      match c.tr.state.tlsConn with
      | some conn =>
          let c := closeAlert R c conn env
          finishWrite R (c.setState { c.tr.state with tlsPendingClose := false })
          (some true) env.afterWrite
      | none => finishWrite R c (some true) env
    else closeFromWriteHandle R c false env
  else finishWrite R c none env

/-- `write_buf_size_decr` and what follows it. -/
def written (c : Cfg σ) (n : Nat) (env : Env) : Cfg σ :=
  if 0 < n ∧ c.tr.state.writeBufDsize ≤ c.tr.waterLo ∧ c.tr.protoPaused then
    { c with tr := { c.tr with protoPaused := false } }.call .resumeWriting .resume
  else afterWrite R c env

/-- Whether the wait for the peer's close alert is over. -/
def closeTimedOut (s : TransportState σ) (now : Nat) : Bool :=
  s.tlsCloseSent && s.tlsConn.isSome &&
    s.tlsCloseSentTime.any fun sent => decide (s.sslCloseTimeout * 1000000 < now - sent)

def writeHandleRun (c : Cfg σ) (env : Env) : Cfg σ :=
  if closeTimedOut c.tr.state env.now then
    callConnLost ((c.streamRem .readable).streamRem .writable) none .callConnLost
  else
    match c.tr.state.tlsConn with
    | some conn =>
        match writeTls R c conn env with
        | (c, some n, env) => written R c n env
        | (c, none, env) => closeFromWriteHandle R c true env
    | none =>
        match writePlain c env with
        | (c, some n) => written R c n env
        | (c, none) => closeFromWriteHandle R c true env

/-- What a protocol method gives back. -/
inductive Ret where
  | falsy
  | truthy
  | raised
  | buffer (size : Nat)
  deriving DecidableEq, Repr

/-- `_tcp_conn` after `attach`. -/
def register (c : Cfg σ) : Cfg σ :=
  { c with tables := { c.tables with bound := true } }.streamAdd .readable

/-- The code that follows a call into the protocol. -/
def Frame.after (c : Cfg σ) (r : Ret) (env : Env) : Frame → Cfg σ
  | .attach => if r = .raised then c else register c
  | .connectionMade => c
  | .getBuffer =>
      match r with
      | .buffer size => recvBuffered c size env
      | _ => c.panic
  | .data ended => if ended then recvEof c else readRound R c env
  | .eof => eofReceived R c (r == .truthy) env
  | .lost .callConnLost => tcpStreamClose R c c.borrowed env
  | .lost .tryWrite => tcpStreamClose R c true env
  | .lost .recvEof | .lost .readHandle => tcpStreamClose R c c.borrowed env
  | .lost .writeHandle => finishWrite R c (some true) env
  | .pause _ => c
  | .resume => afterWrite R c env

inductive Act where
  | call (m : Method)
  | server (abort : Bool)
  | ret (r : Ret)
  | poll (d : Dir)
  | fire
  | made
  deriving DecidableEq, Repr

/-- The handle made for an event; without a transport in the table it does nothing. -/
def fire (c : Cfg σ) (d : Dir) (env : Env) : Cfg σ :=
  if c.tables.bound then
    match d with
    | .readable => readRound R c env
    | .writable => writeHandleRun R c env
  else c

/-- A method call needs a reference to the transport, a server's `close_clients` or
`abort_clients` finds it in the tables. A handle or a scheduled `connection_made` runs
when no code of the transport is in progress, `connection_made` before any handle. -/
def step (c : Cfg σ) (a : Act × Env) : Option (Cfg σ) :=
  if c.panicked then none
  else
    match a with
    | (.call m, env) => if c.exposed then some (m.run R c env) else none
    | (.server aborts, env) =>
        if c.tables.bound && c.tables.listed then
          some (Method.run R c env (if aborts then .abort else .close))
        else none
    | (.ret r, env) =>
        match c.stack with
        | [] => none
        | frame :: stack => some (frame.after R { c with stack := stack } r env)
    | (.poll d, _) =>
        if c.stack.isEmpty && c.tables.event.isNone && c.tables.interest.any (Interest.has d) then
          some { c with tables := { c.tables with event := some d } }
        else none
    | (.fire, env) =>
        match c.tables.event with
        | some d =>
            if c.stack.isEmpty && !c.tables.pendingMade then
              some (fire R { c with tables := { c.tables with event := none } } d env)
            else none
        | none => none
    | (.made, _) =>
        if c.stack.isEmpty && c.tables.pendingMade then
          some ({ c with
            tables := { c.tables with pendingMade := false }
            exposed := true }.call .connectionMade .connectionMade)
        else none

/-- The ways to take a step. -/
inductive Stepped (c : Cfg σ) (env : Env) : Act → Cfg σ → Prop where
  | call (m : Method) : c.exposed = true → Stepped c env (.call m) (m.run R c env)
  | server (aborts : Bool) : c.tables.bound = true → c.tables.listed = true →
      Stepped c env (.server aborts) (Method.run R c env (if aborts then .abort else .close))
  | ret (r : Ret) (frame : Frame) (stack : List Frame) : c.stack = frame :: stack →
      Stepped c env (.ret r) (frame.after R { c with stack := stack } r env)
  | poll (d : Dir) : c.stack = [] → c.tables.event = none →
      c.tables.interest.any (Interest.has d) = true →
      Stepped c env (.poll d) { c with tables := { c.tables with event := some d } }
  | fire (d : Dir) : c.stack = [] → c.tables.event = some d → c.tables.pendingMade = false →
      Stepped c env .fire (Tcp.fire R { c with tables := { c.tables with event := none } } d env)
  | made : c.stack = [] → c.tables.pendingMade = true →
      Stepped c env .made ({ c with
        tables := { c.tables with pendingMade := false }
        exposed := true }.call .connectionMade .connectionMade)

variable {R} in
theorem step_stepped {c d : Cfg σ} {act : Act} {env : Env} (h : step R c (act, env) = some d) :
    c.panicked = false ∧ Stepped R c env act d := by
  rw [step.eq_def] at h
  by_cases panicked : c.panicked = true
  · rw [if_pos panicked] at h
    cases h
  · rw [if_neg panicked] at h
    refine ⟨Bool.not_eq_true _ ▸ panicked, ?_⟩
    cases act with
    | call m =>
        obtain ⟨exposed, hd⟩ := Option.ite_none_right_eq_some.mp h
        cases hd
        exact .call m exposed
    | server aborts =>
        obtain ⟨there, hd⟩ := Option.ite_none_right_eq_some.mp h
        obtain ⟨bound, listed⟩ := Bool.and_eq_true_iff.mp there
        cases hd
        exact .server aborts bound listed
    | ret r =>
        simp only at h
        split at h <;> cases h
        next frame stack hstack => exact .ret r frame stack hstack
    | poll dir =>
        obtain ⟨ready, hd⟩ := Option.ite_none_right_eq_some.mp h
        simp only [Bool.and_eq_true, List.isEmpty_iff, Option.isNone_iff_eq_none] at ready
        cases hd
        exact .poll dir ready.1.1 ready.1.2 ready.2
    | fire =>
        simp only at h
        split at h
        next dir hevent =>
          obtain ⟨free, hd⟩ := Option.ite_none_right_eq_some.mp h
          simp only [Bool.and_eq_true, List.isEmpty_iff, Bool.not_eq_true'] at free
          cases hd
          exact .fire dir free.1 hevent free.2
        · cases h
    | made =>
        obtain ⟨free, hd⟩ := Option.ite_none_right_eq_some.mp h
        simp only [Bool.and_eq_true, List.isEmpty_iff] at free
        cases hd
        exact .made free.1 free.2

/-- `TCPTransport::new`, with the protocol's kind and the configured close timeout. -/
def newTransport (lfd : Option Nat) (tlsConn : Option σ) (protoBuffered : Bool)
    (sslCloseTimeout : Nat) : Transport σ where
  lfd := lfd
  state :=
    { tlsConn := tlsConn
      handshakeComplete := false
      connectionMadeCalled := false
      writeBuf := []
      writeBufDsize := 0
      tlsCloseSent := false
      tlsCloseReceived := false
      tlsCloseSentTime := none
      tlsPendingClose := false
      sslCloseTimeout := sslCloseTimeout }
  closing := false
  paused := false
  waterHi := 1024 * 64
  waterLo := 1024 * 64 / 4
  weof := false
  protoBuffered := protoBuffered
  protoPaused := false

/-- An accepted connection: `connection_made` waits in the batch, on TLS for the end of
the handshake. -/
def accepted (lfd : Nat) (tlsConn : Option σ) (protoBuffered : Bool) (sslCloseTimeout : Nat) :
    Cfg σ where
  tr := newTransport (some lfd) tlsConn protoBuffered sslCloseTimeout
  tables := ⟨some (.only .readable), true, true, tlsConn.isNone, none⟩
  stack := []
  exposed := false
  panicked := false
  log := []

/-- A client connection in `_tcp_conn`: on a plain one `attach` has just called
`connection_made`, a TLS one is registered. -/
def connected (tlsConn : Option σ) (protoBuffered : Bool) (sslCloseTimeout : Nat) : Cfg σ :=
  let c : Cfg σ :=
    { tr := newTransport none tlsConn protoBuffered sslCloseTimeout
      tables := ⟨none, false, false, false, none⟩
      stack := []
      exposed := true
      panicked := false
      log := [] }
  match tlsConn with
  | none => c.call .connectionMade .attach
  | some conn => register (if R.wantsWrite conn then c.streamAdd .writable else c)

section TlsWriter
variable {R} {S : Cfg σ → Cfg σ → Prop}

/-- The TLS writer is flushes around one encryption loop: a relation that composes and holds
over a flush and over the loop holds over the writer. -/
theorem writeEncrypted_rel (trans : ∀ {a b c}, S a b → S b c → S a c)
    (flush : ∀ (c : Cfg σ) (conn : σ) (env : Env), c.tr.state.tlsConn = some conn → S c
      (flushTls R c conn env).1)
    (encrypt : ∀ (c : Cfg σ) (conn conn' : σ) (left : List Bytes) (popped : Nat) (ok : Bool)
      (obs : List Obs), c.tr.state.tlsConn = some conn →
      encryptLoop R conn c.tr.state.writeBuf = (conn', left, popped, ok, obs) →
      S c (encrypted c conn' left popped obs))
    {c : Cfg σ} {conn : σ} (h : c.tr.state.tlsConn = some conn) (env : Env) :
    S c (writeEncrypted R c conn env).1 := by
  simp only [writeEncrypted]
  split
  next hloop => exact encrypt c conn _ _ _ _ _ h hloop
  next conn' left popped obs hloop =>
    have flushed := trans (encrypt c conn _ _ _ _ _ h hloop)
      (flush (encrypted c conn' left popped obs) conn' env rfl)
    split
    next hflush =>
      rw [hflush] at flushed
      exact flushed
    next hflush =>
      rw [hflush] at flushed
      exact flushed

theorem writeTls_rel (trans : ∀ {a b c}, S a b → S b c → S a c)
    (flush : ∀ (c : Cfg σ) (conn : σ) (env : Env), c.tr.state.tlsConn = some conn → S c
      (flushTls R c conn env).1)
    (encrypt : ∀ (c : Cfg σ) (conn conn' : σ) (left : List Bytes) (popped : Nat) (ok : Bool)
      (obs : List Obs), c.tr.state.tlsConn = some conn →
      encryptLoop R conn c.tr.state.writeBuf = (conn', left, popped, ok, obs) →
      S c (encrypted c conn' left popped obs))
    {c : Cfg σ} {conn : σ} (h : c.tr.state.tlsConn = some conn) (env : Env) : S c
    (writeTls R c conn env).1 := by
  have flushed := flush c conn env h
  have there : (flushTls R c conn env).1.tr.state.tlsConn = some (flushTls R c conn env).2.1 := rfl
  simp only [writeTls]
  split
  next hflush =>
    rw [hflush] at flushed
    exact flushed
  next hflush =>
    rw [hflush] at flushed
    exact flushed
  next hflush =>
    rw [hflush] at flushed there
    split_ifs
    · exact trans flushed (writeEncrypted_rel (S := S) trans flush encrypt there _)
    · exact flushed

end TlsWriter

end TokioLoop.Tcp
