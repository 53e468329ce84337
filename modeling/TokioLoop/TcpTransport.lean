import TokioLoop.Lib.Runs

/-!
RLoop's `TCPTransport`, plain and TLS, with the loop's table entries for its file
descriptor. Everything runs on the loop thread, so the atomic pieces of code are those
between two calls into the protocol: a call pushes a frame that says where the code
goes on, and while the frame is there the protocol may call any method of the transport.

`Env` holds what the system calls of one piece return. The release profile aborts on
panic, so a panicked configuration has no further step.
-/
namespace TokioLoop.Tcp

abbrev Bytes := List UInt8

inductive Dir where
  | readable
  | writable
  deriving DecidableEq, Repr

/-- `mio::Interest`: a non-empty set of directions. -/
inductive Interest where
  | only (d : Dir)
  | both
  deriving DecidableEq, Repr

def Interest.has (d : Dir) : Interest → Bool
  | .only e => e == d
  | .both => true

def Interest.add (d : Dir) : Interest → Interest
  | .only e => if e = d then .only e else .both
  | .both => .both

def Interest.remove (d : Dir) : Interest → Option Interest
  | .only e => if e = d then none else some (.only e)
  | .both => some (.only (match d with | .readable => .writable | .writable => .readable))

/-- Result of `write(2)`; `ok n` reports `n` bytes taken. -/
inductive WriteResult where
  | ok (n : Nat)
  | interrupted
  | wouldBlock
  | fatal (text : String)
  deriving DecidableEq, Repr

/-- The part of `data` the kernel took. -/
def WriteResult.taken (data : Bytes) : WriteResult → Bytes
  | .ok n => data.take n
  | _ => []

inductive ReadResult where
  | data (bytes : Bytes)
  | eof
  | interrupted
  | wouldBlock
  | error
  deriving DecidableEq, Repr

/-- Results of the system calls of one piece of code, in order, and the clock in
nanoseconds. A call past the end of its list would block. -/
structure Env where
  reads : List ReadResult
  writes : List WriteResult
  now : Nat
  deriving DecidableEq, Repr

def Env.nextWrite (env : Env) : WriteResult := env.writes.headD .wouldBlock

def Env.afterWrite (env : Env) : Env := { env with writes := env.writes.tail }

/-- The operations of a `rustls::Connection` the transport uses. A failed operation
gives `none`; `readTls` and `write` say how many bytes they took, `writeTls` what it
put into the buffer, `processNewPackets` whether the peer has closed. -/
structure Rustls (σ : Type) where
  readTls : σ → Bytes → σ × Option Nat
  processNewPackets : σ → σ × Option Bool
  isHandshaking : σ → Bool
  wantsWrite : σ → Bool
  read : σ → Nat → σ × Option Bytes
  plaintextLeft : σ → Nat
  write : σ → Bytes → σ × Option Nat
  writeTls : σ → σ × Option Bytes
  sendCloseNotify : σ → σ
  read_shrinks : ∀ conn cap bytes, (read conn cap).2 = some bytes → bytes ≠ [] →
    plaintextLeft (read conn cap).1 < plaintextLeft conn
  read_wants : ∀ conn cap, wantsWrite (read conn cap).1 = wantsWrite conn

inductive Callback where
  | connectionMade
  | getBuffer
  | dataReceived (data : Bytes)
  | eofReceived
  | pauseWriting
  | resumeWriting
  | connectionLost (err : Option String)
  deriving DecidableEq, Repr

/-- What the outside sees of a transport. `shutdown` and a callback carry the write
buffer of that moment; `recvTls` is a read of `recv_direct` on TLS, `fed` a call of
`read_tls` and `encrypted` one of `write_all` with the part of the data that was
accepted. `flushed` is a call of `write_tls` with what it gave and the `write(2)` of
that, if there was one; there, and where rustls ends the connection, `more` says
whether rustls still has bytes to send. -/
inductive Obs where
  | callback (e : Callback) (buffered : List Bytes)
  | accepted (data : Bytes)
  | write (data : Bytes) (r : WriteResult)
  | shutdown (buffered : List Bytes)
  | recv (data : Bytes)
  | recvTls (data : Bytes)
  | fed (offered : Bytes) (n : Nat)
  | tlsError (more : Bool)
  | closeNotify (more : Bool)
  | encrypted (data taken : Bytes) (ok : Bool)
  | flushed (alert : Bool) (out : Option Bytes) (more : Bool) (r : WriteResult)
  | raised (text : String)
  deriving DecidableEq, Repr

def Obs.asCallback : Obs → Option Callback
  | .callback e _ => some e
  | _ => none

/-- What follows a call of `connection_lost`. -/
inductive AfterLost where
  | callConnLost
  | tryWrite
  | recvEof
  | readHandle
  | writeHandle
  deriving DecidableEq, Repr

/-- A protocol method in progress and the place in the code that called it. -/
inductive Frame where
  | attach
  | connectionMade
  | getBuffer
  | data (eof : Bool)
  | eof
  | lost (k : AfterLost)
  | pause (inWrite : Bool)
  | resume
  deriving DecidableEq, Repr

/-- The frames of `try_write` hold its mutable borrow of the state. -/
def Frame.borrows : Frame → Bool
  | .lost .tryWrite => true
  | .pause inWrite => inWrite
  | _ => false

/-- Frames of methods, which may stand on top of others. -/
def Frame.nested : Frame → Bool
  | .pause _ | .lost .callConnLost | .lost .tryWrite => true
  | _ => false

/-- `TCPTransportState`, the content of the `RefCell`. -/
structure TransportState (σ : Type) where
  tlsConn : Option σ
  handshakeComplete : Bool
  connectionMadeCalled : Bool
  writeBuf : List Bytes
  writeBufDsize : Nat
  tlsCloseSent : Bool
  tlsCloseReceived : Bool
  tlsCloseSentTime : Option Nat
  tlsPendingClose : Bool
  sslCloseTimeout : Nat

structure Transport (σ : Type) where
  lfd : Option Nat
  state : TransportState σ
  closing : Bool
  paused : Bool
  waterHi : Nat
  waterLo : Nat
  weof : Bool
  protoBuffered : Bool
  protoPaused : Bool

/-- The loop's side of the file descriptor: its `handles_io` entry, whether it is in
`tcp_transports` and in its listener's set, a `connection_made` still in the ready
queue, and the handle the last dispatch made for it. -/
structure Tables where
  interest : Option Interest
  bound : Bool
  listed : Bool
  pendingMade : Bool
  event : Option Dir
  deriving DecidableEq, Repr

/-- `exposed` says that Python code has a reference to the transport. -/
structure Cfg (σ : Type) where
  tr : Transport σ
  tables : Tables
  stack : List Frame
  exposed : Bool
  panicked : Bool
  log : List Obs

variable {σ : Type}

/-- The calls into the protocol so far. -/
def Cfg.callbacks (c : Cfg σ) : List Callback := c.log.filterMap Obs.asCallback

def Cfg.lost (c : Cfg σ) : Prop := ∃ err, .connectionLost err ∈ c.callbacks

def Cfg.emit (c : Cfg σ) (o : Obs) : Cfg σ := { c with log := c.log ++ [o] }

def Cfg.panic (c : Cfg σ) : Cfg σ := { c with panicked := true }

/-- Call into the protocol. -/
def Cfg.call (c : Cfg σ) (e : Callback) (frame : Frame) : Cfg σ :=
  { c.emit (.callback e c.tr.state.writeBuf) with stack := frame :: c.stack }

theorem lost_mono {c d : Cfg σ} {obs : List Obs} (hlog : d.log = c.log ++ obs)
    (h : c.lost) : d.lost := by
  obtain ⟨err, hmem⟩ := h
  refine ⟨err, ?_⟩
  rw [Cfg.callbacks, hlog, List.filterMap_append]
  exact List.mem_append_left _ hmem

theorem lost_call (c : Cfg σ) (err : Option String)
    (frame : Frame) : (c.call (.connectionLost err) frame).lost := by
  refine ⟨err, ?_⟩
  simp [Cfg.callbacks, Cfg.call, Cfg.emit, Obs.asCallback]

def Cfg.borrowed (c : Cfg σ) : Bool := c.stack.any Frame.borrows

def Cfg.setState (c : Cfg σ) (s : TransportState σ) : Cfg σ :=
  { c with tr := { c.tr with state := s } }

def Cfg.setConn (c : Cfg σ) (conn : σ) : Cfg σ :=
  c.setState { c.tr.state with tlsConn := some conn }

def Cfg.setClosing (c : Cfg σ) : Cfg σ := { c with tr := { c.tr with closing := true } }

/-- `tcp_stream_add` -/
def Cfg.streamAdd (c : Cfg σ) (d : Dir) : Cfg σ :=
  { c with tables := { c.tables with
    interest := some (c.tables.interest.elim (.only d) (Interest.add d)) } }

/-- `tcp_stream_rem`. Its `unwrap` cannot fail: an entry equal to the direction is
removed before, and any other entry keeps the other direction. -/
def Cfg.streamRem (c : Cfg σ) (d : Dir) : Cfg σ :=
  { c with tables := { c.tables with interest := c.tables.interest.bind (Interest.remove d) } }

def Cfg.unbind (c : Cfg σ) : Cfg σ := { c with tables := { c.tables with bound := false } }

/-- The transport leaves the set of its listener. -/
def Cfg.unlist (c : Cfg σ) : Cfg σ :=
  if c.tr.lfd.isSome then { c with tables := { c.tables with listed := false } } else c

/-- `call_conn_lost` up to the call. -/
def callConnLost (c : Cfg σ) (err : Option String) (k : AfterLost) : Cfg σ :=
  c.call (.connectionLost err) (.lost k)

section Methods
variable (R : Rustls σ)

/-- The close alert of `close` and of `TCPWriteHandle::run`: what rustls gives goes to
one `write(2)` whose result is ignored. -/
def closeAlert (c : Cfg σ) (conn : σ) (env : Env) : Cfg σ :=
  let (conn, out) := R.writeTls (R.sendCloseNotify conn)
  let c := c.setState { c.tr.state with
    tlsConn := some conn
    tlsCloseSent := true
    tlsCloseSentTime := some env.now }
  c.emit (.flushed true out (R.wantsWrite conn) env.nextWrite)

/-- The end of the TLS branch looks the transport up again and unwraps the result. -/
def closeTls (c : Cfg σ) (conn : σ) (env : Env) : Cfg σ :=
  if c.tr.state.writeBuf ≠ [] then c.setState { c.tr.state with tlsPendingClose := true }
  else
    let c := (closeAlert R c conn env).streamRem .writable
    if c.tables.bound then c else c.panic

def closePlain (c : Cfg σ) : Cfg σ :=
  let c := c.streamRem .readable
  if c.tr.state.writeBufDsize = 0 then callConnLost (c.streamRem .writable) none .callConnLost
    else c

def close (c : Cfg σ) (env : Env) : Cfg σ :=
  if c.tr.closing then c
  else
    let c := c.setClosing
    if c.borrowed then c.panic
    else
      match c.tr.state.tlsConn with
      | some conn => closeTls R c conn env
      | none => closePlain c

/-- `held` says that a mutable borrow of the state is outstanding. -/
def tcpStreamClose (c : Cfg σ) (held : Bool) (env : Env) : Cfg σ :=
  if c.tables.bound then
    let c := c.unbind
    if held then c.panic
    else
      let c := if c.tr.state.tlsConn.isSome then close R c env else c
      if c.panicked then c else c.unlist
  else c

def abort (c : Cfg σ) : Cfg σ :=
  if c.borrowed then c.panic
  else
    let c := if 0 < c.tr.state.writeBufDsize then c.streamRem .writable else c
    let c := if c.tr.closing then c else c.setClosing.streamRem .readable
    callConnLost c none .callConnLost

/-- The buffer grows by `n` bytes; the first of them register `WRITABLE`. -/
def grow (c : Cfg σ) (n : Nat) : Cfg σ :=
  let c := if c.tr.state.writeBufDsize = 0 then c.streamAdd .writable else c
  c.setState { c.tr.state with writeBufDsize := c.tr.state.writeBufDsize + n }

def Cfg.pauseProto (c : Cfg σ) (inWrite : Bool) : Cfg σ :=
  { c with tr := { c.tr with protoPaused := true } }.call .pauseWriting (.pause inWrite)

/-- The end of `try_write` when `n > 0` bytes were added to the buffer. -/
def bufAdded (c : Cfg σ) (n : Nat) : Cfg σ :=
  let c := grow c n
  if c.tr.waterHi < c.tr.state.writeBufDsize ∧ c.tr.protoPaused = false then c.pauseProto true
    else c

def pushBack (c : Cfg σ) (data : Bytes) : Cfg σ :=
  bufAdded (c.setState { c.tr.state with writeBuf := c.tr.state.writeBuf ++ [data] }) data.length

/-- The buffer grows, and the protocol may be paused after that. -/
theorem pushBack_rule {P : Cfg σ → Prop} {c : Cfg σ} {data : Bytes}
    (grown : ∀ paused,
      P { grow (c.setState { c.tr.state with writeBuf := c.tr.state.writeBuf ++ [data] })
        data.length with
        tr := { (grow (c.setState { c.tr.state with writeBuf := c.tr.state.writeBuf ++ [data] })
            data.length).tr with
          protoPaused := paused } })
    (called : ∀ d, P d → P (d.call .pauseWriting (.pause true))) : P (pushBack c data) := by
  simp only [pushBack, bufAdded]
  split
  · exact called _ (grown true)
  · exact grown _

/-- The direct `write(2)` of `try_write`, made with an empty buffer only. -/
def directWrite (c : Cfg σ) (data : Bytes) (r : WriteResult) : Cfg σ :=
  let c := c.emit (.write data r)
  match r with
  | .ok n => if data.length ≤ n then c else pushBack c (data.drop n)
  | .interrupted | .wouldBlock => pushBack c data
  | .fatal text =>
      let c := if c.tr.closing then c else c.setClosing.streamRem .readable
      callConnLost c (some text) .tryWrite

def tryWrite (c : Cfg σ) (data : Bytes) (env : Env) : Cfg σ :=
  if c.tr.weof then c.emit (.raised "Cannot write after EOF")
  else if data = [] then c
  else if c.borrowed then c.panic
  else
    let c := c.emit (.accepted data)
    if c.tr.state.tlsConn.isSome then pushBack c data
    else if c.tr.state.writeBufDsize = 0 then directWrite c data env.nextWrite
    else pushBack c data

def Cfg.shutdownWrite (c : Cfg σ) : Cfg σ := c.emit (.shutdown c.tr.state.writeBuf)

def writeEof (c : Cfg σ) : Cfg σ :=
  if c.tr.closing then c
  else if c.tr.weof then c
  else
    let c := { c with tr := { c.tr with weof := true } }
    if c.borrowed then c.panic
    else if c.tr.state.writeBufDsize = 0 then c.shutdownWrite
    else c

def pauseReading (c : Cfg σ) : Cfg σ :=
  if c.tr.closing then c
  else if c.tr.paused then c
  else { c with tr := { c.tr with paused := true } }.streamRem .readable

def resumeReading (c : Cfg σ) : Cfg σ :=
  if c.tr.closing then c
  else if c.tr.paused then { c with tr := { c.tr with paused := false } }.streamAdd .readable
  else c

/-- The limits `set_write_buffer_limits` computes; `v * 4` wraps. -/
def bufferLimits (high low : Option Nat) : Nat × Nat :=
  let wh := high.getD (low.elim (1024 * 64) fun v => v * 4 % UInt64.size)
  (wh, low.getD (wh / 4))

def setWriteBufferLimits (c : Cfg σ) (high low : Option Nat) : Cfg σ :=
  let (wh, wl) := bufferLimits high low
  if wh < wl then c.emit (.raised "high must be >= low must be >= 0")
  else
    let c := { c with tr := { c.tr with waterHi := wh, waterLo := wl } }
    if c.borrowed then c.panic
    else if wh < c.tr.state.writeBufDsize ∧ c.tr.protoPaused = false then c.pauseProto false
    else c

/-- A method that does no more than read the state. -/
def readState (c : Cfg σ) : Cfg σ := if c.borrowed then c.panic else c

def isTls (c : Cfg σ) : Cfg σ := readState c

def getWriteBufferSize (c : Cfg σ) : Cfg σ := readState c

/-- The methods that change something or borrow the state. -/
inductive Method where
  | write (data : Bytes)
  | writelines (data : List Bytes)
  | writeEof
  | close
  | abort
  | pauseReading
  | resumeReading
  | setWriteBufferLimits (high low : Option Nat)
  | isTls
  | getWriteBufferSize
  | callConnectionLost
  deriving DecidableEq, Repr

def Method.run (c : Cfg σ) (env : Env) : Method → Cfg σ
  | .write data => tryWrite c data env
  | .writelines data => tryWrite c data.flatten env
  | .writeEof => Tcp.writeEof c
  | .close => Tcp.close R c env
  | .abort => Tcp.abort c
  | .pauseReading => Tcp.pauseReading c
  | .resumeReading => Tcp.resumeReading c
  | .setWriteBufferLimits high low => Tcp.setWriteBufferLimits c high low
  | .isTls => Tcp.isTls c
  | .getWriteBufferSize => Tcp.getWriteBufferSize c
  | .callConnectionLost => callConnLost c none .callConnLost

end Methods

variable {R : Rustls σ}

def Method.tunes : Method → Bool
  | .write _ | .writelines _ | .close | .abort | .callConnectionLost => false
  | _ => true

/-- What such a method can do. -/
inductive Tuned (c : Cfg σ) : Cfg σ → Prop where
  | unchanged : Tuned c c
  | set (weof : Bool) (waterHi waterLo : Nat) :
      Tuned c { c with tr := { c.tr with weof := weof, waterHi := waterHi, waterLo := waterLo } }
  | borrowed (weof : Bool) (waterHi waterLo : Nat) (held : c.borrowed = true) :
      Tuned c (Cfg.panic { c with tr :=
        { c.tr with weof := weof, waterHi := waterHi, waterLo := waterLo } })
  | raised (text : String) : Tuned c (c.emit (.raised text))
  | shutdown (opened : c.tr.closing = false) (drained : c.tr.state.writeBufDsize = 0) :
      Tuned c (Cfg.shutdownWrite { c with tr := { c.tr with weof := true } })
  | pauseReading (opened : c.tr.closing = false) :
      Tuned c (Cfg.streamRem { c with tr := { c.tr with paused := true } } .readable)
  | resumeReading (opened : c.tr.closing = false) :
      Tuned c (Cfg.streamAdd { c with tr := { c.tr with paused := false } } .readable)
  | pauseWriting (waterHi waterLo : Nat) (above : waterHi < c.tr.state.writeBufDsize)
      (running : c.tr.protoPaused = false) :
      Tuned c (Cfg.pauseProto { c with tr := { c.tr with waterHi := waterHi, waterLo := waterLo } }
        false)

theorem Method.tuned {m : Method} (tunes : m.tunes = true) (c : Cfg σ)
    (env : Env) : Tuned c (m.run R c env) := by
  have read : Tuned c (readState c) := by
    unfold readState
    split_ifs with held
    · exact .borrowed _ _ _ held
    · exact .unchanged
  cases m with
  | write | writelines | close | abort | callConnectionLost => cases tunes
  | writeEof =>
      simp only [Method.run, Tcp.writeEof]
      split_ifs with closing weof held drained
      · exact .unchanged
      · exact .unchanged
      · exact .borrowed true _ _ held
      · exact .shutdown (Bool.eq_false_iff.mpr closing) drained
      · exact .set true _ _
  | pauseReading =>
      simp only [Method.run, Tcp.pauseReading]
      split_ifs with closing
      · exact .unchanged
      · exact .unchanged
      · exact .pauseReading (Bool.eq_false_iff.mpr closing)
  | resumeReading =>
      simp only [Method.run, Tcp.resumeReading]
      split_ifs with closing
      · exact .unchanged
      · exact .resumeReading (Bool.eq_false_iff.mpr closing)
      · exact .unchanged
  | setWriteBufferLimits high low =>
      simp only [Method.run, Tcp.setWriteBufferLimits]
      split_ifs with invalid held above
      · exact .raised _
      · exact .borrowed _ _ _ held
      · exact .pauseWriting _ _ above.1 above.2
      · exact .set _ _ _
  | isTls | getWriteBufferSize => exact read

end TokioLoop.Tcp
