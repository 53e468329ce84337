import TokioLoop.TcpTransport
import TokioLoop.Lib.Runs

/-!
`_PipeReadTransport` and `_PipeWriteTransport` of `rloop/subprocess.py`, with the queue of
the loop that runs their callbacks. The atomic pieces of code are those between two calls
into Python code of others: a call of the protocol or of the exception handler pushes a
frame, and while the frame is there any method may be called.

One iteration of the loop runs what was in the ready queue and then the callbacks of a
descriptor reported ready. It holds copies of these, so a callback whose registration is
gone may still run; a loop that checks passes over it.
-/
namespace TokioLoop.Pipes

open Tcp (Bytes)

inductive Kind where
  | read
  | write
  deriving DecidableEq, Repr

/-- What `connection_lost` gets. -/
inductive Exn where
  | brokenPipe
  | raised (errno : Nat)
  deriving DecidableEq, Repr

/-- Result of `os.write` on a pipe with room for `n` bytes, or of one that raises. -/
inductive WriteResult where
  | room (n : Nat)
  | blocked
  | failed (exc : Exn)
  | exits
  deriving DecidableEq, Repr

/-- Result of `os.read`. -/
inductive ReadResult where
  | data
  | eof
  | blocked
  | failed (exc : Exn)
  deriving DecidableEq, Repr

/-- How a call into Python code ends: `exits` is `SystemExit` or `KeyboardInterrupt`,
`raised` any other exception. -/
inductive Ret where
  | returned
  | raised
  | exits
  deriving DecidableEq, Repr

/-- A callback in the queue of the loop. The first three are scheduled by `__init__`. -/
inductive Item where
  | connectionMade
  | addReader
  | waiter
  | eofReceived
  | callConnectionLost (exc : Option Exn)
  | readReady
  | writeReady
  deriving DecidableEq, Repr

/-- A call in progress and the place in the code that made it: of the protocol, or, in
the frames that end in `Failed` and in `fatal`, of the exception handler. -/
inductive Frame where
  | connectionMade
  | dataReceived
  | eofReceived
  | pauseWriting
  | pauseFailed
  | resumeWriting
  | resumeFailed
  | fatal (exc : Exn) (message : String)
  | connectionLost
  deriving DecidableEq, Repr

/-- A transport. `gone` says that `_protocol`, `_pipe` and `_loop` are `None`, `reader` and
`writer` that the loop has the callback, and `batch` is what the iteration in progress has
yet to run. The last six fields are what the run has shown: the bytes the kernel took and
those `write` accepted, whether the connection came to a fatal error, an abort or a close
of the peer, the executions of `_call_connection_lost` with the buffer at that time,
whether an attribute of `None` was used, and whether the assertion of `_write_ready` failed. -/
structure Cfg where
  buffer : Bytes
  connLost : Nat
  closing : Bool
  paused : Bool
  protocolPaused : Bool
  highWater : Int
  lowWater : Int
  gone : Bool
  reader : Bool
  writer : Bool
  batch : List Item
  ready : List Item
  stack : List Frame
  kernel : Bytes
  accepted : Bytes
  ended : Bool
  lost : List (Option Exn × Bytes)
  broken : Bool
  asserted : Bool

/-- After `__init__`. -/
def Cfg.init : Cfg where
  buffer := []
  connLost := 0
  closing := false
  paused := false
  protocolPaused := false
  highWater := 64 * 1024
  lowWater := 64 * 1024 / 4
  gone := false
  reader := false
  writer := false
  batch := []
  ready := [.connectionMade, .addReader, .waiter]
  stack := []
  kernel := []
  accepted := []
  ended := false
  lost := []
  broken := false
  asserted := false

/-- What the loop has yet to run, in this order. -/
def Cfg.queue (c : Cfg) : List Item := c.batch ++ c.ready

/-- Code that uses an attribute of `_protocol`, `_pipe` or `_loop`. -/
def Cfg.deref (c : Cfg) (f : Cfg → Cfg) : Cfg := if c.gone then { c with broken := true } else f c

def Cfg.callSoon (c : Cfg) (item : Item) : Cfg := { c with ready := c.ready ++ [item] }

def Cfg.push (c : Cfg) (frame : Frame) : Cfg := { c with stack := frame :: c.stack }

/-- `self._protocol.method()` or `self._loop.call_exception_handler()`. -/
def Cfg.enter (c : Cfg) (frame : Frame) : Cfg := c.deref fun c => c.push frame

/-- `_fatal_error`, up to the exception handler. -/
def Cfg.fatalError (c : Cfg) (exc : Exn) (message : String) : Cfg :=
  { c with ended := true }.enter (.fatal exc message)

/-- `_call_connection_lost`, up to the protocol's method. -/
def Cfg.callConnectionLost (c : Cfg) (exc : Option Exn) : Cfg :=
  { c with lost := c.lost ++ [(exc, c.buffer)] }.enter .connectionLost

/-- The `finally` of `_call_connection_lost`. -/
def Cfg.release (c : Cfg) : Cfg := c.deref fun c => { c with gone := true }

def Cfg.maybePauseProtocol (c : Cfg) : Cfg :=
  if (c.buffer.length : Int) ≤ c.highWater then c
  else if c.protocolPaused then c
  else { c with protocolPaused := true }.enter .pauseWriting

/-- The end of `_write_ready` once the buffer is drained. -/
def Cfg.drained (c : Cfg) : Cfg :=
  if c.closing then c.deref fun c => { c with reader := false }.callConnectionLost none else c

/-- `_maybe_resume_protocol` with the rest of `_write_ready`. -/
def Cfg.maybeResumeProtocol (c : Cfg) : Cfg :=
  if c.protocolPaused ∧ (c.buffer.length : Int) ≤ c.lowWater then
    { c with protocolPaused := false }.enter .resumeWriting
  else c.drained

/-- The marks for the two arguments; `none` is a `ValueError`. -/
def waterMarks (high low : Option Int) : Option (Int × Int) :=
  let high := high.getD (low.elim (64 * 1024) fun low => 4 * low)
  let low := low.getD (high / 4)
  if low ≤ high ∧ 0 ≤ low then some (high, low) else none

def Cfg.setWriteBufferLimits (c : Cfg) (high low : Option Int) : Cfg :=
  match waterMarks high low with
  | some (high, low) => { c with highWater := high, lowWater := low }.maybePauseProtocol
  | none => c

namespace Read

def isReading (c : Cfg) : Bool := !c.paused && !c.closing

/-- `_close` -/
def closeWith (c : Cfg) (exc : Option Exn) : Cfg :=
  { c with closing := true }.deref fun c =>
    { c with reader := false }.callSoon (.callConnectionLost exc)

def addReader (c : Cfg) : Cfg := if isReading c then c.deref fun c => { c with reader := true }
    else c

def readReady (c : Cfg) : ReadResult → Cfg
  | .blocked => c
  | .failed exc => c.fatalError exc "Fatal read error on pipe transport"
  | .data => c.enter .dataReceived
  | .eof =>
      { c with closing := true, ended := true }.deref fun c =>
        ({ c with reader := false }.callSoon .eofReceived).callSoon (.callConnectionLost none)

def pauseReading (c : Cfg) : Cfg :=
  if isReading c then { c with paused := true }.deref fun c => { c with reader := false } else c

def resumeReading (c : Cfg) : Cfg :=
  if c.closing ∨ c.paused = false then c
  else { c with paused := false }.deref fun c => { c with reader := true }

def close (c : Cfg) : Cfg := if c.closing then c else closeWith c none

end Read

namespace Write

/-- `_close`, of an abort, a close of the peer or a fatal error. -/
def closeWith (c : Cfg) (exc : Option Exn) : Cfg :=
  { c with closing := true, ended := true }.deref fun c =>
    { c with
      writer := if c.buffer = [] then c.writer else false
      buffer := []
      reader := false }.callSoon (.callConnectionLost exc)

def addReader (c : Cfg) : Cfg := c.deref fun c => { c with reader := true }

/-- The peer closed the pipe. -/
def readReady (c : Cfg) : Cfg := closeWith c (if c.buffer = [] then none else some .brokenPipe)

/-- `write` after `os.write` took the first `n` bytes. -/
def wrote (c : Cfg) (data : Bytes) (n : Nat) : Cfg :=
  let c := { c with kernel := c.kernel ++ data.take n, accepted := c.accepted ++ data }
  if n = data.length then c
  else c.deref fun c => { c with writer := true, buffer := data.drop n }.maybePauseProtocol

def write (c : Cfg) (data : Bytes) (result : WriteResult) : Cfg :=
  if data = [] then c
  else if c.connLost ≠ 0 ∨ c.closing then { c with connLost := c.connLost + 1 }
  else if c.buffer = [] then
    match result with
    | .room n => wrote c data (min n data.length)
    | .blocked => wrote c data 0
    | .failed exc =>
        { c with connLost := c.connLost + 1 }.fatalError exc "Fatal write error on pipe transport"
    | .exits => c
  else { c with accepted := c.accepted ++ data, buffer := c.buffer ++ data }.maybePauseProtocol

/-- `_write_ready` after `os.write` took the first `n` bytes of the buffer. -/
def writeReadyWrote (c : Cfg) (n : Nat) : Cfg :=
  let d := { c with kernel := c.kernel ++ c.buffer.take n, buffer := c.buffer.drop n }
  if n = c.buffer.length then d.deref fun c => { c with writer := false }.maybeResumeProtocol else d

def writeReady (c : Cfg) (result : WriteResult) : Cfg :=
  if c.buffer = [] then { c with asserted := true }
  else
    match result with
    | .room n => writeReadyWrote c (min n c.buffer.length)
    | .blocked | .exits => c
    | .failed exc =>
        { c with buffer := [], connLost := c.connLost + 1 }.deref fun c =>
          { c with writer := false }.fatalError exc "Fatal write error on pipe transport"

def writeEof (c : Cfg) : Cfg :=
  if c.closing then c
  else
    let c := { c with closing := true }
    if c.buffer = [] then
      c.deref fun c => { c with reader := false }.callSoon (.callConnectionLost none)
    else c

def close (c : Cfg) : Cfg := if c.gone = false ∧ c.closing = false then writeEof c else c

def abort (c : Cfg) : Cfg := closeWith c none

end Write

inductive Method where
  | write (data : Bytes)
  | writeEof
  | abort
  | setWriteBufferLimits (high low : Option Int)
  | pauseReading
  | resumeReading
  | close
  deriving DecidableEq, Repr

/-- `pop` and `call` carry the results of the system calls made. -/
inductive Action where
  | poll (readable writable : Bool)
  | pop (read : ReadResult) (write : WriteResult)
  | skip
  | call (m : Method) (write : WriteResult)
  | ret (r : Ret)
  deriving DecidableEq, Repr

/-- A call of a method that the class has. -/
def Method.run (c : Cfg) (result : WriteResult) : Kind → Method → Option Cfg
  | .write, .write data => some (Write.write c data result)
  | .write, .writeEof => some (Write.writeEof c)
  | .write, .abort => some (Write.abort c)
  | .write, .setWriteBufferLimits high low => some (c.setWriteBufferLimits high low)
  | .write, .close => some (Write.close c)
  | .read, .pauseReading => some (Read.pauseReading c)
  | .read, .resumeReading => some (Read.resumeReading c)
  | .read, .close => some (Read.close c)
  | _, _ => none

def closeWith : Kind → Cfg → Option Exn → Cfg
  | .read => Read.closeWith
  | .write => Write.closeWith

/-- The bound methods `connection_made` and `eof_received` were read off when they were
scheduled. -/
def Item.run (kind : Kind) (c : Cfg) (read : ReadResult) (write : WriteResult) : Item → Cfg
  | .connectionMade => c.push .connectionMade
  | .eofReceived => c.push .eofReceived
  | .waiter => c
  | .callConnectionLost exc => c.callConnectionLost exc
  | .writeReady => Write.writeReady c write
  | .addReader => match kind with
    | .read => Read.addReader c
    | .write => Write.addReader c
  | .readReady => match kind with
    | .read => Read.readReady c read
    | .write => Write.readReady c

/-- What follows a call once its frame is off the stack. An exception of the exception
handler stays in `_exception_handler`. -/
def Frame.after (kind : Kind) (c : Cfg) (r : Ret) : Frame → Cfg
  | .connectionMade | .dataReceived | .eofReceived | .pauseFailed => c
  | .pauseWriting => if r = .raised then c.enter .pauseFailed else c
  | .resumeWriting => match r with
    | .returned => c.drained
    | .raised => c.enter .resumeFailed
    | .exits => c
  | .resumeFailed => if r = .exits then c else c.drained
  | .fatal exc _ => if r = .exits then c else closeWith kind c (some exc)
  | .connectionLost => c.release

/-- The loop has the callback of this item. -/
def Cfg.registered (c : Cfg) : Item → Bool
  | .readReady => c.reader
  | .writeReady => c.writer
  | _ => true

/-- The callbacks the poll reports. -/
def Cfg.reported (c : Cfg) (readable writable : Bool) : List Item :=
  (if readable && c.reader then [.readReady] else []) ++ if writable && c.writer then [.writeReady]
    else []

def step (kind : Kind) (c : Cfg) : Action → Option Cfg
  | .poll readable writable =>
      if c.stack = [] ∧ c.batch = [] then
        some { c with batch := c.ready ++ c.reported readable writable, ready := [] }
      else none
  | .pop read write =>
      match c.batch with
      | item :: rest =>
          if c.stack = [] then some (item.run kind { c with batch := rest } read write) else none
      | [] => none
  | .skip =>
      match c.batch with
      | item :: rest => if c.registered item then none else some { c with batch := rest }
      | [] => none
  | .call m write => m.run c write kind
  | .ret r =>
      match c.stack with
      | frame :: stack => some (frame.after kind { c with stack := stack } r)
      | [] => none

/-- The methods of the two classes. -/
inductive Called (c : Cfg) (result : WriteResult) : Kind → Method → Cfg → Prop where
  | write (data : Bytes) : Called c result .write (.write data) (Write.write c data result)
  | writeEof : Called c result .write .writeEof (Write.writeEof c)
  | abort : Called c result .write .abort (Write.abort c)
  | setWriteBufferLimits (high low : Option Int) :
      Called c result .write (.setWriteBufferLimits high low) (c.setWriteBufferLimits high low)
  | closeWrite : Called c result .write .close (Write.close c)
  | pauseReading : Called c result .read .pauseReading (Read.pauseReading c)
  | resumeReading : Called c result .read .resumeReading (Read.resumeReading c)
  | closeRead : Called c result .read .close (Read.close c)

theorem run_called {kind : Kind} {c d : Cfg} {m : Method} {result : WriteResult}
    (h : m.run c result kind = some d) :
    Called c result kind m d := by
  cases kind with
  | read => cases m <;> cases h <;> constructor
  | write => cases m <;> cases h <;> constructor

inductive Stepped (kind : Kind) (c : Cfg) : Action → Cfg → Prop where
  | poll (readable writable : Bool) (idle : c.stack = []) (finished : c.batch = []) :
      Stepped kind c (.poll readable writable)
        { c with batch := c.ready ++ c.reported readable writable, ready := [] }
  | pop (read : ReadResult) (write : WriteResult) (item : Item) (rest : List Item)
      (there : c.batch = item :: rest) (idle : c.stack = []) :
      Stepped kind c (.pop read write) (item.run kind { c with batch := rest } read write)
  | skip (item : Item) (rest : List Item) (there : c.batch = item :: rest)
      (removed : c.registered item = false) : Stepped kind c .skip { c with batch := rest }
  | call (m : Method) (write : WriteResult) (d : Cfg) (ran : m.run c write kind = some d) :
      Stepped kind c (.call m write) d
  | ret (r : Ret) (frame : Frame) (stack : List Frame) (top : c.stack = frame :: stack) :
      Stepped kind c (.ret r) (frame.after kind { c with stack := stack } r)

theorem step_stepped {kind : Kind} {c d : Cfg} {a : Action} (h : step kind c a = some d) :
    Stepped kind c a d := by
  cases a with
  | poll readable writable =>
      simp only [step, Option.ite_none_right_eq_some, Option.some.injEq] at h
      obtain ⟨⟨idle, finished⟩, rfl⟩ := h
      exact .poll readable writable idle finished
  | pop read write =>
      simp only [step] at h
      split at h
      next item rest there =>
        rw [Option.ite_none_right_eq_some] at h
        obtain ⟨idle, h⟩ := h
        obtain rfl := Option.some.inj h
        exact .pop read write item rest there idle
      next => cases h
  | skip =>
      simp only [step] at h
      split at h
      next item rest there =>
        rw [Option.ite_none_left_eq_some, Bool.not_eq_true] at h
        obtain ⟨removed, h⟩ := h
        obtain rfl := Option.some.inj h
        exact .skip item rest there removed
      next => cases h
  | call m write => exact .call m write d h
  | ret r =>
      simp only [step] at h
      split at h
      next frame stack top =>
        obtain rfl := Option.some.inj h
        exact .ret r frame stack top
      next => cases h

end TokioLoop.Pipes
