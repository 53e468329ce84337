import TokioLoop.TcpTransport
import TokioLoop.Lib.IpAddr
import Mathlib.Algebra.GroupWithZero.Nat

/-!
RLoop's `UDPTransport` with its two handles and the loop's table entries for its file
descriptor. As for TCP the atomic pieces of code are those between two calls into the
protocol, a call pushes a frame, and a panic ends the process.
-/
namespace TokioLoop.Udp

open Tcp (Bytes Dir Interest WriteResult)

structure SocketAddr where
  ip : IpAddr
  port : UInt16
  deriving DecidableEq, Repr

/-- An entry of `write_buf`. -/
structure Datagram where
  data : Bytes
  addr : SocketAddr
  deriving DecidableEq, Repr

def Datagram.size (d : Datagram) : Nat := d.data.length

def totalSize (buf : List Datagram) : Nat := (buf.map Datagram.size).sum

/-- Result of `recv_from`. -/
inductive RecvResult where
  | datagram (data : Bytes) (addr : SocketAddr)
  | interrupted
  | wouldBlock
  | fatal (text : String)
  deriving DecidableEq, Repr

inductive Callback where
  | connectionMade
  | datagramReceived (data : Bytes) (addr : SocketAddr)
  | errorReceived (text : String)
  | pauseWriting
  | resumeWriting
  | connectionLost (err : Option String)
  deriving DecidableEq, Repr

/-- A protocol method in progress and the place in the code that called it. `pause`
says whether `write` called it, `closed` whether the write handle failed. -/
inductive Frame where
  | attach
  | datagram
  | error
  | pause (inWrite : Bool)
  | resume
  | lost
  | closed (errored : Bool)
  deriving DecidableEq, Repr

/-- `write` calls `proto_pause` with its mutable borrow of the state alive. -/
def Frame.exclusive : Frame → Bool
  | .pause inWrite => inWrite
  | _ => false

/-- `UDPWriteHandle::run` matches on a borrow of the state and calls `connection_lost`
in an arm of that match. -/
def Frame.shared : Frame → Bool
  | .closed errored => !errored
  | _ => false

/-- Frames of methods, which may stand on top of others. -/
def Frame.nested : Frame → Bool
  | .pause _ | .lost => true
  | _ => false

/-- The transport, its `handles_io` entry, whether it is in `udp_transports`, and the
handle the last dispatch made for it. `accepted` and `handed` are the datagrams that
`sendto` passed on to `write` and those the kernel took; `delivered` says that code which
called `connection_lost` has finished. -/
structure Cfg where
  remoteAddr : Option SocketAddr
  writeBuf : List Datagram
  writeBufDsize : Nat
  closing : Bool
  waterHi : Nat
  waterLo : Nat
  protoPaused : Bool
  interest : Option Interest
  bound : Bool
  event : Option Dir
  stack : List Frame
  panicked : Bool
  callbacks : List Callback
  raised : List String
  accepted : List Datagram
  handed : List Datagram
  delivered : Bool

def Cfg.panic (c : Cfg) : Cfg := { c with panicked := true }

def Cfg.raise (c : Cfg) (text : String) : Cfg := { c with raised := c.raised ++ [text] }

/-- Call into the protocol. -/
def Cfg.call (c : Cfg) (e : Callback) (frame : Frame) : Cfg :=
  { c with callbacks := c.callbacks ++ [e], stack := frame :: c.stack }

/-- A mutable borrow is alive, so that `borrow` panics. -/
def Cfg.exclusive (c : Cfg) : Bool := c.stack.any Frame.exclusive

/-- Some borrow is alive, so that `borrow_mut` panics. -/
def Cfg.borrowed (c : Cfg) : Bool := c.stack.any fun f => f.exclusive || f.shared

/-- `udp_socket_add` -/
def Cfg.socketAdd (c : Cfg) (d : Dir) : Cfg :=
  { c with interest := some (c.interest.elim (.only d) (Interest.add d)) }

/-- `udp_socket_rem` -/
def Cfg.socketRem (c : Cfg) (d : Dir) : Cfg :=
  { c with interest := c.interest.bind (Interest.remove d) }

/-- `udp_socket_close` -/
def Cfg.socketClose (c : Cfg) : Cfg := { c with bound := false }

def Cfg.pauseProto (c : Cfg) (inWrite : Bool) : Cfg :=
  { c with protoPaused := true }.call .pauseWriting (.pause inWrite)

/-- The queueing arm of `write` and the end of it: the data is not empty, and the buffer
was not, so that nothing is registered. -/
def enqueue (c : Cfg) (d : Datagram) : Cfg :=
  let c := { c with writeBuf := c.writeBuf ++ [d], writeBufDsize := c.writeBufDsize + d.size }
  if c.waterHi < c.writeBufDsize ∧ c.protoPaused = false then c.pauseProto true else c

/-- `write`. The arm for an empty buffer evaluates `rself.state.borrow()` while the
mutable borrow of the first line is alive: it panics before it gets to `send_to`. -/
def write (c : Cfg) (d : Datagram) : Cfg :=
  if c.borrowed then c.panic
  else if c.writeBufDsize = 0 then c.panic
  else enqueue c d

/-- The address `sendto` computes, `none` where that panics: on a text that is no
address, and on the borrow for the remote address. -/
def destination (c : Cfg) : Option (String × UInt16) → Option (Option SocketAddr)
  | some (host, port) => (IpAddr.fromStr host.toList).map fun ip => some ⟨ip, port⟩
  | none => if c.exclusive then none else some c.remoteAddr

def sendto (c : Cfg) (data : Bytes) (addr : Option (String × UInt16)) : Cfg :=
  if c.closing then c.raise "Cannot send on closing transport"
  else if data = [] then c
  else
    match destination c addr with
    | none => c.panic
    | some none => c.raise "No remote address specified"
    | some (some addr) => write { c with accepted := c.accepted ++ [⟨data, addr⟩] } ⟨data, addr⟩

def close (c : Cfg) : Cfg :=
  if c.closing then c
  else
    let c := { c with closing := true }.socketRem .readable
    if c.exclusive then c.panic
    else if c.writeBufDsize = 0 then (c.socketRem .writable).call (.connectionLost none) .lost
    else c

def abort (c : Cfg) : Cfg :=
  if c.exclusive then c.panic
  else
    let c := if 0 < c.writeBufDsize then c.socketRem .writable else c
    let c := if c.closing then c else { c with closing := true }.socketRem .readable
    c.call (.connectionLost none) .lost

def setWriteBufferLimits (c : Cfg) (high low : Option Nat) : Cfg :=
  let (wh, wl) := Tcp.bufferLimits high low
  if wh < wl then c.raise "high must be >= low must be >= 0"
  else
    let c := { c with waterHi := wh, waterLo := wl }
    if c.exclusive then c.panic
    else if wh < c.writeBufDsize ∧ c.protoPaused = false then c.pauseProto false
    else c

/-- Like `get_extra_info("peername")` it does no more than read the state. -/
def getWriteBufferSize (c : Cfg) : Cfg := if c.exclusive then c.panic else c

/-- The methods that change something or borrow the state. -/
inductive Method where
  | sendto (data : Bytes) (addr : Option (String × UInt16))
  | close
  | abort
  | setWriteBufferLimits (high low : Option Nat)
  | getWriteBufferSize
  deriving DecidableEq, Repr

def Method.run (c : Cfg) : Method → Cfg
  | .sendto data addr => Udp.sendto c data addr
  | .close => Udp.close c
  | .abort => Udp.abort c
  | .setWriteBufferLimits high low => Udp.setWriteBufferLimits c high low
  | .getWriteBufferSize => Udp.getWriteBufferSize c

/-- The loop of `UDPReadHandle::run` up to the next call into the protocol. -/
def readLoop (c : Cfg) : List RecvResult → Cfg
  | [] => c
  | .datagram data addr :: _ => c.call (.datagramReceived data addr) .datagram
  | .wouldBlock :: _ => c
  | .interrupted :: results => readLoop c results
  | .fatal text :: _ => c.call (.errorReceived text) .error

/-- The loop of `UDPWriteHandle::write`: the buffer it leaves, the bytes written, or
`none` after a fatal error, and what the kernel took. The rest of a datagram that was
cut short stays in front as a datagram of its own. -/
def sendLoop : List WriteResult → List Datagram → List Datagram × Option Nat × List Datagram
  | _, [] => ([], some 0, [])
  | [], d :: buf => (d :: buf, some 0, [])
  | .ok n :: results, d :: buf =>
      if n < d.size then
        ({ d with data := d.data.drop n } :: buf, some n, [{ d with data := d.data.take n }])
      else
        let (left, ret, handed) := sendLoop results buf
        (left, ret.map (d.size + ·), d :: handed)
  | .interrupted :: results, d :: buf => sendLoop results (d :: buf)
  | .wouldBlock :: _, d :: buf => (d :: buf, some 0, [])
  | .fatal _ :: _, _ :: _ => ([], none, [])

def sendBuffer (c : Cfg) (results : List WriteResult) : Cfg × Option Nat :=
  let (left, ret, handed) := sendLoop results c.writeBuf
  ({ c with
      writeBuf := left
      writeBufDsize := ret.elim 0 (c.writeBufDsize - ·)
      handed := c.handed ++ handed }, ret)

/-- The end of `UDPWriteHandle::run` with its `stream_close`. -/
def finishWrite (c : Cfg) (streamClose : Bool) : Cfg :=
  let c := if c.writeBuf = [] then c.socketRem .writable else c
  if streamClose then c.socketClose else c

def closeFromWriteHandle (c : Cfg) (errored : Bool) : Cfg :=
  if c.closing then
    c.call (.connectionLost (if errored then some "socket transport failed" else none))
        (.closed errored)
  else finishWrite c false

/-- `UDPWriteHandle::run` after a successful `write` and a possible `resume_writing`. -/
def afterWrite (c : Cfg) : Cfg :=
  if c.writeBuf = [] then closeFromWriteHandle c false else finishWrite c false

/-- `write_buf_size_decr` and what follows it. -/
def written (c : Cfg) (n : Nat) : Cfg :=
  if 0 < n ∧ c.writeBufDsize ≤ c.waterLo ∧ c.protoPaused = true then
    { c with protoPaused := false }.call .resumeWriting .resume
  else afterWrite c

def writeHandleRun (c : Cfg) (results : List WriteResult) : Cfg :=
  match sendBuffer c results with
  | (c, some n) => written c n
  | (c, none) => closeFromWriteHandle c true

/-- An action with the results of the system calls it makes. `ret` says whether the
protocol's method raised. -/
inductive Act where
  | call (m : Method)
  | poll (d : Dir)
  | fire (received : List RecvResult) (sent : List WriteResult)
  | ret (raised : Bool) (received : List RecvResult)
  deriving DecidableEq, Repr

/-- `_udp_conn` after `attach`. -/
def register (c : Cfg) : Cfg := { c with bound := true }.socketAdd .readable

/-- The code that follows a call into the protocol. -/
def Frame.after (c : Cfg) (raised : Bool) (received : List RecvResult) : Frame → Cfg
  | .attach => if raised then c else register c
  | .datagram => readLoop c received
  | .error => c.socketClose
  | .pause _ => c
  | .resume => afterWrite c
  | .lost => { c with delivered := true }
  | .closed _ => { finishWrite c true with delivered := true }

/-- The handle made for an event; `get_udp_transport` unwraps. -/
def fire (c : Cfg) (received : List RecvResult) (sent : List WriteResult) : Dir → Cfg
  | .readable => if c.bound then readLoop c received else c.panic
  | .writable => if c.bound then writeHandleRun c sent else c.panic

/-- An event that reports both directions makes a read handle only, so `poll` gives one
of them. Other handles of the batch call methods of the transport between `poll` and
`fire`. -/
def step (c : Cfg) (a : Act) : Option Cfg :=
  if c.panicked then none
  else
    match a with
    | .call m => some (m.run c)
    | .poll d =>
        if c.stack.isEmpty && c.event.isNone && c.interest.any (Interest.has d) then
          some { c with event := some d }
        else none
    | .fire received sent =>
        match c.event with
        | some d =>
            if c.stack.isEmpty then some (fire { c with event := none } received sent d) else none
        | none => none
    | .ret raised received =>
        match c.stack with
        | [] => none
        | frame :: stack => some (frame.after { c with stack := stack } raised received)

/-- The ways to take a step. -/
inductive Stepped (c : Cfg) : Act → Cfg → Prop where
  | call (m : Method) : Stepped c (.call m) (m.run c)
  | poll (d : Dir) : c.stack = [] → c.event = none → c.interest.any (Interest.has d) = true →
      Stepped c (.poll d) { c with event := some d }
  | fire (received : List RecvResult) (sent : List WriteResult) (d : Dir) : c.stack = [] →
      c.event = some d → Stepped c (.fire received sent)
      (Udp.fire { c with event := none } received sent d)
  | ret (raised : Bool) (received : List RecvResult) (frame : Frame) (stack : List Frame) :
      c.stack = frame :: stack →
      Stepped c (.ret raised received) (frame.after { c with stack := stack } raised received)

theorem step_stepped {c d : Cfg} {a : Act} (h : step c a = some d) : c.panicked = false ∧
    Stepped c a d := by
  rw [step.eq_def] at h
  by_cases panicked : c.panicked = true
  · rw [if_pos panicked] at h
    cases h
  · rw [if_neg panicked] at h
    refine ⟨Bool.not_eq_true _ ▸ panicked, ?_⟩
    cases a with
    | call m =>
        cases h
        exact .call m
    | poll dir =>
        obtain ⟨ready, hd⟩ := Option.ite_none_right_eq_some.mp h
        simp only [Bool.and_eq_true, List.isEmpty_iff, Option.isNone_iff_eq_none] at ready
        cases hd
        exact .poll dir ready.1.1 ready.1.2 ready.2
    | fire received sent =>
        simp only at h
        split at h
        next dir hevent =>
          obtain ⟨free, hd⟩ := Option.ite_none_right_eq_some.mp h
          cases hd
          exact .fire received sent dir (List.isEmpty_iff.mp free) hevent
        · cases h
    | ret raised received =>
        simp only at h
        split at h <;> cases h
        next frame stack hstack => exact .ret raised received frame stack hstack

/-- `UDPTransport::new` in `_udp_conn`, where `attach` has just called `connection_made`. -/
def connecting (remoteAddr : Option SocketAddr) : Cfg where
  remoteAddr := remoteAddr
  writeBuf := []
  writeBufDsize := 0
  closing := false
  waterHi := 1024 * 64
  waterLo := 1024 * 64 / 4
  protoPaused := false
  interest := none
  bound := false
  event := none
  stack := [.attach]
  panicked := false
  callbacks := [.connectionMade]
  raised := []
  accepted := []
  handed := []
  delivered := false

/-- An open transport with datagrams in its buffer. -/
def waiting (remoteAddr : Option SocketAddr) (buf : List Datagram) : Cfg :=
  { connecting remoteAddr with
    writeBuf := buf
    writeBufDsize := totalSize buf
    interest := some .both
    bound := true
    stack := []
    accepted := buf }

/-- Every buffered datagram holds data, and the size kept beside them is theirs. -/
structure Cfg.Sized (c : Cfg) : Prop where
  sum : c.writeBufDsize = totalSize c.writeBuf
  holds : ∀ d ∈ c.writeBuf, d.data ≠ []

theorem Cfg.Sized.empty {c : Cfg} (h : c.Sized) : c.writeBufDsize = 0 ↔ c.writeBuf = [] := by
  rw [h.sum]
  constructor
  · intro zero
    cases hbuf : c.writeBuf with
    | nil => rfl
    | cons d buf =>
        have positive : 0 < d.size :=
          List.length_pos_iff.mpr (h.holds d (by rw [hbuf]; exact List.mem_cons_self))
        rw [hbuf, totalSize, List.map_cons, List.sum_cons] at zero
        omega
  · intro hbuf
    rw [hbuf]
    rfl

theorem totalSize_append (buf more : List Datagram) :
    totalSize (buf ++ more) = totalSize buf + totalSize more := by
  rw [totalSize, List.map_append, List.sum_append]
  rfl

theorem Cfg.Sized.enqueue {c : Cfg} (h : c.Sized) {d : Datagram} (hd : d.data ≠ []) :
    (enqueue c d).Sized := by
  have sized : Cfg.Sized { c with
      writeBuf := c.writeBuf ++ [d]
      writeBufDsize := c.writeBufDsize + d.size } := by
    refine ⟨?_, ?_⟩
    · rw [totalSize_append, ← h.sum]
      rfl
    · intro e he
      rcases List.mem_append.mp he with old | new
      · exact h.holds e old
      · rw [List.mem_singleton.mp new]
        exact hd
  unfold Udp.enqueue
  dsimp only
  split_ifs
  · exact ⟨sized.sum, sized.holds⟩
  · exact sized

/-- The bytes the loop of the write handle reports are those that left the buffer. -/
theorem sendLoop_total (results : List WriteResult) (buf : List Datagram) :
    match (sendLoop results buf).2.1 with
    | some n => totalSize buf = n + totalSize (sendLoop results buf).1
    | none => (sendLoop results buf).1 = [] := by
  fun_induction sendLoop results buf with
  | case1 => rfl
  | case2 d buf => exact (Nat.zero_add _).symm
  | case3 n results d buf short =>
      have split : d.size = n + (d.data.drop n).length := by
        unfold Datagram.size at short ⊢
        rw [List.length_drop]
        omega
      simp only [totalSize, List.map_cons, List.sum_cons]
      rw [split, Nat.add_assoc]
      rfl
  | case4 n results d buf whole left ret handed hloop ih =>
      rw [hloop] at ih
      cases ret with
      | none => exact ih
      | some m =>
          simp only [totalSize, List.map_cons, List.sum_cons] at ih ⊢
          dsimp only [Option.map]
          omega
  | case5 results d buf ih => exact ih
  | case6 results d buf => exact (Nat.zero_add _).symm
  | case7 => rfl

theorem sendLoop_holds (results : List WriteResult) (buf : List Datagram)
    (holds : ∀ d ∈ buf, d.data ≠ []) : ∀ d ∈ (sendLoop results buf).1, d.data ≠ [] := by
  fun_induction sendLoop results buf with
  | case1 => exact holds
  | case2 => exact holds
  | case3 n results d buf short =>
      intro e he
      rcases List.mem_cons.mp he with rfl | old
      · intro drained
        have := List.drop_eq_nil_iff.mp drained
        unfold Datagram.size at short
        omega
      · exact holds e (List.mem_cons_of_mem d old)
  | case4 n results d buf whole left ret handed hloop ih =>
      have ih := ih fun e he => holds e (List.mem_cons_of_mem d he)
      rw [hloop] at ih
      exact ih
  | case5 results d buf ih => exact ih holds
  | case6 => exact holds
  | case7 =>
      intro e he
      cases he

theorem sendBuffer_total {c : Cfg} (sum : c.writeBufDsize = totalSize c.writeBuf)
    (results : List WriteResult) : (sendBuffer c results).1.writeBufDsize = totalSize
    (sendBuffer c results).1.writeBuf := by
  have total := sendLoop_total results c.writeBuf
  change (sendLoop results c.writeBuf).2.1.elim 0 (c.writeBufDsize - ·) = totalSize
    (sendLoop results c.writeBuf).1
  cases hret : (sendLoop results c.writeBuf).2.1 with
  | none =>
      rw [hret] at total
      rw [total]
      rfl
  | some n =>
      rw [hret, ← sum] at total
      rw [Option.elim_some, total]
      omega

theorem Cfg.Sized.sendBuffer {c : Cfg} (h : c.Sized) (results : List WriteResult) :
    (sendBuffer c results).1.Sized :=
  ⟨sendBuffer_total h.sum results, sendLoop_holds results c.writeBuf h.holds⟩

end TokioLoop.Udp
