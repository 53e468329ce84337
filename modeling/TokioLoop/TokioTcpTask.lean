import TokioLoop.Lib.Runs

/-!
`TokioTCPTransport` and its I/O task. The transport keeps three atomic flags and a
second copy of them, with the write buffer, under a mutex. Every method first reads
or exchanges atomics and then makes one update under the mutex, so a call in
progress is an update still to be made. The task is `io_processing_loop`: one action
is one resolution of a `select!`, one poll of the write branch, or one straight
piece of code between two suspension points. A branch that loses the `select!` is
dropped where it stands.
-/
namespace TokioLoop.TokioTcp

abbrev Bytes := List UInt8

/-- The fields of `TokioTCPTransportState` that the task and the methods use. -/
structure State where
  writeBuf : List Bytes
  closing : Bool
  weof : Bool
  readEof : Bool
  writeShutdownDone : Bool
  paused : Bool
  deriving DecidableEq, Repr

/-- The atomic flags of `TokioTCPTransport`. -/
structure Flags where
  closing : Bool
  paused : Bool
  weof : Bool
  deriving DecidableEq, Repr

/-- What a method still has to do once it holds the mutex. -/
inductive Update where
  | push (data : Bytes)
  | setWeof
  | setPaused (paused : Bool)
  | setClosing
  | abortClosing
  deriving DecidableEq, Repr

def Update.apply (s : State) : Update → State
  | .push data => { s with writeBuf := s.writeBuf ++ [data] }
  | .setWeof => { s with weof := true }
  | .setPaused paused => { s with paused }
  | .setClosing => { s with closing := true }
  | .abortClosing => { s with closing := true, writeBuf := [] }

/-- The mutating methods; `writelines` is `write` on each item in turn. -/
inductive Method where
  | write (data : Bytes)
  | writeEof
  | pauseReading
  | resumeReading
  | close
  | abort
  deriving DecidableEq, Repr

/-- The atomic part of a call: the flags it leaves, and its update under the mutex.
Without an update the call has returned, `write` with an error and the others silently. -/
def Method.enter (f : Flags) : Method → Flags × Option Update
  | .write data => if f.weof then (f, none) else (f, some (.push data))
  | .writeEof =>
      if f.closing then (f, none)
      else if f.weof then (f, none) else ({ f with weof := true }, some .setWeof)
  | .pauseReading =>
      if f.closing then (f, none)
      else if f.paused then (f, none) else ({ f with paused := true }, some (.setPaused true))
  | .resumeReading =>
      if f.closing then (f, none)
      else if f.paused then ({ f with paused := false }, some (.setPaused false)) else (f, none)
  | .close => if f.closing then (f, none) else ({ f with closing := true }, some .setClosing)
  | .abort => if f.closing then (f, none) else ({ f with closing := true }, some .abortClosing)

/-- Where the future of the write branch stands. `writing` is inside `write_all`,
with `sent` bytes of the popped chunk already taken by the kernel. -/
inductive WriteFuture where
  | notPolled
  | writing (data : Bytes) (sent : Nat) (shouldShutdown : Bool)
  | flushing (shouldShutdown : Bool)
  | shuttingDown
  | ready
  deriving DecidableEq, Repr

/-- Program points of `io_processing_loop`. -/
inductive Pc where
  | top
  | sleeping
  | guards (readEof : Bool)
  | select (reads : Bool) (write : Option WriteFuture)
  | callback
  | check
  | ended
  deriving DecidableEq, Repr

inductive Notice where
  | dataReceived (data : Bytes)
  | eofReceived
  | connectionLost
  deriving DecidableEq, Repr

/-- Result of `reader.read`; `data` is never empty. -/
inductive ReadResult where
  | eof
  | data (first : UInt8) (rest : Bytes)
  | wouldBlock
  | error
  deriving DecidableEq, Repr

/-- One poll of the operation the write branch awaits: the kernel takes up to `n`
bytes or finishes the operation, or it fails. -/
inductive PollResult where
  | progress (n : Nat)
  | error
  deriving DecidableEq, Repr

inductive Action where
  | enter (thread : Nat) (method : Method)
  | commit (thread : Nat)
  | top
  | wake
  | guards
  | pollWrite (result : PollResult)
  | writeDone
  | readDone (result : ReadResult)
  | sleepDone
  | callbackReturned
  | check
  deriving DecidableEq, Repr

/-- `sent` and `written` are histories: the bytes handed to the kernel, and the data
of the writes whose push has been made, in the order of the pushes. -/
structure World where
  state : State
  flags : Flags
  calls : Nat → Option Update
  pc : Pc
  sent : Bytes
  written : Bytes
  notices : List Notice

def start : World where
  state := ⟨[], false, false, false, false, false⟩
  flags := ⟨false, false, false⟩
  calls := fun _ => none
  pc := .top
  sent := []
  written := []
  notices := []

def Update.data : Update → Bytes
  | .push data => data
  | _ => []

/-- The first poll of the write branch: pop a chunk and decide on the shutdown, both
under one lock. -/
def popChunk (s : State) : State × WriteFuture :=
  match s.writeBuf with
  | data :: rest => ({ s with writeBuf := rest },
      .writing data 0 (s.weof && rest.isEmpty && !s.writeShutdownDone))
  | [] => (s, if s.weof && !s.writeShutdownDone then .shuttingDown else .ready)

/-- After the write part: the shutdown if it was decided on, else the branch is over. -/
def afterWrite (shouldShutdown : Bool) : WriteFuture :=
  if shouldShutdown then .shuttingDown else .ready

/-- One poll of the write branch. A failed write or flush is logged, the chunk is
given up and the branch goes on; a failed shutdown counts as done. -/
def pollWrite (w : World) (reads : Bool) (result : PollResult) : WriteFuture → Option World
  | .notPolled =>
      let (state, future) := popChunk w.state
      some { w with state, pc := .select reads (some future) }
  | .writing data sent shouldShutdown =>
      match result with
      | .error => some { w with pc := .select reads (some (afterWrite shouldShutdown)) }
      | .progress n =>
          let taken := (data.drop sent).take n
          let future := if sent + taken.length = data.length
            then WriteFuture.flushing shouldShutdown
            else .writing data (sent + taken.length) shouldShutdown
          some { w with sent := w.sent ++ taken, pc := .select reads (some future) }
  | .flushing shouldShutdown =>
      some { w with pc := .select reads (some (afterWrite shouldShutdown)) }
  | .shuttingDown =>
      some { w with
        state := { w.state with writeShutdownDone := true }
        pc := .select reads (some .ready) }
  | .ready => none

/-- The loop is left: `connection_lost` is delivered and the stream dropped. -/
def leave (w : World) : World := { w with notices := w.notices ++ [.connectionLost], pc := .ended }

/-- The read branch won the `select!`; whatever the write branch held is dropped. -/
def readDone (w : World) : ReadResult → World
  | .eof => { w with
      state := { w.state with readEof := true }
      notices := w.notices ++ [.eofReceived]
      pc := .callback }
  | .data first rest =>
      { w with notices := w.notices ++ [.dataReceived (first :: rest)], pc := .callback }
  | .wouldBlock => { w with pc := .check }
  | .error => leave w

/-- The guard of the write branch, read once when the `select!` is entered. -/
def writeEnabled (s : State) : Bool := !s.writeBuf.isEmpty || (s.weof && !s.writeShutdownDone)

def shouldExit (s : State) : Bool :=
  (s.readEof && s.writeBuf.isEmpty) || (s.readEof && s.writeShutdownDone && s.writeBuf.isEmpty)

def step (w : World) : Action → Option World
  | .enter thread method =>
      match w.calls thread with
      | some _ => none
      | none =>
          let (flags, update) := method.enter w.flags
          some { w with flags, calls := Function.update w.calls thread update }
  | .commit thread =>
      match w.calls thread with
      | none => none
      | some update => some { w with
          state := update.apply w.state
          calls := Function.update w.calls thread none
          written := w.written ++ update.data }
  | .top =>
      match w.pc with
      | .top => some (if w.state.closing then leave w
          else if w.state.paused then { w with pc := .sleeping }
          else { w with pc := .guards w.state.readEof })
      | _ => none
  | .wake =>
      match w.pc with
      | .sleeping => some { w with pc := .top }
      | _ => none
  | .guards =>
      match w.pc with
      | .guards readEof => some { w with
          pc := .select (!readEof) (if writeEnabled w.state then some .notPolled else none) }
      | _ => none
  | .pollWrite result =>
      match w.pc with
      | .select reads (some future) => pollWrite w reads result future
      | _ => none
  | .writeDone =>
      match w.pc with
      | .select _ (some .ready) => some { w with pc := .check }
      | _ => none
  | .readDone result =>
      match w.pc with
      | .select true _ => some (readDone w result)
      | _ => none
  | .sleepDone =>
      match w.pc with
      | .select _ _ => some { w with pc := .check }
      | _ => none
  | .callbackReturned =>
      match w.pc with
      | .callback => some { w with pc := .check }
      | _ => none
  | .check =>
      match w.pc with
      | .check => some (if shouldExit w.state then leave w else { w with pc := .top })
      | _ => none

/-- The ways for a transport and its task to take a step. -/
inductive Stepped (w : World) : Action → World → Prop where
  | enter (thread : Nat) (method : Method) : w.calls thread = none →
      Stepped w (.enter thread method) { w with
      flags := (method.enter w.flags).1
      calls := Function.update w.calls thread (method.enter w.flags).2 }
  | commit (thread : Nat) (update : Update) : w.calls thread = some update →
      Stepped w (.commit thread) { w with
      state := update.apply w.state
      calls := Function.update w.calls thread none
      written := w.written ++ update.data }
  | closing : w.pc = .top → w.state.closing = true → Stepped w .top (leave w)
  | paused : w.pc = .top → w.state.closing = false → w.state.paused = true →
      Stepped w .top { w with pc := .sleeping }
  | running : w.pc = .top → w.state.closing = false → w.state.paused = false →
      Stepped w .top { w with pc := .guards w.state.readEof }
  | wake : w.pc = .sleeping → Stepped w .wake { w with pc := .top }
  | guards (readEof : Bool) : w.pc = .guards readEof → Stepped w .guards { w with
      pc := .select (!readEof) (if writeEnabled w.state then some .notPolled else none) }
  | pollWrite (result : PollResult) (reads : Bool) (future : WriteFuture) (t : World) :
      w.pc = .select reads (some future) → pollWrite w reads result future = some t →
      Stepped w (.pollWrite result) t
  | writeDone (reads : Bool) : w.pc = .select reads (some .ready) →
      Stepped w .writeDone { w with pc := .check }
  | readDone (result : ReadResult) (write : Option WriteFuture) : w.pc = .select true write →
      Stepped w (.readDone result) (readDone w result)
  | sleepDone (reads : Bool) (write : Option WriteFuture) : w.pc = .select reads write →
      Stepped w .sleepDone { w with pc := .check }
  | callbackReturned : w.pc = .callback → Stepped w .callbackReturned { w with pc := .check }
  | exits : w.pc = .check → shouldExit w.state = true → Stepped w .check (leave w)
  | again : w.pc = .check → shouldExit w.state = false → Stepped w .check { w with pc := .top }

theorem step_stepped {w t : World} {a : Action} (h : step w a = some t) : Stepped w a t := by
  cases a with
  | enter | commit | wake | guards | writeDone | readDone | sleepDone | callbackReturned =>
      simp only [step] at h
      split at h <;> cases h
      next there =>
        constructor
        exact there
  | pollWrite result =>
      simp only [step] at h
      split at h
      next reads future there => exact .pollWrite result reads future t there h
      next => cases h
  | top =>
      simp only [step] at h
      split at h <;> cases h
      next there =>
        split_ifs with closing paused
        · exact .closing there closing
        · exact .paused there (Bool.eq_false_iff.mpr closing) paused
        · exact .running there (Bool.eq_false_iff.mpr closing) (Bool.eq_false_iff.mpr paused)
  | check =>
      simp only [step] at h
      split at h <;> cases h
      next there =>
        split_ifs with exits
        · exact .exits there exits
        · exact .again there (Bool.eq_false_iff.mpr exits)

end TokioLoop.TokioTcp
