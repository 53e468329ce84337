import Mathlib.Logic.Function.Basic
import TokioLoop.TcpReceive
import TokioLoop.TcpShutdown

/-!
Two plain transports at the ends of one connection. What the kernel of one end takes goes
onto a wire, from which it arrives in the socket of the other end in segments of any sizes;
the end of the stream follows the last byte after a half-close or when the transport was
dropped. Both ends run all the code of a transport, with any protocol on it.
-/
namespace TokioLoop.Tcp

open ByteLedger Runs

variable {σ : Type} {R : Rustls σ}

/-- The result of a read that brings nothing and is not the end of the stream. -/
def ReadResult.stalls : ReadResult → Bool
  | .interrupted | .wouldBlock | .error => true
  | .data _ | .eof => false

/-- No read of no bytes, and no data behind the end of the stream. -/
def Tidy : List ReadResult → Prop
  | [] => True
  | .data bytes :: rest => bytes ≠ [] ∧ Tidy rest
  | .eof :: rest => bytesIn rest = [] ∧ Tidy rest
  | .interrupted :: rest | .wouldBlock :: rest | .error :: rest => Tidy rest

/-- Calls of `read(2)` on a socket, and what they left. -/
structure Drains (sock : List ReadResult) (calls : List ReadCall) (left : List ReadResult) :
    Prop where
  tidy : Tidy left
  eof : .eof ∈ left → .eof ∈ sock
  ends : ∀ call ∈ calls, ends call → .eof ∈ sock ∧ bytesIn left = []

theorem drains_full {sock : List ReadResult} (tidy : Tidy sock) :
    Drains sock [(0, .data [])] sock :=
  ⟨tidy, id, List.forall_mem_singleton.mpr fun zero => absurd zero.1 (Nat.lt_irrefl 0)⟩

theorem drains_none (sock : List ReadResult) (tidy : Tidy sock) : Drains sock [] sock :=
  ⟨tidy, id, List.forall_mem_nil _⟩

theorem Drains.cons {r : ReadResult} {sock left : List ReadResult} {calls : List ReadCall}
    (h : Drains sock calls left) {call : ReadCall} (goes : ¬ Tcp.ends call) :
    Drains (r :: sock) (call :: calls) left where
  tidy := h.tidy
  eof there := List.mem_cons_of_mem _ (h.eof there)
  ends := List.forall_mem_cons.mpr ⟨fun zero => absurd zero goes, fun call member zero =>
    (h.ends call member zero).imp_left (List.mem_cons_of_mem _)⟩

theorem readCalls_drains (room : Nat) {sock : List ReadResult} (tidy : Tidy sock) :
    Drains sock (readCalls room sock).1 (readCalls room sock).2 := by
  induction sock generalizing room with
  | nil =>
      by_cases full : room = 0
      · rw [full, readCalls_full]
        exact drains_full tidy
      · rw [readCalls, if_neg full]
        exact ⟨trivial, id,
          List.forall_mem_singleton.mpr fun zero => absurd zero (not_ends_of_refused (.inl rfl))⟩
  | cons r rest ih =>
      by_cases full : room = 0
      · rw [full, readCalls_full]
        exact drains_full tidy
      · cases r with
        | data bytes =>
            obtain ⟨some, tidy⟩ := tidy
            rw [readCalls, if_neg full, if_neg some]
            split_ifs with long
            · have front : bytes.take room ≠ [] := by simp [List.take_eq_nil_iff, full, some]
              have back : bytes.drop room ≠ [] := fun none =>
                absurd (List.drop_eq_nil_iff.mp none) (Nat.not_le.mpr long)
              refine ⟨⟨back, tidy⟩, ?_, ?_⟩
              · simp
              · refine List.forall_mem_cons.mpr ⟨fun zero => absurd zero (not_ends_data front), ?_⟩
                exact List.forall_mem_singleton.mpr fun zero => absurd zero.1 (Nat.lt_irrefl 0)
            · exact (ih _ tidy).cons (not_ends_data some)
        | eof =>
            obtain ⟨none, tidy⟩ := tidy
            rw [readCalls, if_neg full]
            exact ⟨⟨none, tidy⟩, id, fun _ _ _ => ⟨List.mem_cons_self, none⟩⟩
        | interrupted =>
            rw [readCalls, if_neg full]
            exact (ih room tidy).cons (fun zero => by simp [Tcp.ends] at zero)
        | wouldBlock =>
            rw [readCalls, if_neg full]
            exact (drains_none rest tidy).cons (not_ends_of_refused (.inl rfl))
        | error =>
            rw [readCalls, if_neg full]
            exact (drains_none rest tidy).cons (not_ends_of_refused (.inr rfl))

theorem tidy_append {sock more : List ReadResult} (going : .eof ∉ sock) (front : Tidy sock)
    (back : Tidy more) : Tidy (sock ++ more) := by
  induction sock with
  | nil => exact back
  | cons r rest ih =>
      obtain ⟨head, tail⟩ := not_or.mp (mt List.mem_cons.mpr going)
      cases r with
      | data bytes => exact ⟨front.1, ih tail front.2⟩
      | eof => exact absurd rfl head
      | interrupted | wouldBlock | error => exact ih tail front

theorem bytesIn_stall {r : ReadResult} (stalls : r.stalls = true) (n : Nat)
    (sock : List ReadResult) : bytesIn (sock.take n ++ r :: sock.drop n) = bytesIn sock := by
  have none : bytesIn (r :: sock.drop n) = bytesIn (sock.drop n) := by
    cases r with
    | data | eof => cases stalls
    | interrupted | wouldBlock | error => rfl
  rw [bytesIn_append, none, ← bytesIn_append, List.take_append_drop]

theorem tidy_stall {r : ReadResult} (stalls : r.stalls = true) (n : Nat) {sock : List ReadResult}
    (tidy : Tidy sock) : Tidy (sock.take n ++ r :: sock.drop n) := by
  have idle : ∀ rest, Tidy rest → Tidy (r :: rest) := by
    intro rest tidy
    cases r with
    | data | eof => cases stalls
    | interrupted | wouldBlock | error => exact tidy
  induction sock generalizing n with
  | nil =>
      rw [List.take_nil, List.drop_nil]
      exact idle [] trivial
  | cons first rest ih =>
      cases n with
      | zero => exact idle _ tidy
      | succ n =>
          cases first with
          | data bytes => exact ⟨tidy.1, ih n tidy.2⟩
          | eof => exact ⟨(bytesIn_stall stalls n rest).trans tidy.1, ih n tidy.2⟩
          | interrupted | wouldBlock | error => exact ih n tidy

/-- The protocol got what the calls of `read(2)` brought, and the end of the stream only if
one of them met it. -/
structure Hearing (c : Cfg σ) (calls : List ReadCall) : Prop where
  delivered : c.delivered = bytesOf calls
  ended : .eofReceived ∈ c.callbacks ∨ .data true ∈ c.stack → ∃ call ∈ calls, ends call

theorem Hearing.silent {c d : Cfg σ} {calls : List ReadCall} (h : Hearing c calls)
    (more : List Callback) (called : d.callbacks = c.callbacks ++ more)
    (quiet : ∀ e ∈ more, e.inbound = false) (frames : .data true ∈ d.stack → .data true ∈ c.stack) :
    Hearing d calls where
  delivered := by
    rw [delivered_append called, payload_of_silent quiet, List.append_nil]
    exact h.delivered
  ended reported := by
    refine h.ended (reported.imp (fun there => ?_) frames)
    rw [called] at there
    exact (List.mem_append.mp there).resolve_right (not_eof_of_quiet quiet)

theorem Hearing.same {c d : Cfg σ} {calls : List ReadCall} (h : Hearing c calls)
    (log : d.log = c.log) (stack : d.stack = c.stack) : Hearing d calls :=
  h.silent [] (by rw [Cfg.callbacks, log, List.append_nil]; rfl) (List.forall_mem_nil _)
    (stack ▸ id)

theorem Hearing.mute {c d : Cfg σ} {calls : List ReadCall} (h : Hearing c calls)
    (quiet : Mute (Conserving.any R) c d) :
    Hearing d calls := by
  obtain ⟨more, called, silent⟩ := quiet.calls
  exact h.silent more called (fun e member => (silent e member).1) fun there =>
    quiet.frames _ there rfl

theorem Hearing.more {c : Cfg σ} {calls : List ReadCall} (h : Hearing c calls)
    {more : List ReadCall} (none : bytesOf more = []) : Hearing c (calls ++ more) where
  delivered := by rw [bytesOf_append, none, List.append_nil, h.delivered]
  ended reported :=
    let ⟨call, member, zero⟩ := h.ended reported
    ⟨call, List.mem_append_left _ member, zero⟩

theorem Hearing.recvEof {c : Cfg σ} {calls : List ReadCall} (h : Hearing c calls)
    (zero : ∃ call ∈ calls, ends call) : Hearing (recvEof c) calls where
  delivered := by
    have called : (Tcp.recvEof c).callbacks = c.callbacks ++ [.eofReceived] :=
      callbacks_call (c.streamRem .readable) _ _
    rw [delivered_append called]
    simpa [Callback.payload] using h.delivered
  ended _ := zero

theorem Hearing.received {c : Cfg σ} {calls more : List ReadCall} (h : Hearing c calls)
    {got : Bytes} {closed : Bool} (summed : Summed (got, closed) more) :
    Hearing (received (c.emit (.recv got), if got = [] then none else some got, closed))
    (calls ++ more) := by
  obtain ⟨bytes, ended⟩ := summed
  have kept : Hearing (c.emit (.recv got)) calls :=
    h.silent [] (by rw [callbacks_recv, List.append_nil]) (List.forall_mem_nil _) id
  have zero : closed = true → ∃ call ∈ calls ++ more, ends call := fun closed =>
    let ⟨call, member, zero⟩ := ended.mp closed
    ⟨call, List.mem_append_right _ member, zero⟩
  by_cases none : got = []
  · rw [if_pos none]
    have kept := kept.more (bytes.symm.trans none)
    cases closed with
    | true => exact kept.recvEof (zero rfl)
    | false => exact kept
  · rw [if_neg none]
    have called : (Tcp.received (c.emit (.recv got), some got, closed)).callbacks =
        c.callbacks ++ [.dataReceived got] := by
      rw [← callbacks_recv c got]
      exact callbacks_call _ _ _
    constructor
    · rw [delivered_append called, bytesOf_append, h.delivered, ← bytes]
      simp [Callback.payload]
    · have before : .eofReceived ∈ c.callbacks ∨ .data true ∈ c.stack →
          ∃ call ∈ calls ++ more, ends call :=
        fun reported =>
          let ⟨call, member, zero⟩ := h.ended reported
          ⟨call, List.mem_append_left _ member, zero⟩
      rintro (reported | frame)
      · rw [called] at reported
        exact before (.inl ((List.mem_append.mp reported).resolve_right (by simp)))
      · rcases List.mem_cons.mp frame with top | below
        · exact zero (Frame.data.inj top).symm
        · exact before (.inr below)

theorem readRound_hearing {c : Cfg σ} (plain : c.tr.state.tlsConn = none) {calls : List ReadCall}
    (h : Hearing c calls) (env : Env) : Hearing (readRound R c env)
      (if c.tr.protoBuffered = true then calls
        else calls ++ (readCalls readBufSize env.reads).1) := by
  by_cases buffered : c.tr.protoBuffered = true
  · rw [readRound, if_pos buffered, if_pos buffered]
    refine h.silent [.getBuffer] (callbacks_call _ _ _)
      (List.forall_mem_singleton.mpr rfl) fun there => ?_
    exact (List.mem_cons.mp there).resolve_left Frame.noConfusion
  · rw [readRound, if_neg buffered, if_neg buffered]
    simp only [recvDirect, plain]
    exact h.received (readCalls_summed readBufSize env.reads)

/-- The pieces of code that read. -/
inductive Pulls (c : Cfg σ) (room : Nat) : Act → Prop where
  | fire : c.tables.event = some .readable → c.tables.bound = true → ¬ c.tr.protoBuffered = true →
      room = readBufSize → Pulls c room .fire
  | getBuffer (stack : List Frame) : c.stack = .getBuffer :: stack →
      Pulls c room (.ret (.buffer room))
  | data (r : Ret) (stack : List Frame) : c.stack = .data false :: stack →
      ¬ c.tr.protoBuffered = true → room = readBufSize → Pulls c room (.ret r)

theorem roomOf_pulls {c : Cfg σ} {act : Act} {room : Nat} (h : roomOf c act = some room) :
    Pulls c room act := by
  cases act with
  | fire =>
      obtain ⟨⟨readable, bound, direct⟩, size⟩ := Option.ite_none_right_eq_some.mp h
      exact .fire readable bound (Bool.eq_false_iff.mp direct) (Option.some.inj size).symm
  | ret r =>
      simp only [roomOf] at h
      split at h
      next size top =>
        obtain ⟨stack, there⟩ := List.head?_eq_some_iff.mp top
        exact Option.some.inj h ▸ .getBuffer stack there
      next top =>
        obtain ⟨stack, there⟩ := List.head?_eq_some_iff.mp top
        obtain ⟨direct, size⟩ := Option.ite_none_left_eq_some.mp h
        exact .data _ stack there direct (Option.some.inj size).symm
      next => cases h
  | call | server | poll | made => cases h

theorem Hearing.popped {c : Cfg σ} {calls : List ReadCall} (h : Hearing c calls) {frame : Frame}
    {stack : List Frame} (top : c.stack = frame :: stack) : Hearing
    { c with stack := stack } calls :=
  h.silent [] (List.append_nil _).symm (List.forall_mem_nil _) fun there =>
    top ▸ List.mem_cons_of_mem frame there

/-- A step in which the handle reads. -/
theorem pulls_hearing {w : Reader σ} {act : Act} {env : Env} {room : Nat} {d : Cfg σ}
    (plain : w.cfg.tr.state.tlsConn = none) (h : Hearing w.cfg w.calls)
    (pulls : Pulls w.cfg room act) (one :
      step R w.cfg (act, { env with reads := w.sock }) = some d) :
    Hearing d (w.calls ++ (readCalls room w.sock).1) := by
  cases pulls with
  | fire readable bound direct size =>
      subst size
      obtain ⟨dir, free, there, fired⟩ := fire_stepped one
      cases readable.symm.trans there
      have taken : Hearing { w.cfg with tables := { w.cfg.tables with event := none } } w.calls :=
        h.same rfl rfl
      have round := readRound_hearing (R := R)
        (c := { w.cfg with tables := { w.cfg.tables with event := none } }) plain
        taken { env with reads := w.sock }
      rw [if_neg direct] at round
      rw [fired]
      simp only [fire, if_pos bound]
      exact round
  | getBuffer stack top =>
      rw [step_ret top one]
      exact (h.popped top).received (readCalls_summed room w.sock)
  | data r stack top direct size =>
      subst size
      have round := readRound_hearing (R := R) (c := { w.cfg with stack := stack }) plain
        (h.popped top) { env with reads := w.sock }
      rw [if_neg direct] at round
      rw [step_ret top one]
      exact round

/-- A protocol that gives buffers is asked for one. -/
theorem buffered_hearing {c : Cfg σ} {calls : List ReadCall} (plain : c.tr.state.tlsConn = none)
    (h : Hearing c calls) (buffered : c.tr.protoBuffered = true) (env : Env) : Hearing
    (readRound R c env) calls := by
  have round := readRound_hearing (R := R) plain h env
  rwa [if_pos buffered] at round

/-- A step in which nothing is read. -/
theorem quiet_hearing {c d : Cfg σ} {act : Act} {env : Env} {calls : List ReadCall}
    (plain : c.tr.state.tlsConn = none) (h : Hearing c calls) (room : roomOf c act = none)
    (one : step R c (act, env) = some d) : Hearing d calls := by
  cases (step_stepped one).2 with
  | call m => exact h.mute (method_mute _ c env m)
  | server aborts => exact h.mute (method_mute _ c env _)
  | ret r frame stack top =>
      have popped := h.popped top
      simp only [roomOf, top, List.head?_cons] at room
      cases frame with
      | attach | connectionMade | pause | lost
      | resume => exact popped.mute (after_mute _ _ rfl r env)
      | getBuffer =>
          cases r with
          | buffer size => cases room
          | falsy | truthy | raised => exact popped.same rfl rfl
      | data ended =>
          cases ended with
          | true => exact popped.recvEof (h.ended (.inr (top ▸ List.mem_cons_self)))
          | false =>
              refine buffered_hearing (c := { c with stack := stack }) plain popped ?_ env
              by_contra direct
              simp [direct] at room
      | eof => exact popped.mute (eofReceived_mute _ _ _ env)
  | poll => exact h.same rfl rfl
  | fire dir free event =>
      have taken : Hearing { c with tables := { c.tables with event := none } } calls :=
        h.same rfl rfl
      simp only [fire]
      split_ifs with bound
      · cases dir with
        | readable =>
            refine buffered_hearing (c := { c with tables := { c.tables with event := none } })
              plain taken ?_ env
            by_contra direct
            simp [roomOf, event, bound, direct] at room
        | writable => exact taken.mute (writeHandleRun_mute _ _ env)
      · exact taken
  | made =>
      refine h.silent [.connectionMade] (callbacks_call _ _ _)
        (List.forall_mem_singleton.mpr rfl) ?_
      exact fun there => (List.mem_cons.mp there).resolve_left Frame.noConfusion

theorem receive_hearing {w t : Reader σ} {a : Act × Env} (plain : w.cfg.tr.state.tlsConn = none)
    (h : Hearing w.cfg w.calls) (one : receive R w a = some t) : Hearing t.cfg t.calls := by
  cases room : roomOf w.cfg a.1 with
  | none =>
      obtain ⟨stepped, same⟩ := receive_quiet room one
      rw [same]
      exact quiet_hearing plain h room stepped
  | some n =>
      obtain ⟨stepped, -, made⟩ := receive_reads room one
      rw [made]
      exact pulls_hearing plain h (roomOf_pulls room) stepped

inductive Side where
  | client
  | server
  deriving DecidableEq, Repr

def Side.other : Side → Side
  | .client => .server
  | .server => .client

/-- One end: the transport with its socket, the bytes its kernel took that have not arrived
yet, whether the end of its stream has arrived, and whether the transport was dropped. -/
structure End (σ : Type) where
  reader : Reader σ
  wire : Bytes
  fin : Bool
  dropped : Bool

abbrev Link (σ : Type) := Side → End σ

/-- What happens at one end. `carry` makes a segment of the first bytes on its wire, `stall`
puts a result that brings nothing between what waits in its socket. -/
inductive LinkAct where
  | run (a : Act × Env)
  | carry (n : Nat)
  | fin
  | stall (n : Nat) (r : ReadResult)
  | drop
  deriving DecidableEq, Repr

/-- The transport takes a step, and what the kernel takes goes onto the wire. -/
def End.ran (e : End σ) (reader : Reader σ) : End σ :=
  { e with reader, wire := e.wire ++ reader.cfg.kernelBytes.drop e.reader.cfg.kernelBytes.length }

/-- A result comes to the socket. -/
def End.gets (e : End σ) (r : ReadResult) : End σ :=
  { e with reader := { e.reader with sock := e.reader.sock ++ [r] } }

/-- A dropped transport is in no table and none of its code runs. -/
def linkStep (R : Rustls σ) (l : Link σ) (a : Side × LinkAct) : Option (Link σ) :=
  let here := l a.1
  let there := l a.1.other
  match a.2 with
  | .run act =>
      if here.dropped then none
      else (receive R here.reader act).map fun reader => Function.update l a.1 (here.ran reader)
  | .carry n =>
      if here.wire.take n = [] then none
      else
        some (Function.update (Function.update l a.1 { here with wire := here.wire.drop n })
            a.1.other
          (there.gets (.data (here.wire.take n))))
  | .fin =>
      if here.fin = false ∧ here.wire = [] ∧
          (here.reader.cfg.shut = true ∨ here.dropped = true) then
        some (Function.update (Function.update l a.1 { here with fin := true }) a.1.other
            (there.gets .eof))
      else none
  | .stall n r =>
      if r.stalls then
        some (Function.update l a.1 { here with
          reader := { here.reader with
              sock := here.reader.sock.take n ++ r :: here.reader.sock.drop n } })
      else none
  | .drop =>
      if here.reader.cfg.tables.bound = false ∧ here.reader.cfg.stack = [] then
        some (Function.update l a.1 { here with dropped := true })
      else none

/-- The ways to take a step, at one end and at the other. -/
inductive LinkStepped (R : Rustls σ) (here there : End σ) : LinkAct → End σ → End σ → Prop where
  | run (a : Act × Env) (t : Reader σ) : here.dropped = false → receive R here.reader a = some t →
      LinkStepped R here there (.run a) (here.ran t) there
  | carry (n : Nat) : here.wire.take n ≠ [] →
      LinkStepped R here there (.carry n) { here with wire := here.wire.drop n }
      (there.gets (.data (here.wire.take n)))
  | fin : here.fin = false → here.wire = [] → here.reader.cfg.shut = true ∨ here.dropped = true →
      LinkStepped R here there .fin { here with fin := true } (there.gets .eof)
  | stall (n : Nat) (r : ReadResult) : r.stalls = true →
      LinkStepped R here there (.stall n r) { here with
        reader := { here.reader with
            sock := here.reader.sock.take n ++ r :: here.reader.sock.drop n } } there
  | drop : LinkStepped R here there .drop { here with dropped := true } there

theorem Side.other_ne (side : Side) : side.other ≠ side := by cases side <;> decide

theorem linkStep_stepped {l t : Link σ} {side : Side} {act : LinkAct}
    (h : linkStep R l (side, act) = some t) : LinkStepped R (l side) (l side.other) act (t side)
    (t side.other) := by
  have apart := side.other_ne
  cases act with
  | run a =>
      obtain ⟨there, one⟩ := Option.ite_none_left_eq_some.mp h
      obtain ⟨reader, received, rfl⟩ := Option.map_eq_some_iff.mp one
      rw [Function.update_self, Function.update_of_ne apart]
      exact .run a reader (Bool.eq_false_iff.mpr there) received
  | carry n =>
      obtain ⟨some, one⟩ := Option.ite_none_left_eq_some.mp h
      cases one
      rw [Function.update_self, Function.update_of_ne apart.symm, Function.update_self]
      exact .carry n some
  | fin =>
      obtain ⟨⟨running, empty, ended⟩, one⟩ := Option.ite_none_right_eq_some.mp h
      cases one
      rw [Function.update_self, Function.update_of_ne apart.symm, Function.update_self]
      exact .fin running empty ended
  | stall n r =>
      obtain ⟨stalls, one⟩ := Option.ite_none_right_eq_some.mp h
      cases one
      rw [Function.update_self, Function.update_of_ne apart]
      exact .stall n r stalls
  | drop =>
      obtain ⟨-, one⟩ := Option.ite_none_right_eq_some.mp h
      cases one
      rw [Function.update_self, Function.update_of_ne apart]
      exact .drop

/-- A connection before its first step. -/
def connection (client server : Cfg σ) : Link σ
  | .client => ⟨⟨client, [], []⟩, [], false, false⟩
  | .server => ⟨⟨server, [], []⟩, [], false, false⟩

/-- What the protocol of one side hears is what the other side wrote: the bytes that were
accepted there are, in order and once, the delivered ones, those in the socket, those on
the wire and those in the buffer. The end of the stream is heard after all that the other
kernel took, and after all that was accepted unless the other transport was dropped. -/
structure Relayed (l : Link σ) (side : Side) : Prop where
  whole : (l side.other).reader.cfg.delivered ++ bytesIn
      (l side.other).reader.sock ++ (l side).wire ++
    (l side).reader.cfg.tr.state.writeBuf.flatten = (l side).reader.cfg.acceptedBytes
  ended : .eofReceived ∈ (l side.other).reader.cfg.callbacks →
    (l side.other).reader.cfg.delivered = (l side).reader.cfg.kernelBytes
  complete : .eofReceived ∈ (l side.other).reader.cfg.callbacks → (l side).dropped = false →
    (l side.other).reader.cfg.delivered = (l side).reader.cfg.acceptedBytes

/-- One end by itself. -/
structure Sound (e : End σ) : Prop where
  intact : Intact e.reader.cfg
  hears : Hearing e.reader.cfg e.reader.calls
  finished : Finished e.reader.cfg

/-- The stream from the end `s` to the end `r`. -/
structure Flows (s r : End σ) : Prop where
  stream : bytesOf r.reader.calls ++ bytesIn r.reader.sock ++ s.wire = s.reader.cfg.kernelBytes
  tidy : Tidy r.reader.sock
  eof : .eof ∈ r.reader.sock → s.fin = true
  met : (∃ call ∈ r.reader.calls, ends call) → s.fin = true ∧ bytesIn r.reader.sock = []
  last : s.fin = true → s.wire = [] ∧ (s.reader.cfg.shut = true ∨ s.dropped = true)

theorem Sound.ran {e : End σ} {t : Reader σ} {a : Act × Env} (h : Sound e)
    (undisturbed : Undisturbed a) (one : receive R e.reader a = some t) : Sound (e.ran t) ∧
    Continues e.reader.cfg t.cfg := by
  have calm : ∃ b : Act × Env, Undisturbed b ∧ step R e.reader.cfg b = some t.cfg := by
    cases room : roomOf e.reader.cfg a.1 with
    | none => exact ⟨a, undisturbed, (receive_quiet room one).1⟩
    | some n =>
        exact ⟨(a.1, { a.2 with reads := e.reader.sock }), undisturbed, (receive_reads room one).1⟩
  obtain ⟨b, calm, stepped⟩ := calm
  have grown := step_continues h.intact calm stepped
  exact ⟨⟨h.intact.step calm stepped, receive_hearing h.intact.plain h.hears one,
    grown.finished h.finished⟩, grown⟩

/-- The sending end runs. -/
theorem Flows.sent {s r : End σ} {t : Reader σ} (h : Flows s r) (before : Sound s)
    (after : Sound (s.ran t)) (grown : Continues s.reader.cfg t.cfg) (there : s.dropped = false) :
    Flows (s.ran t) r where
  stream := by
    obtain ⟨more, more_eq⟩ := kernelBytes_grow grown
    simp only [End.ran]
    rw [← List.append_assoc, h.stream, ← more_eq, List.drop_left]
  tidy := h.tidy
  eof := h.eof
  met := h.met
  last fin := by
    obtain ⟨empty, ended⟩ := h.last fin
    have shut : s.reader.cfg.shut = true := ended.resolve_right (by simp [there])
    have same : t.cfg.kernelBytes = s.reader.cfg.kernelBytes :=
      grown.silent before.intact after.intact before.finished shut
    refine ⟨?_, .inl ?_⟩
    · simp only [End.ran]
      rw [empty, same, List.drop_length, List.append_nil]
    · obtain ⟨obs, log⟩ := grown.log
      show t.cfg.log.any Obs.isShutdown = true
      rw [← log, List.any_append, Bool.or_eq_true_iff]
      exact .inl shut

/-- The receiving end runs. -/
theorem Flows.received {s r : End σ} {t : Reader σ} {a : Act × Env} (h : Flows s r)
    (one : receive R r.reader a = some t) : Flows s (r.ran t) := by
  cases room : roomOf r.reader.cfg a.1 with
  | none =>
      obtain ⟨-, same⟩ := receive_quiet room one
      have sock : t.sock = r.reader.sock := by rw [same]
      have calls : t.calls = r.reader.calls := by rw [same]
      exact ⟨by rw [End.ran, sock, calls]; exact h.stream, by rw [End.ran, sock]; exact h.tidy,
        by rw [End.ran, sock]; exact h.eof, by rw [End.ran, sock, calls]; exact h.met, h.last⟩
  | some n =>
      obtain ⟨-, sock, calls⟩ := receive_reads room one
      obtain ⟨tidy, eof, ends⟩ := readCalls_drains n h.tidy
      have whole := readCalls_bytes n r.reader.sock
      rw [← sock] at tidy whole eof ends
      refine ⟨?_, tidy, fun there => h.eof (eof there), ?_, h.last⟩
      · simp only [End.ran]
        rw [calls, bytesOf_append, List.append_assoc (bytesOf _), whole]
        exact h.stream
      · simp only [End.ran]
        rintro ⟨call, member, zero⟩
        rw [calls] at member
        rcases List.mem_append.mp member with old | new
        · obtain ⟨fin, none⟩ := h.met ⟨call, old, zero⟩
          rw [none] at whole
          exact ⟨fin, (List.append_eq_nil_iff.mp whole).2⟩
        · exact (ends call new zero).imp_left h.eof

/-- A segment of the first bytes on the wire. -/
theorem Flows.carried {s r : End σ} (h : Flows s r) {n : Nat} (some : s.wire.take n ≠ []) :
    Flows { s with wire := s.wire.drop n } (r.gets (.data (s.wire.take n))) := by
  have running : ¬ s.fin = true := fun fin => some (by rw [(h.last fin).1, List.take_nil])
  have going : .eof ∉ r.reader.sock := fun there => running (h.eof there)
  refine ⟨?_, tidy_append going h.tidy ⟨some, trivial⟩, ?_, ?_, fun fin => absurd fin running⟩
  · simp only [End.gets, bytesIn_append]
    rw [← h.stream]
    simp [bytesIn, ReadResult.bytes]
  · intro there
    exact h.eof ((List.mem_append.mp there).resolve_right (by simp))
  · exact fun zero => absurd (h.met zero).1 running

/-- The end of the stream arrives. -/
theorem Flows.finished {s r : End σ} (h : Flows s r) (running : s.fin = false) (empty : s.wire = [])
    (ended : s.reader.cfg.shut = true ∨ s.dropped = true) : Flows { s with fin := true }
    (r.gets .eof) := by
  have none : bytesIn (r.reader.sock ++ [.eof]) = bytesIn r.reader.sock := by
    rw [bytesIn_append]
    exact List.append_nil _
  have going : .eof ∉ r.reader.sock := fun there => Bool.eq_false_iff.mp running (h.eof there)
  refine ⟨?_, tidy_append going h.tidy ⟨rfl, trivial⟩, fun _ => rfl, fun zero =>
    ⟨rfl, none.trans (h.met zero).2⟩, fun _ => ⟨empty, ended⟩⟩
  simp only [End.gets, none]
  exact h.stream

theorem Flows.stalled {s r : End σ} (h : Flows s r) (n : Nat) {result : ReadResult}
    (stalls : result.stalls = true) : Flows s { r with
      reader := { r.reader with sock := r.reader.sock.take n ++ result :: r.reader.sock.drop n }
          } := by
  have same := bytesIn_stall stalls n r.reader.sock
  refine ⟨?_, tidy_stall stalls n h.tidy, fun there => h.eof ?_,
    fun zero => ⟨(h.met zero).1, same.trans (h.met zero).2⟩, h.last⟩
  · simp only [same]
    exact h.stream
  · have other : .eof ≠ result := fun eof => by rw [← eof] at stalls; cases stalls
    rcases List.mem_append.mp there with before | behind
    · exact List.mem_of_mem_take before
    · exact List.mem_of_mem_drop ((List.mem_cons.mp behind).resolve_left other)

/-- Both ends and both directions. -/
structure Linked (e f : End σ) : Prop where
  here : Sound e
  there : Sound f
  out : Flows e f
  back : Flows f e

theorem Linked.symm {e f : End σ} (h : Linked e f) : Linked f e := ⟨h.there, h.here, h.back, h.out⟩

theorem linked_side {l : Link σ} (h : Linked (l .client) (l .server)) (side : Side) :
    Linked (l side) (l side.other) := by
  cases side with
  | client => exact h
  | server => exact h.symm

theorem linked_of_side {l : Link σ} {side : Side} (h : Linked (l side) (l side.other)) :
    Linked (l .client) (l .server) := by
  cases side with
  | client => exact h
  | server => exact h.symm

/-- The code that runs is not disturbed. -/
def LinkAct.Undisturbed : LinkAct → Prop
  | .run a => Tcp.Undisturbed a
  | _ => True

theorem stepped_linked {here there e f : End σ} {act : LinkAct} (h : Linked here there)
    (undisturbed : act.Undisturbed) (stepped : LinkStepped R here there act e f) : Linked e f := by
  cases stepped with
  | run a t running one =>
      obtain ⟨after, grown⟩ := h.here.ran undisturbed one
      exact ⟨after, h.there, h.out.sent h.here after grown running, h.back.received one⟩
  | carry n some =>
      exact ⟨⟨h.here.intact, h.here.hears, h.here.finished⟩,
        ⟨h.there.intact, h.there.hears, h.there.finished⟩, h.out.carried some,
        ⟨h.back.stream, h.back.tidy, h.back.eof, h.back.met, h.back.last⟩⟩
  | fin running empty ended =>
      exact ⟨⟨h.here.intact, h.here.hears, h.here.finished⟩,
        ⟨h.there.intact, h.there.hears, h.there.finished⟩, h.out.finished running empty ended,
        ⟨h.back.stream, h.back.tidy, h.back.eof, h.back.met, h.back.last⟩⟩
  | stall n r stalls =>
      exact ⟨⟨h.here.intact, h.here.hears, h.here.finished⟩, h.there,
        ⟨h.out.stream, h.out.tidy, h.out.eof, h.out.met, h.out.last⟩, h.back.stalled n stalls⟩
  | drop =>
      exact ⟨⟨h.here.intact, h.here.hears, h.here.finished⟩, h.there,
        ⟨h.out.stream, h.out.tidy, h.out.eof, h.out.met, fun fin => ⟨(h.out.last fin).1, .inr rfl⟩⟩,
        ⟨h.back.stream, h.back.tidy, h.back.eof, h.back.met, h.back.last⟩⟩

theorem PlainStart.atRest {c : Cfg σ} (h : PlainStart R c) :
    Sound ⟨⟨c, [], []⟩, [], false, false⟩ := by
  refine ⟨h.intact, ?_, ?_⟩
  · cases h with
    | accepted lfd protoBuffered timeout =>
        exact ⟨rfl, fun reported => by rcases reported with h | h <;> cases h⟩
    | connected protoBuffered timeout =>
        refine ⟨rfl, fun reported => ?_⟩
        rcases reported with there | there
        · cases List.mem_singleton.mp there
        · cases List.mem_singleton.mp there
  · intro shut
    cases h <;> cases shut

theorem PlainStart.unsent {c : Cfg σ} (h : PlainStart R c) : c.kernelBytes = [] := by
  cases h <;> rfl

theorem Linked.relays {s r : End σ} (h : Linked s r) :
    r.reader.cfg.delivered ++ bytesIn r.reader.sock ++ s.wire = s.reader.cfg.kernelBytes ∧
      (.eofReceived ∈ r.reader.cfg.callbacks → r.reader.cfg.delivered = s.reader.cfg.kernelBytes ∧
        s.fin = true) := by
  have stream := h.out.stream
  rw [← h.there.hears.delivered] at stream
  refine ⟨stream, fun reported => ?_⟩
  obtain ⟨fin, none⟩ := h.out.met (h.there.hears.ended (.inl reported))
  rw [none, (h.out.last fin).1, List.append_nil, List.append_nil] at stream
  exact ⟨stream, fin⟩

theorem Linked.relayed {l : Link σ} {side : Side} (h : Linked (l side) (l side.other)) :
    Relayed l side := by
  obtain ⟨stream, ended⟩ := h.relays
  refine ⟨?_, fun reported => (ended reported).1, fun reported there => ?_⟩
  · rw [stream]
    exact h.here.intact.balanced
  · obtain ⟨whole, fin⟩ := ended reported
    have shut := (h.out.last fin).2.resolve_right (by simp [there])
    rw [whole, h.here.intact.sent (h.here.finished shut).2]

/-- Over every run of a connection, with any code of both ends in between, each protocol
hears what the other one wrote. -/
theorem link_relays (R : Rustls σ) (client server : Cfg σ) (hclient : PlainStart R client)
    (hserver : PlainStart R server) (actions : List (Side × LinkAct)) (l : Link σ)
    (h : run (linkStep R) (connection client server) actions = some l)
    (undisturbed : ∀ a ∈ actions, a.2.Undisturbed) (side : Side) : Relayed l side := by
  have start : Linked (connection client server .client) (connection client server .server) := by
    have flows : ∀ {c d : Cfg σ}, PlainStart R c → PlainStart R d →
        Flows ⟨⟨c, [], []⟩, [], false, false⟩ ⟨⟨d, [], []⟩, [], false, false⟩ := fun hc _ =>
      ⟨hc.unsent.symm, trivial, nofun, nofun, nofun⟩
    exact ⟨hclient.atRest, hserver.atRest, flows hclient hserver, flows hserver hclient⟩
  have linked : Linked (l .client) (l .server) :=
    run_preserves (G := fun _ a => a.2.Undisturbed) (I := fun l => Linked (l .client) (l .server))
      (fun l a t inv good one => linked_of_side
        (stepped_linked (linked_side inv a.1) good (linkStep_stepped one)))
      h start (guarded_of_forall undisturbed)
  exact (linked_side linked side).relayed

/-- Three bytes written of which the kernel takes two at once, and a half-close. One byte
arrives and is read, then the others with the end of the stream, behind an interrupted read. -/
def halfClosedLink : List (Side × LinkAct) :=
  let idle : Env := ⟨[], [], 0⟩
  [(.client, .run (.ret .falsy, idle)), (.server, .run (.made, idle)),
    (.server, .run (.ret .falsy, idle)),
    (.client, .run (.call (.write [1, 2, 3]), ⟨[], [.ok 2], 0⟩)),
    (.client, .run (.call .writeEof, idle)),
    (.client, .carry 1), (.server, .run (.poll .readable, idle)), (.server, .run (.fire, idle)),
    (.server, .run (.ret .falsy, idle)), (.client, .run (.poll .writable, idle)),
    (.client, .run (.fire, ⟨[], [.ok 1], 0⟩)), (.client, .carry 5), (.client, .fin),
    (.server, .stall 0 .interrupted), (.server, .run (.poll .readable, idle)),
    (.server, .run (.fire, idle)), (.server, .run (.ret .falsy, idle))]

theorem link_relays_halfClosed :
    ∃ l, run (linkStep noTls) (connection (connected noTls none false 1000)
      (accepted 3 none false 1000))
        halfClosedLink = some l ∧
      (l .server).reader.cfg.callbacks =
        [.connectionMade, .dataReceived [1], .dataReceived [2, 3], .eofReceived] ∧
        Relayed l .client := by
  refine ⟨_, rfl, rfl, ?_⟩
  refine link_relays noTls _ _ (.connected false 1000) (.accepted 3 false 1000) halfClosedLink _ rfl
    ?_ .client
  simp [halfClosedLink, LinkAct.Undisturbed, Undisturbed, WriteResult.isFatal, Method.orderly]

end TokioLoop.Tcp
