import TokioLoop.TcpErrors
import TokioLoop.TcpMute

/-!
One run of the read handle on a plain transport, against a socket that answers its calls of
`read(2)`. A call with no room left returns 0 as one at the end of the stream does, and
what a read leaves of a segment stays in the socket.
-/
namespace TokioLoop.Tcp

open Runs

variable {σ : Type} {R : Rustls σ}

/-- A call of `read(2)`: the room in the buffer, and its result. -/
abbrev ReadCall := Nat × ReadResult

def ReadResult.bytes : ReadResult → Bytes
  | .data bytes => bytes
  | _ => []

/-- The call returned 0 for a non-empty buffer. -/
def ends (call : ReadCall) : Prop := 0 < call.1 ∧ (call.2 = .eof ∨ call.2 = .data [])

/-- The call would block or failed. -/
def refused (call : ReadCall) : Prop := call.2 = .wouldBlock ∨ call.2 = .error

def bytesOf (calls : List ReadCall) : Bytes := calls.flatMap fun call => call.2.bytes

/-- The bytes in a socket, whatever their segments. -/
def bytesIn (sock : List ReadResult) : Bytes := sock.flatMap ReadResult.bytes

/-- The calls of `read(2)` that `read_into` makes for `room` bytes, and what is left in the
socket. Without data the socket would block. -/
def readCalls (room : Nat) : List ReadResult → List ReadCall × List ReadResult
  | [] => ([if room = 0 then (0, .data []) else (room, .wouldBlock)], [])
  | .data bytes :: rest =>
      if room = 0 then ([(0, .data [])], .data bytes :: rest)
      else if bytes = [] then ([(room, .data [])], rest)
      else if room < bytes.length then
        ([(room, .data (bytes.take room)), (0, .data [])], .data (bytes.drop room) :: rest)
      else
        let (calls, left) := readCalls (room - bytes.length) rest
        ((room, .data bytes) :: calls, left)
  | .eof :: rest => ([if room = 0 then (0, .data []) else (room, .eof)], .eof :: rest)
  | .interrupted :: rest =>
      if room = 0 then ([(0, .data [])], .interrupted :: rest)
      else
        let (calls, left) := readCalls room rest
        ((room, .interrupted) :: calls, left)
  | .wouldBlock :: rest =>
      if room = 0 then ([(0, .data [])], .wouldBlock :: rest) else ([(room, .wouldBlock)], rest)
  | .error :: rest =>
      if room = 0 then ([(0, .data [])], .error :: rest) else ([(room, .error)], rest)

/-- What waits in a socket: the bytes, and whether the end of the stream is behind them. -/
inductive Waiting : List ReadResult → Bytes → Bool → Prop where
  | nothing : Waiting [] [] false
  | eof (rest : List ReadResult) : Waiting (.eof :: rest) [] true
  | data {bytes more : Bytes} {ended : Bool} {rest : List ReadResult} : bytes ≠ [] →
      Waiting rest more ended → Waiting (.data bytes :: rest) (bytes ++ more) ended
  | interrupted {more : Bytes} {ended : Bool} {rest : List ReadResult} : Waiting rest more ended →
      Waiting (.interrupted :: rest) more ended
  | refused {r : ReadResult} {rest : List ReadResult} : refused (0, r) → Waiting rest [] false →
      Waiting (r :: rest) [] false

@[simp] theorem bytesOf_cons (call : ReadCall) (calls : List ReadCall) :
    bytesOf (call :: calls) = call.2.bytes ++ bytesOf calls := rfl

@[simp] theorem bytesOf_append (calls more : List ReadCall) :
    bytesOf (calls ++ more) = bytesOf calls ++ bytesOf more :=
  List.flatMap_append

@[simp] theorem bytesIn_append (sock more : List ReadResult) :
    bytesIn (sock ++ more) = bytesIn sock ++ bytesIn more :=
  List.flatMap_append

theorem readCalls_full (sock : List ReadResult) : readCalls 0 sock = ([(0, .data [])], sock) := by
  cases sock with
  | nil => rfl
  | cons r rest => cases r <;> rfl

/-- Nothing is lost between the socket and its calls. -/
theorem readCalls_bytes (room : Nat) (sock : List ReadResult) :
    bytesOf (readCalls room sock).1 ++ bytesIn (readCalls room sock).2 = bytesIn sock := by
  induction sock generalizing room with
  | nil =>
      by_cases full : room = 0
      · rw [full]
        rfl
      · rw [readCalls, if_neg full]
        rfl
  | cons r rest ih =>
      by_cases full : room = 0
      · rw [full, readCalls_full]
        rfl
      · cases r with
        | data bytes =>
            rw [readCalls, if_neg full]
            split_ifs with none long
            · rw [none]
              rfl
            · change bytes.take room ++ [] ++ (bytes.drop room ++ bytesIn rest) = bytes ++
                bytesIn rest
              rw [List.append_nil, ← List.append_assoc, List.take_append_drop]
            · change bytes ++ bytesOf (readCalls (room - bytes.length) rest).1 ++ _ = bytes ++
                bytesIn rest
              rw [List.append_assoc, ih]
        | eof =>
            rw [readCalls, if_neg full]
            rfl
        | interrupted =>
            rw [readCalls, if_neg full]
            exact ih room
        | wouldBlock | error =>
            rw [readCalls, if_neg full]
            rfl

theorem readInto_full (sock : List ReadResult) : readInto 0 sock = ([], false) := by
  cases sock with
  | nil => rfl
  | cons r rest => cases r <;> rfl

/-- What a buffer of calls amounts to. -/
structure Summed (got : Bytes × Bool) (calls : List ReadCall) : Prop where
  bytes : got.1 = bytesOf calls
  ended : got.2 = true ↔ ∃ call ∈ calls, ends call

theorem summed_full : Summed ([], false) [(0, .data [])] :=
  ⟨rfl, iff_of_false Bool.false_ne_true fun ⟨call, member, zero⟩ => by
    rw [List.mem_singleton.mp member] at zero
    exact Nat.lt_irrefl 0 zero.1⟩

theorem summed_end {room : Nat} (some : 0 < room) {r : ReadResult}
    (zero : r = .eof ∨ r = .data []) : Summed ([], true) [(room, r)] := by
  refine ⟨?_, iff_of_true rfl ⟨_, List.mem_singleton_self _, some, zero⟩⟩
  rcases zero with rfl | rfl <;> rfl

theorem not_ends_of_refused {call : ReadCall} (h : refused call) : ¬ ends call := by
  rintro ⟨-, zero⟩
  rcases h with stop | stop <;> rw [stop] at zero <;> simp at zero

theorem summed_refused {room : Nat} {r : ReadResult} (stop : refused (room, r)) :
    Summed ([], false) [(room, r)] := by
  refine ⟨?_, iff_of_false Bool.false_ne_true fun ⟨call, member, zero⟩ => ?_⟩
  · rcases stop with rfl | rfl <;> rfl
  · rw [List.mem_singleton.mp member] at zero
    exact not_ends_of_refused stop zero

theorem Summed.cons {got : Bytes × Bool} {calls : List ReadCall} (h : Summed got calls)
    (call : ReadCall) (goes : ¬ ends call) : Summed (call.2.bytes ++ got.1, got.2)
    (call :: calls) := by
  refine ⟨by rw [h.bytes, bytesOf_cons], ?_⟩
  rw [h.ended, List.exists_mem_cons_iff]
  exact (or_iff_right goes).symm

theorem not_ends_data {room : Nat} {bytes : Bytes} (h : bytes ≠ []) :
    ¬ ends (room, .data bytes) := by
  rintro ⟨-, zero⟩
  simp [h] at zero

/-- The calls bring what `read_into` returns. -/
theorem readCalls_summed (room : Nat) (sock : List ReadResult) :
    Summed (readInto room sock) (readCalls room sock).1 := by
  induction sock generalizing room with
  | nil =>
      rw [readInto]
      by_cases full : room = 0
      · rw [full, readCalls_full]
        exact summed_full
      · rw [readCalls, if_neg full]
        exact summed_refused (.inl rfl)
  | cons r rest ih =>
      by_cases full : room = 0
      · rw [full, readCalls_full, readInto_full]
        exact summed_full
      · have some : 0 < room := Nat.pos_of_ne_zero full
        cases r with
        | data bytes =>
            rw [readInto, readCalls, if_neg full, if_neg full]
            by_cases none : bytes = []
            · simp only [none, List.take_nil, if_true]
              exact summed_end some (.inr rfl)
            · have got : bytes.take room ≠ [] := by simp [List.take_eq_nil_iff, full, none]
              simp only [if_neg got, if_neg none]
              split_ifs with long
              · have filled : room - (bytes.take room).length = 0 := by
                  rw [List.length_take]
                  omega
                rw [filled, readInto_full]
                exact summed_full.cons (room, .data (bytes.take room)) (not_ends_data got)
              · have whole : bytes.take room = bytes := List.take_of_length_le (Nat.not_lt.mp long)
                rw [whole]
                exact (ih _).cons (room, .data bytes) (not_ends_data none)
        | eof =>
            rw [readInto, readCalls, if_neg full, decide_eq_true some]
            exact summed_end some (.inl rfl)
        | interrupted =>
            rw [readInto, readCalls, if_neg full, if_neg full]
            exact (ih room).cons (room, .interrupted) fun zero => by simp [ends] at zero
        | wouldBlock =>
            rw [readInto, readCalls, if_neg full]
            exact summed_refused (.inl rfl)
        | error =>
            rw [readInto, readCalls, if_neg full]
            exact summed_refused (.inr rfl)

/-- A `read_into` that brings nothing has met a call that would block or failed. -/
theorem readCalls_last {room : Nat} (pos : 0 < room) {sock : List ReadResult}
    (h : readInto room sock = ([], false)) : ∃ call, (readCalls room sock).1.getLast? = some call ∧
    refused call := by
  have full : room ≠ 0 := Nat.ne_of_gt pos
  induction sock with
  | nil =>
      rw [readCalls, if_neg full]
      exact ⟨_, rfl, .inl rfl⟩
  | cons r rest ih =>
      cases r with
      | data bytes =>
          rw [readInto, if_neg full] at h
          by_cases none : bytes = []
          · simp [none] at h
          · have got : bytes.take room ≠ [] := by simp [List.take_eq_nil_iff, full, none]
            simp [got] at h
      | eof =>
          rw [readInto, decide_eq_true pos] at h
          cases h
      | interrupted =>
          rw [readInto, if_neg full] at h
          obtain ⟨call, last, stop⟩ := ih h
          refine ⟨call, ?_, stop⟩
          rw [readCalls, if_neg full]
          simp only [List.getLast?_cons, last, Option.getD_some]
      | wouldBlock =>
          rw [readCalls, if_neg full]
          exact ⟨_, rfl, .inl rfl⟩
      | error =>
          rw [readCalls, if_neg full]
          exact ⟨_, rfl, .inr rfl⟩

/-- `calls` have brought the front of what waited, and `left` still waits. -/
structure Brings (bytes : Bytes) (ended : Bool) (calls : List ReadCall) (sock : List ReadResult)
    (left : Bytes) : Prop where
  waits : Waiting sock left ended
  whole : bytesOf calls ++ left = bytes
  ends : ∀ call ∈ calls, ends call → left = [] ∧ ended = true
  refused : ∀ call ∈ calls, refused call → left = [] ∧ ended = false

theorem Brings.append {bytes left rest : Bytes} {ended : Bool} {calls more : List ReadCall}
    {sock last : List ReadResult} (first : Brings bytes ended calls sock left)
    (second : Brings left ended more last rest) : Brings bytes ended (calls ++ more) last rest := by
  have gone : left = [] → rest = [] :=
    fun none => (List.append_eq_nil_iff.mp (second.whole.trans none)).2
  refine ⟨second.waits, ?_, fun call member => ?_, fun call member => ?_⟩
  · rw [bytesOf_append, List.append_assoc, second.whole, first.whole]
  · rcases List.mem_append.mp member with old | new
    · exact fun zero => (first.ends call old zero).imp_left gone
    · exact second.ends call new
  · rcases List.mem_append.mp member with old | new
    · exact fun stop => (first.refused call old stop).imp_left gone
    · exact second.refused call new

theorem not_refused_data (room : Nat) (bytes : Bytes) : ¬ refused (room, .data bytes) := by
  simp [refused]

theorem brings_full {sock : List ReadResult} {bytes : Bytes} {ended : Bool}
    (h : Waiting sock bytes ended) : Brings bytes ended [(0, .data [])] sock bytes :=
  ⟨h, rfl, List.forall_mem_singleton.mpr fun zero => absurd zero.1 (Nat.lt_irrefl 0),
    List.forall_mem_singleton.mpr fun stop => absurd stop (not_refused_data _ _)⟩

theorem Brings.cons {bytes left : Bytes} {ended : Bool} {calls : List ReadCall}
    {sock : List ReadResult} (h : Brings bytes ended calls sock left) (call : ReadCall)
    (goes : ¬ Tcp.ends call) (runs : ¬ Tcp.refused call) : Brings (call.2.bytes ++ bytes) ended
    (call :: calls) sock left :=
  ⟨h.waits, by rw [bytesOf_cons, List.append_assoc, h.whole],
    List.forall_mem_cons.mpr ⟨fun zero => absurd zero goes, h.ends⟩,
    List.forall_mem_cons.mpr ⟨fun stop => absurd stop runs, h.refused⟩⟩

/-- Only a `read_into` with room needs a look at what waits. -/
theorem brings_of_room {sock : List ReadResult} {bytes : Bytes} {ended : Bool}
    (h : Waiting sock bytes ended) {room : Nat}
    (some : room ≠ 0 → ∃ left, Brings bytes ended (readCalls room sock).1
    (readCalls room sock).2 left) :
    ∃ left, Brings bytes ended (readCalls room sock).1 (readCalls room sock).2 left := by
  by_cases full : room = 0
  · rw [full, readCalls_full]
    exact ⟨bytes, brings_full h⟩
  · exact some full

theorem waiting_brings {sock : List ReadResult} {bytes : Bytes} {ended : Bool}
    (h : Waiting sock bytes ended) (room : Nat) : ∃ left, Brings bytes ended (readCalls room sock).1
    (readCalls room sock).2 left := by
  induction h generalizing room with
  | nothing =>
      apply brings_of_room .nothing
      intro full
      rw [readCalls, if_neg full]
      exact ⟨[], .nothing, rfl,
        List.forall_mem_singleton.mpr fun zero => absurd zero (not_ends_of_refused (.inl rfl)),
        fun _ _ _ => ⟨rfl, rfl⟩⟩
  | eof rest =>
      apply brings_of_room (.eof rest)
      intro full
      rw [readCalls, if_neg full]
      refine ⟨[], .eof rest, rfl, fun _ _ _ => ⟨rfl, rfl⟩, List.forall_mem_singleton.mpr fun stop =>
        ?_⟩
      simp [refused] at stop
  | @data bytes more ended rest some after ih =>
      apply brings_of_room (.data some after)
      intro full
      rw [readCalls, if_neg full, if_neg some]
      split_ifs with long
      · have front : bytes.take room ≠ [] := by simp [List.take_eq_nil_iff, full, some]
        have back : bytes.drop room ≠ [] :=
          fun none => absurd (List.drop_eq_nil_iff.mp none) (Nat.not_le.mpr long)
        have whole : bytes ++ more = bytes.take room ++ (bytes.drop room ++ more) := by
          rw [← List.append_assoc, List.take_append_drop]
        refine ⟨bytes.drop room ++ more, ?_⟩
        rw [whole]
        exact (brings_full (.data back after)).cons (room, .data (bytes.take room))
          (not_ends_data front) (not_refused_data _ _)
      · obtain ⟨left, brought⟩ := ih (room - bytes.length)
        exact ⟨left, brought.cons (room, .data bytes) (not_ends_data some) (not_refused_data _ _)⟩
  | interrupted after ih =>
      apply brings_of_room (.interrupted after)
      intro full
      rw [readCalls, if_neg full]
      obtain ⟨left, brought⟩ := ih room
      exact ⟨left, brought.cons (room, .interrupted) (fun zero => by simp [Tcp.ends] at zero)
        fun stop => by simp [Tcp.refused] at stop⟩
  | @refused r rest stop after ih =>
      apply brings_of_room (.refused stop after)
      intro full
      have one : readCalls room (r :: rest) = ([(room, r)], rest) := by
        rcases stop with rfl | rfl <;> rw [readCalls, if_neg full]
      have none : r.bytes = [] := by rcases stop with rfl | rfl <;> rfl
      rw [one]
      refine ⟨[], after, ?_, List.forall_mem_singleton.mpr fun zero => ?_, fun _ _ _ => ⟨rfl, rfl⟩⟩
      · rw [bytesOf_cons, none]
        rfl
      · exact absurd zero (not_ends_of_refused stop)

/-- A transport with its socket and the calls of `read(2)` made so far. -/
structure Reader (σ : Type) where
  cfg : Cfg σ
  sock : List ReadResult
  calls : List ReadCall

/-- The room for the `read_into` of this action, if it makes one. -/
def roomOf (c : Cfg σ) : Act → Option Nat
  | .fire =>
      if c.tables.event = some .readable ∧ c.tables.bound = true ∧
        c.tr.protoBuffered = false then some readBufSize
      else none
  | .ret r =>
      match c.stack.head?, r with
      | some .getBuffer, .buffer size => some size
      | some (.data false), _ => if c.tr.protoBuffered then none else some readBufSize
      | _, _ => none
  | _ => none

/-- A step of the transport, its reads answered by the socket. -/
def receive (R : Rustls σ) (w : Reader σ) (a : Act × Env) : Option (Reader σ) :=
  match roomOf w.cfg a.1 with
  | some room =>
      let (calls, left) := readCalls room w.sock
      (step R w.cfg (a.1, { a.2 with reads := w.sock })).map fun cfg =>
      ⟨cfg, left, w.calls ++ calls⟩
  | none => (step R w.cfg a).map fun cfg => { w with cfg }

/-- A read handle from its start, over the calls into the protocol, to its end. -/
structure ReadRun (R : Rustls σ) (s : Reader σ) (env : Env) (b : Reader σ) (more : List (Act × Env))
    (t : Reader σ) : Prop where
  readable : s.cfg.tables.event = some .readable
  bound : s.cfg.tables.bound = true
  fresh : s.calls = []
  fired : receive R s (.fire, env) = some b
  rest : run (receive R) b more = some t
  busy : Guarded (receive R) (fun w _ => w.cfg.stack ≠ []) b more
  ended : t.cfg.stack = []
  running : t.cfg.panicked = false

/-- The calls into the protocol since `c`. -/
def heardSince (c d : Cfg σ) : List Callback := d.callbacks.drop c.callbacks.length

/-- Everything the socket returned is delivered in order and once. The end of the stream is
reported if a read into a non-empty buffer returned 0, after the bytes before it, and
otherwise the last call would have blocked or failed. -/
structure Complete (s t : Reader σ) : Prop where
  grows : s.cfg.callbacks <+: t.cfg.callbacks
  delivered : (heardSince s.cfg t.cfg).flatMap Callback.payload = bytesOf t.calls
  eof : .eofReceived ∈ heardSince s.cfg t.cfg ↔ ∃ call ∈ t.calls, ends call
  drained : .eofReceived ∉ heardSince s.cfg t.cfg →
      ∃ call, t.calls.getLast? = some call ∧ refused call
  order : ∀ past later, heardSince s.cfg t.cfg = past ++ .eofReceived :: later →
    past.flatMap Callback.payload = bytesOf t.calls

/-- How a run of the handle stands: its frame at the bottom of the stack, what was called
since its start, and the reads. -/
inductive Underway (stack : List Frame) (more : List Callback) (calls : List ReadCall) : Prop where
  | reading (frame : Frame) : stack.getLast? = some frame → frame = .getBuffer ∨
      frame = .data false → .eofReceived ∉ more → (∀ call ∈ calls, ¬ ends call) →
      more.flatMap Callback.payload = bytesOf calls → Underway stack more calls
  | closing : stack.getLast? = some (.data true) → .eofReceived ∉ more →
      (∃ call ∈ calls, ends call) → more.flatMap Callback.payload = bytesOf calls →
      Underway stack more calls
  | ended (past later : List Callback) : (∀ frame ∈ stack, frame.inbound = true → frame = .eof) →
      more = past ++ .eofReceived :: later → .eofReceived ∉ past →
      (∀ e ∈ later, e.inbound = false) → (∃ call ∈ calls, ends call) →
      past.flatMap Callback.payload = bytesOf calls → Underway stack more calls
  | dry (call : ReadCall) : stack = [] → .eofReceived ∉ more → (∀ call ∈ calls, ¬ ends call) →
      calls.getLast? = some call → refused call → more.flatMap Callback.payload = bytesOf calls →
      Underway stack more calls

theorem payload_of_silent {more : List Callback} (quiet : ∀ e ∈ more, e.inbound = false) :
    more.flatMap Callback.payload = [] := by
  rw [List.flatMap_eq_nil_iff]
  exact fun e member => payload_of_quiet (quiet e member)

theorem not_eof_of_quiet {more : List Callback} (quiet : ∀ e ∈ more, e.inbound = false) :
    .eofReceived ∉ more :=
  fun member => Bool.noConfusion (quiet _ member)

/-- Code that does not read leaves the bottom frame and calls nothing that counts. -/
theorem Underway.quiet {stack stack' : List Frame} {more silent : List Callback}
    {calls : List ReadCall} (h : Underway stack more calls) (busy : stack ≠ [])
    (bottom : stack'.getLast? = stack.getLast?)
    (frames : ∀ frame ∈ stack', frame.inbound = true → frame ∈ stack)
    (quiet : ∀ e ∈ silent, e.inbound = false) : Underway stack' (more ++ silent) calls := by
  have same : (more ++ silent).flatMap Callback.payload = more.flatMap Callback.payload := by
    rw [List.flatMap_append, payload_of_silent quiet, List.append_nil]
  have still : .eofReceived ∉ more → .eofReceived ∉ more ++ silent := fun none member =>
    (List.mem_append.mp member).elim none (not_eof_of_quiet quiet)
  cases h with
  | reading frame top which none goes data =>
      exact .reading frame (bottom.trans top) which (still none) goes (same.trans data)
  | closing top none zero data =>
      exact .closing (bottom.trans top) (still none) zero (same.trans data)
  | ended past later apart parts first after zero data =>
      have still' : ∀ frame ∈ stack', frame.inbound = true → frame = .eof :=
        fun frame member inbound => apart frame (frames frame member inbound) inbound
      refine .ended past (later ++ silent) still' ?_ first
        (List.forall_mem_append.mpr ⟨after, quiet⟩) zero data
      rw [parts, List.append_assoc, List.cons_append]
  | dry call empty => exact absurd empty busy

theorem callbacks_recv (c : Cfg σ) (got : Bytes) : (c.emit (.recv got)).callbacks = c.callbacks :=
  callbacks_append rfl (List.forall_mem_singleton.mpr rfl)

/-- `read_into` brought bytes. -/
theorem received_data {c : Cfg σ} (free : c.stack = []) (got : Bytes) (closed : Bool)
    {more : List Callback} {calls : List ReadCall} (noEof : .eofReceived ∉ more)
    (zero : closed = true → ∃ call ∈ calls, ends call)
    (going : closed = false → ∀ call ∈ calls, ¬ ends call)
    (all : bytesOf calls = more.flatMap Callback.payload ++ got) {d : Cfg σ}
    (h : d = received (c.emit (.recv got), some got, closed)) :
    ∃ new, d.callbacks = c.callbacks ++ new ∧ Underway d.stack (more ++ new) calls := by
  have called : d.callbacks = c.callbacks ++ [.dataReceived got] := by
    rw [h, ← callbacks_recv c got]
    exact callbacks_call _ _ _
  have stack : d.stack = [.data closed] := by
    rw [h, ← free]
    rfl
  have silent : .eofReceived ∉ more ++ [.dataReceived got] := by simp [noEof]
  have whole : (more ++ [Callback.dataReceived got]).flatMap Callback.payload = bytesOf calls := by
    rw [all, List.flatMap_append]
    simp [Callback.payload]
  refine ⟨_, called, ?_⟩
  rw [stack]
  cases closed with
  | true => exact .closing rfl silent (zero rfl) whole
  | false => exact .reading (.data false) rfl (.inr rfl) silent (going rfl) whole

/-- `read_into` brought no byte: the stream ended or has no more for now. -/
theorem received_nothing {c : Cfg σ} (free : c.stack = []) (closed : Bool) {more : List Callback}
    {calls : List ReadCall} (noEof : .eofReceived ∉ more)
    (zero : closed = true → ∃ call ∈ calls, ends call)
    (going : closed = false → ∀ call ∈ calls, ¬ ends call)
    (last : closed = false → ∃ call, calls.getLast? = some call ∧ refused call)
    (all : bytesOf calls = more.flatMap Callback.payload) {d : Cfg σ}
    (h : d = received (c.emit (.recv []), none, closed)) :
    ∃ new, d.callbacks = c.callbacks ++ new ∧ Underway d.stack (more ++ new) calls := by
  cases closed with
  | true =>
      refine ⟨[.eofReceived], ?_, ?_⟩
      · rw [h, ← callbacks_recv c []]
        exact callbacks_call _ _ _
      · rw [h]
        refine .ended more [] (fun frame member _ => ?_) rfl noEof (List.forall_mem_nil _)
          (zero rfl) all.symm
        have stack : (received (c.emit (.recv []), none, true)).stack = .eof :: c.stack := rfl
        rw [stack, free] at member
        exact List.mem_singleton.mp member
  | false =>
      refine ⟨[], ?_, ?_⟩
      · rw [h, List.append_nil]
        exact callbacks_recv c []
      · obtain ⟨call, there, stop⟩ := last rfl
        rw [h, List.append_nil]
        exact .dry call free noEof (going rfl) there stop all.symm

/-- What follows a `read_into` for at least one byte. -/
theorem received_standing {c : Cfg σ} (free : c.stack = []) {room : Nat} (pos : 0 < room)
    (sock : List ReadResult) {more : List Callback} {calls : List ReadCall}
    (noEof : .eofReceived ∉ more) (goes : ∀ call ∈ calls, ¬ ends call)
    (data : more.flatMap Callback.payload = bytesOf calls) {d : Cfg σ}
    (h : d = received (c.emit (.recv (readInto room sock).1),
      if (readInto room sock).1 = [] then none else some (readInto room sock).1,
        (readInto room sock).2)) :
    ∃ new, d.callbacks = c.callbacks ++ new ∧ Underway d.stack (more ++ new)
    (calls ++ (readCalls room sock).1) := by
  obtain ⟨bytes, ended⟩ := readCalls_summed room sock
  have last : readInto room sock = ([], false) →
      ∃ call, (readCalls room sock).1.getLast? = some call ∧ refused call :=
    readCalls_last pos
  revert bytes ended last h
  generalize readInto room sock = got
  obtain ⟨got, closed⟩ := got
  intro h bytes ended last
  have all : bytesOf (calls ++ (readCalls room sock).1) = more.flatMap Callback.payload ++ got := by
    rw [bytesOf_append, ← bytes, data]
  have zero : closed = true → ∃ call ∈ calls ++ (readCalls room sock).1, ends call :=
      fun closed => by
    obtain ⟨call, member, zero⟩ := ended.mp closed
    exact ⟨call, List.mem_append_right _ member, zero⟩
  have going : closed = false → ∀ call ∈ calls ++ (readCalls room sock).1, ¬ ends call := by
    intro closed call member
    rcases List.mem_append.mp member with old | new
    · exact goes call old
    · exact fun zero => Bool.false_ne_true (closed.symm.trans (ended.mpr ⟨call, new, zero⟩))
  by_cases empty : got = []
  · subst empty
    rw [List.append_nil] at all
    refine received_nothing free closed noEof zero going (fun goes => ?_) all h
    obtain ⟨call, there, stop⟩ := last (by rw [goes])
    refine ⟨call, ?_, stop⟩
    rw [List.getLast?_append, there]
    rfl
  · rw [if_neg empty] at h
    exact received_data free got closed noEof zero going all h

theorem readRound_standing {c : Cfg σ} (plain : c.tr.state.tlsConn = none) (free : c.stack = [])
    (env : Env) {more : List Callback} {calls : List ReadCall} (noEof : .eofReceived ∉ more)
    (goes : ∀ call ∈ calls, ¬ ends call) (data : more.flatMap Callback.payload = bytesOf calls) :
    ∃ new, (readRound R c env).callbacks = c.callbacks ++ new ∧ Underway (readRound R c env).stack
    (more ++ new)
      (if c.tr.protoBuffered = true then calls
        else calls ++ (readCalls readBufSize env.reads).1) := by
  by_cases buffered : c.tr.protoBuffered = true
  · rw [readRound, if_pos buffered, if_pos buffered]
    refine ⟨_, callbacks_call _ _ _, .reading .getBuffer ?_ (.inl rfl) ?_ goes ?_⟩
    · rw [Cfg.call, free]
      rfl
    · simp [noEof]
    · rw [List.flatMap_append, data]
      exact List.append_nil _
  · rw [if_neg buffered]
    refine received_standing free (by decide) env.reads noEof goes data ?_
    simp only [readRound, if_neg buffered, recvDirect, plain]

/-- What stays true of a run of the read handle. -/
structure Midway (s w : Reader σ) : Prop where
  plain : w.cfg.tr.state.tlsConn = none
  last : HandlesLast w.cfg
  standing : ∃ more, w.cfg.callbacks = s.cfg.callbacks ++ more ∧ Underway w.cfg.stack more w.calls

/-- A step within a handle's run: code that does not read, or the return of the handle's
own call. -/
inductive Inside (R : Rustls σ) (K : Conserving R) (c : Cfg σ) (env : Env) (act : Act)
    (d : Cfg σ) : Prop where
  | quiet : Mute K c d → d.stack.getLast? = c.stack.getLast? → roomOf c act = none →
      Inside R K c env act d
  | bottom (r : Ret) (frame : Frame) : act = .ret r → c.stack = [frame] →
      d = frame.after R { c with stack := [] } r env → Inside R K c env act d

theorem Nests.getLast {c d : Cfg σ} (h : Nests c d) (busy : c.stack ≠ []) :
    d.stack.getLast? = c.stack.getLast? := by
  rcases h with same | ⟨frame, -, pushed⟩
  · rw [same]
  · obtain ⟨bottom, last⟩ := Option.isSome_iff_exists.mp (List.getLast?_isSome.mpr busy)
    rw [pushed, List.getLast?_cons, last]
    rfl

theorem after_mute (K : Conserving R) (c : Cfg σ) {frame : Frame} (other : frame.inbound = false)
    (r : Ret) (env : Env) : Mute K c (frame.after R c r env) := by
  cases frame with
  | attach =>
      simp only [Frame.after, register]
      split_ifs
      · exact .refl K c
      · exact .same rfl rfl rfl rfl rfl rfl
  | connectionMade | pause => exact .refl K c
  | getBuffer | data | eof => cases other
  | lost k =>
      cases k with
      | writeHandle => exact finishWrite_mute K c (some true) env
      | callConnLost | tryWrite | recvEof | readHandle => exact tcpStreamClose_mute K c _ env
  | resume => exact afterWrite_mute K c env

theorem step_inside (K : Conserving R) {c d : Cfg σ} {act : Act} {env : Env} (last : HandlesLast c)
    (busy : c.stack ≠ []) (h : step R c (act, env) = some d) : Inside R K c env act d := by
  obtain ⟨-, stepped⟩ := step_stepped h
  cases stepped with
  | call m exposed => exact .quiet (method_mute K c env m) ((method_nests c env m).getLast busy) rfl
  | server aborts bound listed =>
      exact .quiet (method_mute K c env _) ((method_nests c env _).getLast busy) rfl
  | ret r frame stack hstack =>
      cases stack with
      | nil => exact .bottom r frame rfl hstack rfl
      | cons next rest =>
          have nested : frame.nested = true :=
            (last.below hstack).resolve_right (List.cons_ne_nil _ _)
          have other : frame.inbound = false := by
            cases frame <;> first | rfl | cases nested
          have popped : Mute K c { c with stack := next :: rest } :=
            { Mute.refl K c with frames := fun f member _ =>
              hstack ▸ List.mem_cons_of_mem frame member }
          refine .quiet (popped.trans (after_mute K _ other r env)) ?_ ?_
          · rw [(after_nests _ nested r env).getLast (List.cons_ne_nil _ _), hstack,
              List.getLast?_cons_cons]
          · simp only [roomOf, hstack, List.head?_cons]
            cases frame <;> first | rfl | cases nested
  | poll dir free | fire dir free | made free => exact absurd free busy

/-- The room for a buffer of the protocol's is not zero. -/
def NonEmpty (a : Act × Env) : Prop := ∀ size, a.1 = .ret (.buffer size) → 0 < size

theorem receive_quiet {w t : Reader σ} {a : Act × Env} (room : roomOf w.cfg a.1 = none)
    (h : receive R w a = some t) : step R w.cfg a = some t.cfg ∧ t = { w with cfg := t.cfg } := by
  rw [receive, room] at h
  obtain ⟨cfg, one, rfl⟩ := Option.map_eq_some_iff.mp h
  exact ⟨one, rfl⟩

theorem receive_reads {w t : Reader σ} {a : Act × Env} {room : Nat}
    (h : roomOf w.cfg a.1 = some room) (one : receive R w a = some t) :
    step R w.cfg (a.1, { a.2 with reads := w.sock }) = some t.cfg ∧
    t.sock = (readCalls room w.sock).2 ∧
      t.calls = w.calls ++ (readCalls room w.sock).1 := by
  rw [receive, h] at one
  obtain ⟨cfg, stepped, rfl⟩ := Option.map_eq_some_iff.mp one
  exact ⟨stepped, rfl, rfl⟩

theorem receive_step {w t : Reader σ} {a : Act × Env} (h : receive R w a = some t) :
    ∃ env, step R w.cfg (a.1, env) = some t.cfg := by
  cases room : roomOf w.cfg a.1 with
  | none => exact ⟨a.2, (receive_quiet room h).1⟩
  | some n => exact ⟨_, (receive_reads room h).1⟩

theorem step_ret {c d : Cfg σ} {frame : Frame} {stack : List Frame} {r : Ret} {env : Env}
    (top : c.stack = frame :: stack) (h : step R c (.ret r, env) = some d) :
    d = frame.after R { c with stack := stack } r env := by
  cases (step_stepped h).2 with
  | ret r other rest there =>
      obtain ⟨rfl, rfl⟩ := List.cons.inj (top.symm.trans there)
      rfl

/-- Once the handle has no more to read, nothing that counts is called. -/
theorem Underway.finish {frame : Frame} {stack : List Frame} {more silent : List Callback}
    {calls : List ReadCall} (h : Underway [frame] more calls) (buffer : frame ≠ .getBuffer)
    (data : ∀ eof, frame ≠ .data eof) (frames : ∀ other ∈ stack, other.inbound = false)
    (quiet : ∀ e ∈ silent, e.inbound = false) : Underway stack (more ++ silent) calls := by
  cases h with
  | reading other top which =>
      obtain rfl := Option.some.inj top
      exact absurd which (not_or.mpr ⟨buffer, data false⟩)
  | closing top => exact absurd (Option.some.inj top) (data true)
  | ended past later apart parts first after zero bytes =>
      refine .ended past (later ++ silent) (fun other member inbound => ?_) ?_ first
        (List.forall_mem_append.mpr ⟨after, quiet⟩) zero bytes
      · rw [frames other member] at inbound
        cases inbound
      · rw [parts, List.append_assoc, List.cons_append]
  | dry call empty => cases empty

theorem Underway.reads {frame : Frame} {more : List Callback} {calls : List ReadCall}
    (h : Underway [frame] more calls) (which : frame = .getBuffer ∨ frame = .data false) :
    .eofReceived ∉ more ∧ (∀ call ∈ calls, ¬ ends call) ∧
    more.flatMap Callback.payload = bytesOf calls := by
  cases h with
  | reading other top _ noEof goes data => exact ⟨noEof, goes, data⟩
  | closing top =>
      obtain rfl := Option.some.inj top
      rcases which with h | h <;> cases h
  | ended past later apart =>
      have eof := apart frame List.mem_cons_self (by rcases which with rfl | rfl <;> rfl)
      rw [eof] at which
      rcases which with h | h <;> cases h
  | dry call empty => cases empty

theorem Underway.closes {more : List Callback} {calls : List ReadCall}
    (h : Underway [.data true] more calls) : .eofReceived ∉ more ∧ (∃ call ∈ calls, ends call) ∧
    more.flatMap Callback.payload = bytesOf calls := by
  cases h with
  | reading other top which =>
      obtain rfl := Option.some.inj top
      rcases which with h | h <;> cases h
  | closing _ noEof zero data => exact ⟨noEof, zero, data⟩
  | ended past later apart => cases apart _ List.mem_cons_self rfl
  | dry call empty => cases empty

theorem received_tr (r : Cfg σ × Option Bytes × Bool) : (received r).tr = r.1.tr := by
  obtain ⟨c, data, eof⟩ := r
  cases data with
  | some data => rfl
  | none => cases eof <;> rfl

theorem readRound_plain {c : Cfg σ} (plain : c.tr.state.tlsConn = none) (env : Env) :
    (readRound R c env).tr.state.tlsConn = none := by
  simp only [readRound]
  split_ifs
  · exact plain
  · rw [received_tr]
    simp only [recvDirect, plain]
    exact plain

/-- The run goes on: `t` follows `w`, by when the protocol had `more`. -/
def Onward (w t : Reader σ) (more : List Callback) : Prop :=
  t.cfg.tr.state.tlsConn = none ∧
    ∃ new, t.cfg.callbacks = w.cfg.callbacks ++ new ∧ Underway t.cfg.stack (more ++ new) t.calls

/-- A call returns after which nothing is read. -/
theorem idle_onward {w t : Reader σ} {frame : Frame} {r : Ret} {env : Env}
    (plain : w.cfg.tr.state.tlsConn = none) (top : w.cfg.stack = [frame])
    (h : receive R w (.ret r, env) = some t) {more : List Callback}
    (standing : Underway [frame] more w.calls) (room : roomOf w.cfg (.ret r) = none)
    (buffer : frame ≠ .getBuffer) (data : ∀ eof, frame ≠ .data eof)
    (quiet : Mute (Conserving.any R) { w.cfg with stack := [] }
      (frame.after R { w.cfg with stack := [] } r env)) :
    Onward w t more := by
  obtain ⟨one, same⟩ := receive_quiet room h
  rw [← step_ret top one] at quiet
  obtain ⟨silent, calls, silence⟩ := quiet.calls
  refine ⟨?_, silent, calls, ?_⟩
  · have tls := quiet.tls
    have popped : ({ w.cfg with stack := [] } : Cfg σ).tr.state.tlsConn = none := plain
    rw [popped] at tls
    simpa using tls
  · rw [same]
    refine standing.finish buffer data (fun other member => ?_) fun e he => (silence e he).1
    exact Bool.eq_false_iff.mpr fun inbound => List.not_mem_nil (quiet.frames other member inbound)

/-- `get_buffer` returns a buffer, into which the next call reads. -/
theorem getBuffer_onward {w t : Reader σ} {size : Nat} {env : Env}
    (plain : w.cfg.tr.state.tlsConn = none) (top : w.cfg.stack = [.getBuffer]) (pos : 0 < size)
    (h : receive R w (.ret (.buffer size), env) = some t) {more : List Callback}
    (standing : Underway [.getBuffer] more w.calls) : Onward w t more := by
  obtain ⟨noEof, goes, data⟩ := standing.reads (.inl rfl)
  have room : roomOf w.cfg (.ret (.buffer size)) = some size := by
    simp only [roomOf, top, List.head?_cons]
  obtain ⟨one, -, made⟩ := receive_reads room h
  have d := step_ret top one
  have tr : t.cfg.tr = w.cfg.tr := by
    rw [d]
    exact received_tr _
  refine ⟨tr ▸ plain, ?_⟩
  rw [made]
  exact received_standing (c := { w.cfg with stack := [] }) rfl pos w.sock noEof goes data d

/-- `data_received` returns with the end of the stream read before. -/
theorem closing_onward {w t : Reader σ} {r : Ret} {env : Env}
    (plain : w.cfg.tr.state.tlsConn = none) (top : w.cfg.stack = [.data true])
    (h : receive R w (.ret r, env) = some t) {more : List Callback}
    (standing : Underway [.data true] more w.calls) : Onward w t more := by
  obtain ⟨one, same⟩ := receive_quiet (by simp only [roomOf, top, List.head?_cons]) h
  have d : t.cfg = recvEof { w.cfg with stack := [] } := step_ret top one
  obtain ⟨noEof, zero, data⟩ := standing.closes
  refine ⟨d ▸ plain, [.eofReceived], ?_, ?_⟩
  · rw [d]
    exact callbacks_call _ _ _
  · rw [same, d]
    exact .ended more [] (List.forall_mem_singleton.mpr fun _ => rfl) rfl noEof
      (List.forall_mem_nil _) zero data

/-- `data_received` returns with more to read. -/
theorem reading_onward {w t : Reader σ} {r : Ret} {env : Env}
    (plain : w.cfg.tr.state.tlsConn = none) (top : w.cfg.stack = [.data false])
    (h : receive R w (.ret r, env) = some t) {more : List Callback}
    (standing : Underway [.data false] more w.calls) : Onward w t more := by
  obtain ⟨noEof, goes, data⟩ := standing.reads (.inr rfl)
  have popped : ({ w.cfg with stack := [] } : Cfg σ).tr.state.tlsConn = none := plain
  have round := fun env => readRound_standing (R := R) popped rfl env noEof goes data
  by_cases buffered : w.cfg.tr.protoBuffered = true
  · obtain ⟨one, same⟩ := receive_quiet
      (by simp only [roomOf, top, List.head?_cons, if_pos buffered]) h
    have d : t.cfg = readRound R { w.cfg with stack := [] } env := step_ret top one
    have round := round env
    rw [← d, if_pos buffered] at round
    refine ⟨?_, same ▸ round⟩
    rw [d]
    exact readRound_plain popped env
  · have room : roomOf w.cfg (.ret r) = some readBufSize := by
      simp only [roomOf, top, List.head?_cons, if_neg buffered]
    obtain ⟨one, -, made⟩ := receive_reads room h
    have d : t.cfg = readRound R { w.cfg with stack := [] } { env with reads := w.sock } :=
      step_ret top one
    have round := round { env with reads := w.sock }
    rw [← d, if_neg buffered, ← made] at round
    refine ⟨?_, round⟩
    rw [d]
    exact readRound_plain popped _

/-- The handle's own call returns. -/
theorem bottom_standing {w t : Reader σ} {frame : Frame} {r : Ret} {env : Env}
    (plain : w.cfg.tr.state.tlsConn = none) (top : w.cfg.stack = [frame])
    (good : NonEmpty (.ret r, env)) (h : receive R w (.ret r, env) = some t)
    {more : List Callback} (standing : Underway [frame] more w.calls) :
    t.cfg.panicked = true ∨ Onward w t more := by
  cases frame with
  | getBuffer =>
      cases r with
      | buffer size => exact .inr (getBuffer_onward plain top (good size rfl) h standing)
      | falsy | truthy | raised =>
          obtain ⟨one, -⟩ := receive_quiet (by simp only [roomOf, top, List.head?_cons]) h
          exact .inl (step_ret top one ▸ rfl)
  | data ended =>
      cases ended with
      | true => exact .inr (closing_onward plain top h standing)
      | false => exact .inr (reading_onward plain top h standing)
  | eof =>
      exact .inr (idle_onward plain top h standing (by simp only [roomOf, top, List.head?_cons])
        Frame.noConfusion (fun _ => Frame.noConfusion) (eofReceived_mute _ _ _ env))
  | attach | connectionMade | pause | lost | resume =>
      exact .inr (idle_onward plain top h standing (by simp only [roomOf, top, List.head?_cons])
        Frame.noConfusion (fun _ => Frame.noConfusion) (after_mute _ _ rfl r env))

theorem step_midway {s w t : Reader σ} {a : Act × Env} (inv : w.cfg.panicked = true ∨ Midway s w)
    (good : NonEmpty a) (busy : w.cfg.stack ≠ []) (h : receive R w a = some t) :
    t.cfg.panicked = true ∨ Midway s t := by
  obtain ⟨act, env⟩ := a
  obtain ⟨env', one⟩ := receive_step h
  rcases inv with panicked | ⟨plain, last, more, heard, standing⟩
  · exact absurd (step_stepped one).1 (by rw [panicked]; exact Bool.noConfusion)
  · have last' := step_handlesLast _ _ _ last one
    cases step_inside (Conserving.any R) last busy one with
    | quiet quiet bottom room =>
        obtain ⟨silent, calls, silence⟩ := quiet.calls
        refine .inr ⟨?_, last', more ++ silent, ?_, ?_⟩
        · have tls := quiet.tls
          rw [plain] at tls
          simpa using tls
        · rw [calls, heard, List.append_assoc]
        · rw [(receive_quiet room h).2]
          exact standing.quiet busy bottom quiet.frames fun e he => (silence e he).1
    | bottom r frame act top =>
        subst act
        refine (bottom_standing plain top good h (top ▸ standing)).imp_right fun ⟨plain, new, calls,
          standing⟩ => ?_
        refine ⟨plain, last', more ++ new, ?_, standing⟩
        rw [calls, heard, List.append_assoc]

/-- The first step of the run. -/
theorem fired_midway {s b : Reader σ} {env : Env} (plain : s.cfg.tr.state.tlsConn = none)
    (readable : s.cfg.tables.event = some .readable) (bound : s.cfg.tables.bound = true)
    (fresh : s.calls = []) (h : receive R s (.fire, env) = some b) : Midway s b := by
  obtain ⟨env', one⟩ := receive_step h
  obtain ⟨-, free, -⟩ := fire_stepped one
  have last : HandlesLast s.cfg := fun frame member => by rw [free] at member; cases member
  -- the handle starts with a round, whoever answers its reads
  have round : ∀ env, step R s.cfg (.fire, env) = some b.cfg →
      b.cfg = readRound R { s.cfg with tables := { s.cfg.tables with event := none } } env := by
    intro env one
    obtain ⟨dir, -, there, fired⟩ := fire_stepped one
    cases readable.symm.trans there
    exact fired.trans (if_pos bound)
  have noEof : Callback.eofReceived ∉ ([] : List Callback) := List.not_mem_nil
  have goes : ∀ call ∈ ([] : List ReadCall), ¬ ends call := List.forall_mem_nil _
  have standing := fun env => readRound_standing (R := R)
    (c := { s.cfg with tables := { s.cfg.tables with event := none } }) plain free env noEof
    goes rfl
  refine ⟨?_, step_handlesLast _ _ _ last one, ?_⟩
  · rw [round env' one]
    refine readRound_plain ?_ env'
    exact plain
  · by_cases buffered : s.cfg.tr.protoBuffered = true
    · obtain ⟨one, same⟩ := receive_quiet (by simp [roomOf, buffered]) h
      have standing := standing env
      rw [← round env one, if_pos buffered] at standing
      rw [same, fresh]
      exact standing
    · have room : roomOf s.cfg .fire = some readBufSize := by
        simp [roomOf, readable, bound, buffered]
      obtain ⟨one, -, made⟩ := receive_reads room h
      have standing := standing { env with reads := s.sock }
      rw [← round _ one, if_neg buffered] at standing
      rw [made, fresh]
      exact standing

theorem heardSince_of {c d : Cfg σ} {more : List Callback} (h : d.callbacks = c.callbacks ++ more) :
    heardSince c d = more := by
  rw [heardSince, h, List.drop_left]

/-- The one report splits the calls in one way. -/
theorem split_unique {past later past' later' : List Callback} (first : .eofReceived ∉ past)
    (after : .eofReceived ∉ later) (h : past ++ .eofReceived :: later = past' ++ .eofReceived ::
      later') :
    past' = past := by
  rcases List.append_eq_append_iff.mp h with ⟨mid, rfl, parts⟩ | ⟨mid, rfl, parts⟩
  · cases mid with
    | nil => exact List.append_nil _
    | cons e mid =>
        obtain ⟨-, rfl⟩ := List.cons.inj parts
        exact absurd (List.mem_append_right mid List.mem_cons_self) after
  · cases mid with
    | nil => exact (List.append_nil _).symm
    | cons e mid =>
        obtain ⟨rfl, -⟩ := List.cons.inj parts
        exact absurd (List.mem_append_right past' List.mem_cons_self) first

theorem Midway.complete {s t : Reader σ} (h : Midway s t) (ended : t.cfg.stack = []) :
    Complete s t := by
  obtain ⟨more, heard, standing⟩ := h.standing
  have since := heardSince_of heard
  rw [ended] at standing
  cases standing with
  | reading frame top => cases top
  | closing top => cases top
  | ended past later apart parts first after zero data =>
      have noEof := not_eof_of_quiet after
      have reported : .eofReceived ∈ more := parts ▸ List.mem_append_right past List.mem_cons_self
      refine ⟨⟨more, heard.symm⟩, ?_, ?_, ?_, ?_⟩
      · rw [since, parts, List.flatMap_append, List.flatMap_cons, payload_of_silent after, data]
        simp [Callback.payload]
      · rw [since]
        exact iff_of_true reported zero
      · rw [since]
        exact fun none => absurd reported none
      · intro past' later' parts'
        rw [since, parts] at parts'
        rw [split_unique first noEof parts', data]
  | dry call empty noEof goes last stop data =>
      refine ⟨⟨more, heard.symm⟩, ?_, ?_, ?_, ?_⟩
      · rw [since, data]
      · rw [since]
        exact iff_of_false noEof fun ⟨call, member, zero⟩ => goes call member zero
      · exact fun _ => ⟨call, last, stop⟩
      · intro past later parts
        rw [since] at parts
        exact absurd (parts ▸ List.mem_append_right past List.mem_cons_self) noEof

theorem readRun_midway {s b t : Reader σ} {env : Env} {more : List (Act × Env)}
    (plain : s.cfg.tr.state.tlsConn = none) (handle : ReadRun R s env b more t)
    (buffers : ∀ a ∈ more, NonEmpty a) : Midway s t := by
  have start := fired_midway plain handle.readable handle.bound handle.fresh handle.fired
  have last : t.cfg.panicked = true ∨ Midway s t :=
    run_preserves (G := fun w a => w.cfg.stack ≠ [] ∧ NonEmpty a)
        (I := fun w => w.cfg.panicked = true ∨ Midway s w)
      (fun _ _ _ inv good one => step_midway inv good.2 good.1 one) handle.rest (.inr start)
      (handle.busy.and (guarded_of_forall buffers))
  exact last.resolve_left fun panicked => by
    rw [handle.running] at panicked
    cases panicked

/-- What waited at the start is brought by the calls or still waits. -/
theorem receive_brings {w t : Reader σ} {a : Act × Env} (h : receive R w a = some t)
    {bytes left : Bytes} {ended : Bool} (brought : Brings bytes ended w.calls w.sock left) :
    ∃ rest, Brings bytes ended t.calls t.sock rest := by
  cases room : roomOf w.cfg a.1 with
  | none =>
      rw [(receive_quiet room h).2]
      exact ⟨left, brought⟩
  | some n =>
      obtain ⟨-, sock, made⟩ := receive_reads room h
      obtain ⟨rest, more⟩ := waiting_brings brought.waits n
      rw [made, sock]
      exact ⟨rest, brought.append more⟩

theorem readRun_brings {s b t : Reader σ} {env : Env} {more : List (Act × Env)}
    (handle : ReadRun R s env b more t) {bytes : Bytes} {ended : Bool}
    (waits : Waiting s.sock bytes ended) : ∃ left, Brings bytes ended t.calls t.sock left := by
  have start : Brings bytes ended s.calls s.sock bytes := by
    rw [handle.fresh]
    exact ⟨waits, rfl, List.forall_mem_nil _, List.forall_mem_nil _⟩
  obtain ⟨left, first⟩ := receive_brings handle.fired start
  exact run_invariant (I := fun w => ∃ left, Brings bytes ended w.calls w.sock left)
    (fun _ _ _ ⟨_, brought⟩ one => receive_brings one brought) handle.rest ⟨left, first⟩

/-- A handle that runs to its end delivers what waited, and reports the end of the stream
if that is behind it. -/
theorem readRun_delivers {s b t : Reader σ} {env : Env} {more : List (Act × Env)}
    (plain : s.cfg.tr.state.tlsConn = none) (handle : ReadRun R s env b more t)
    (buffers : ∀ a ∈ more, NonEmpty a) {bytes : Bytes} {ended : Bool}
    (waits : Waiting s.sock bytes ended) :
    (heardSince s.cfg t.cfg).flatMap Callback.payload = bytes ∧
      (.eofReceived ∈ heardSince s.cfg t.cfg ↔ ended = true) := by
  have complete := (readRun_midway plain handle buffers).complete handle.ended
  obtain ⟨left, brought⟩ := readRun_brings handle waits
  have whole : left = [] → (heardSince s.cfg t.cfg).flatMap Callback.payload = bytes := by
    rintro rfl
    rw [complete.delivered, ← brought.whole, List.append_nil]
  by_cases reported : .eofReceived ∈ heardSince s.cfg t.cfg
  · obtain ⟨call, member, zero⟩ := complete.eof.mp reported
    obtain ⟨none, behind⟩ := brought.ends call member zero
    exact ⟨whole none, iff_of_true reported behind⟩
  · obtain ⟨call, last, stop⟩ := complete.drained reported
    obtain ⟨none, running⟩ := brought.refused call (List.mem_of_getLast? last) stop
    refine ⟨whole none, iff_of_false reported ?_⟩
    rw [running]
    exact Bool.false_ne_true

/-- A run of the read handle is complete. Another one, of whatever kind of protocol and
with whatever buffers, that finds the same bytes in its socket delivers the same. -/
theorem plain_receive (R : Rustls σ) {s b t : Reader σ} {env : Env} {more : List (Act × Env)}
    (plain : s.cfg.tr.state.tlsConn = none) (handle : ReadRun R s env b more t)
    (buffers : ∀ a ∈ more, NonEmpty a) : Complete s t ∧
    ∀ {s' b' t' : Reader σ} {env' : Env} {more' : List (Act × Env)} {bytes : Bytes} {ended : Bool},
      s'.cfg.tr.state.tlsConn = none → ReadRun R s' env' b' more' t' → (∀ a ∈ more', NonEmpty a) →
      Waiting s.sock bytes ended → Waiting s'.sock bytes ended →
        (heardSince s'.cfg t'.cfg).flatMap Callback.payload = (heardSince s.cfg t.cfg).flatMap
        Callback.payload ∧
          (.eofReceived ∈ heardSince s'.cfg t'.cfg ↔ .eofReceived ∈ heardSince s.cfg t.cfg) := by
  refine ⟨(readRun_midway plain handle buffers).complete handle.ended, ?_⟩
  intro s' b' t' env' more' bytes ended plain' handle' buffers' waits waits'
  obtain ⟨all, eof⟩ := readRun_delivers plain handle buffers waits
  obtain ⟨all', eof'⟩ := readRun_delivers plain' handle' buffers' waits'
  exact ⟨all'.trans all.symm, eof'.trans eof.symm⟩

/-- A readable event of an accepted connection. -/
def arrived (protoBuffered : Bool) (sock : List ReadResult) : Reader Empty :=
  ⟨{ accepted 3 none protoBuffered 1000 with
      tables := ⟨some (.only .readable), true, true, false, some .readable⟩ },
    sock, []⟩

def returned : Act × Env := (.ret .falsy, ⟨[], [], 0⟩)

def bufferReturned (size : Nat) : Act × Env := (.ret (.buffer size), ⟨[], [], 0⟩)

/-- Three bytes in two segments with the end of the stream behind them, and the same bytes
through buffers of two. -/
theorem plain_receive_both : ∃ b t b' t' : Reader Empty,
    ReadRun noTls (arrived false [.data [1, 2], .interrupted, .data [3], .eof]) ⟨[], [], 0⟩ b
      [returned, returned, returned] t ∧
    ReadRun noTls (arrived true [.data [1, 2, 3], .eof]) ⟨[], [], 0⟩ b'
      [bufferReturned 2, returned, bufferReturned 2, returned, returned, returned] t' ∧
    (heardSince (arrived true [.data [1, 2, 3], .eof]).cfg t'.cfg).flatMap Callback.payload = [1, 2,
      3] := by
  have direct : ∃ b t : Reader Empty,
      ReadRun noTls (arrived false [.data [1, 2], .interrupted, .data [3], .eof]) ⟨[], [], 0⟩ b
          [returned, returned, returned] t ∧
        bytesOf t.calls = [1, 2, 3] :=
    ⟨_, _, ⟨rfl, rfl, rfl, rfl, rfl, by decide, rfl, rfl⟩, rfl⟩
  have buffered : ∃ b t : Reader Empty, ReadRun noTls (arrived true [.data [1, 2, 3], .eof])
    ⟨[], [], 0⟩ b
      [bufferReturned 2, returned, bufferReturned 2, returned, returned, returned] t :=
    ⟨_, _, rfl, rfl, rfl, rfl, rfl, by decide, rfl, rfl⟩
  obtain ⟨b, t, handle, all⟩ := direct
  obtain ⟨b', t', handle'⟩ := buffered
  obtain ⟨complete, same⟩ := plain_receive noTls rfl handle (by simp [returned, NonEmpty])
  have waits : Waiting (arrived false [.data [1, 2], .interrupted, .data [3], .eof]).sock
      [1, 2, 3] true :=
    .data (List.cons_ne_nil _ _) (.interrupted (.data (List.cons_ne_nil _ _) (.eof [])))
  have waits' : Waiting (arrived true [.data [1, 2, 3], .eof]).sock [1, 2, 3] true :=
    .data (List.cons_ne_nil _ _) (.eof [])
  refine ⟨b, t, b', t', handle, handle', ?_⟩
  rw [(same rfl handle' (by simp [returned, bufferReturned, NonEmpty]) waits waits').1,
    complete.delivered, all]

end TokioLoop.Tcp
