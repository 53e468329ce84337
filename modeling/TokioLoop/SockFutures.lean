import TokioLoop.IoDispatch
import TokioLoop.Lib.Numbered
import TokioLoop.SockSendall

/-!
`sock_recv`, `sock_recv_into`, `sock_accept`, `sock_connect` and the future of
`sock_sendall` on RLoop: a callback in `handles_io` under the number that the socket had
when the operation was started, and a future that the callback resolves. Sockets are
opened and closed and futures cancelled at any point, also while a batch of callbacks is
being worked off; nobody else puts entries into the table.

The poller may report more than there is, which a callback answers with `BlockingIOError`,
and a notification of the loop's waker is taken for one of descriptor 0.
-/
namespace TokioLoop.SockFutures

open Runs Numbered Io
open Tcp (Dir)
open SockSendall (Exn badFd)

inductive Kind where
  | recv
  | recvInto
  | accept
  | connect
  | sendall
  deriving DecidableEq, Repr

/-- `add_reader` or `add_writer`. -/
def Kind.dir : Kind → Dir
  | .recv | .recvInto | .accept => .readable
  | .connect | .sendall => .writable

/-- The end of the call of `connect` or `send` that stands before the future. -/
inductive Attempt where
  | done
  | blocks
  | failed
  deriving DecidableEq, Repr

/-- What a callback gets from its socket: its result, `BlockingIOError` or
`InterruptedError` or a `send` that left data, `SystemExit` or `KeyboardInterrupt`, or
another exception. -/
inductive Answer (V : Type) where
  | value (v : V)
  | again
  | exits
  | failed (exc : Exn)
  deriving DecidableEq, Repr

inductive Future (V : Type) where
  | pending
  | result (v : V)
  | exception (exc : Exn)
  | cancelled
  deriving DecidableEq, Repr

/-- An operation that got its future; `fd` is the number its callback was added under. -/
structure Op (V : Type) where
  kind : Kind
  sock : Nat
  fd : Nat
  future : Future V
  deriving DecidableEq, Repr

/-- `fileno` is that of a socket, `none` for `-1`, and `opened` counts the sockets. `batch`
are the callbacks of the last poll that have not run, and `read` what callbacks got from
their sockets. -/
structure Loop (V : Type) where
  fileno : Nat → Option Nat
  opened : Nat
  ops : List (Op V)
  table : Table Nat
  batch : List Nat
  read : List (Nat × V)
  panicked : Bool

variable {V : Type}

def initial : Loop V where
  fileno := fun _ => none
  opened := 0
  ops := []
  table := .empty
  batch := []
  read := []
  panicked := false

/-- A call of the registry, or the panic inside it. -/
def Loop.call (s : Loop V) (c : Call Nat) : Loop V :=
  match Io.step s.table c with
  | some table => { s with table }
  | none => { s with panicked := true }

def addCall (kind : Kind) (fd i : Nat) : Call Nat :=
  match kind.dir with
  | .readable => .addReader fd i
  | .writable => .addWriter fd i

def removeCall (kind : Kind) (fd : Nat) : Call Nat :=
  match kind.dir with
  | .readable => .removeReader fd
  | .writable => .removeWriter fd

/-- A future with its callback, unless `_ensure_fd_no_transport` raises: for a transport
that is `bound`, and for `-1`, which is no `usize`. -/
def Loop.addFuture (s : Loop V) (kind : Kind) (sock : Nat) (bound : Bool) : Loop V :=
  match s.fileno sock with
  | none => s
  | some fd =>
      if bound then s
      else Loop.call { s with ops := s.ops ++ [⟨kind, sock, fd, .pending⟩] }
        (addCall kind fd s.ops.length)

def Loop.sockRecv (s : Loop V) (sock : Nat) (bound : Bool) : Loop V := s.addFuture .recv sock bound

def Loop.sockRecvInto (s : Loop V) (sock : Nat) (bound : Bool) : Loop V :=
  s.addFuture .recvInto sock bound

def Loop.sockAccept (s : Loop V) (sock : Nat) (bound : Bool) : Loop V :=
  s.addFuture .accept sock bound

def Loop.sockConnect (s : Loop V) (sock : Nat) (bound : Bool) : Attempt → Loop V
  | .blocks => s.addFuture .connect sock bound
  | .done | .failed => s

def Loop.sockSendall (s : Loop V) (sock : Nat) (bound : Bool) : Attempt → Loop V
  | .blocks => s.addFuture .sendall sock bound
  | .done | .failed => s

/-- `attempt` plays a part for `connect` and `sendall` only. -/
def Loop.start (s : Loop V) (sock : Nat) (bound : Bool) (attempt : Attempt) : Kind → Loop V
  | .recv => s.sockRecv sock bound
  | .recvInto => s.sockRecvInto sock bound
  | .accept => s.sockAccept sock bound
  | .connect => s.sockConnect sock bound attempt
  | .sendall => s.sockSendall sock bound attempt

/-- `remove_reader(sock.fileno())` or `remove_writer(sock.fileno())`, which raises for `-1`. -/
def Loop.remove (s : Loop V) (op : Op V) : Loop V :=
  match s.fileno op.sock with
  | none => s
  | some fd => s.call (removeCall op.kind fd)

/-- `set_result` or `set_exception`, which raises on a future that is done, and behind it
the removal. -/
def Loop.resolve (s : Loop V) (i : Nat) (op : Op V) (future : Future V) : Loop V :=
  match op.future with
  | .pending => Loop.remove { s with ops := s.ops.set i { op with future } } op
  | .result _ | .exception _ | .cancelled => s

/-- What the socket answers, where the system would answer `r`. -/
def Loop.answer (s : Loop V) (op : Op V) (r : Answer V) : Answer V :=
  match s.fileno op.sock with
  | none => .failed badFd
  | some _ => r

/-- `_sock_recv`, `_sock_recv_into`, `_sock_accept`, `_sock_connect_cb`, `_sock_sendall` -/
def Loop.callback (s : Loop V) (i : Nat) (op : Op V) (r : Answer V) : Loop V :=
  match s.answer op r with
  | .again | .exits => s
  | .failed exc => s.resolve i op (.exception exc)
  | .value v => Loop.resolve { s with read := s.read ++ [(i, v)] } i op (.result v)

/-- `cancel` of the future. While the socket is open it goes to `remove_reader` or
`remove_writer` with the socket in place of its number, which raises. -/
def Loop.cancel (s : Loop V) (i : Nat) (op : Op V) : Loop V :=
  match s.fileno op.sock, op.future with
  | some _, _ => s
  | none, .pending => { s with ops := s.ops.set i { op with future := .cancelled } }
  | none, .result _ | none, .exception _ | none, .cancelled => s

def Loop.handles (s : Loop V) (e : Dispatch.Event) : List Nat :=
  match s.table.handlesIo e.source.token with
  | some (.py data) => Dispatch.handleIoPy data e.readable e.writable
  | _ => []

inductive Action (V : Type) where
  | socket (fd : Nat)
  | close (sock : Nat)
  | start (kind : Kind) (sock : Nat) (bound : Bool) (attempt : Attempt)
  | cancel (i : Nat)
  | poll (events : List Dispatch.Event)
  | run (r : Answer V)
  deriving DecidableEq

def Loop.step (s : Loop V) : Action V → Option (Loop V)
  | .socket fd =>
      if ∃ i < s.opened, s.fileno i = some fd then none
      else some { s with fileno := Function.update s.fileno s.opened (some fd), opened :=
        s.opened + 1 }
  | .close sock => some { s with fileno := Function.update s.fileno sock none }
  | .start kind sock bound attempt => some (s.start sock bound attempt kind)
  | .cancel i => (s.ops[i]?).map (s.cancel i)
  | .poll events =>
      if s.batch = [] ∧ (events.map Dispatch.Event.source).Nodup
        then some { s with batch := events.flatMap s.handles } else none
  | .run r =>
      match s.batch with
      | [] => none
      | i :: batch => (s.ops[i]?).map fun op => Loop.callback { s with batch } i op r

/-- The kernel gives a new socket a number that no open one has, and reports a source once
in a poll. A panic is the end of the process. -/
def step (s : Loop V) (a : Action V) : Option (Loop V) := if s.panicked then none else s.step a

/-- The loop is there, every pending operation has its callback in the table under the
number of its open socket, and nothing else is in the table. -/
structure Loop.Registered (s : Loop V) : Prop where
  running : s.panicked = false
  pending : ∀ (i : Nat) op, s.ops[i]? = some op → op.future = .pending →
    s.fileno op.sock = some op.fd ∧ s.table.slots op.fd op.kind.dir = some i
  slots : ∀ (i : Nat) op fd d, s.table.slots fd d = some i → s.ops[i]? = some op →
      op.future = .pending

/-- What callbacks read is what futures gave, once each, and the future of an open socket
is never cancelled. -/
structure Loop.Delivered (s : Loop V) : Prop where
  once : (s.read.map Prod.fst).Nodup
  result : ∀ i v, (i, v) ∈ s.read ↔ ∃ op, s.ops[i]? = some op ∧ op.future = .result v
  cancelled : ∀ (i : Nat) op, s.ops[i]? = some op → op.future = .cancelled → s.fileno op.sock = none

/-- No pending operation on the socket is of one of the kinds. -/
def Loop.Idle (s : Loop V) (sock : Nat) (kinds : Kind → Bool) : Prop :=
  ∀ op ∈ s.ops, op.sock = sock → kinds op.kind = true → op.future ≠ .pending

instance [DecidableEq V] (s : Loop V) (sock : Nat) (kinds : Kind → Bool) :
    Decidable (s.Idle sock kinds) :=
  inferInstanceAs (Decidable (∀ op ∈ s.ops, _))

/-- The call gets as far as its future. -/
def Loop.starts (s : Loop V) (kind : Kind) (sock : Nat) (bound : Bool) (attempt : Attempt) : Bool :=
  (s.fileno sock).isSome && !bound && (kind.dir == .readable || attempt == .blocks)

/-- One operation for each direction of a socket, and none on a socket that is closed. -/
def Exclusive (s : Loop V) : Action V → Prop
  | .start kind sock bound attempt =>
      s.starts kind sock bound attempt = true → s.Idle sock fun other => other.dir == kind.dir
  | .close sock => s.Idle sock fun _ => true
  | .socket _ | .cancel _ | .poll _ | .run _ => True

instance [DecidableEq V] (s : Loop V) (a : Action V) : Decidable (Exclusive s a) := by
  cases a <;> unfold Exclusive <;> infer_instance

/-- No poll reports the waker next to descriptor 0 with a readiness for which a callback
waits there. -/
def Apart (s : Loop V) : Action V → Prop
  | .poll events => ∀ e ∈ events, ∀ e' ∈ events, e.source = .waker → e'.source = .fd 0 →
      ∀ d, e.has d = true → e'.has d = true → s.table.slots 0 d = none
  | .socket _ | .close _ | .start _ _ _ _ | .cancel _ | .run _ => True

variable {s t : Loop V} {kind : Kind} {op : Op V} {tab u : Table Nat} {c : Call Nat}
  {fd i sock : Nat} {f : Future V} {actions : List (Action V)}

theorem addCall_eq (kind : Kind) (fd i : Nat) : (addCall kind fd i).puts = some i ∧
    (addCall kind fd i).fd = fd ∧ (addCall kind fd i).dir = kind.dir := by
  cases kind <;> exact ⟨rfl, rfl, rfl⟩

theorem removeCall_eq (kind : Kind) (fd : Nat) : (removeCall kind fd).puts = none ∧
    (removeCall kind fd).fd = fd ∧ (removeCall kind fd).dir = kind.dir := by
  cases kind <;> exact ⟨rfl, rfl, rfl⟩

/-- The entries of the table are the callbacks of operations. -/
structure Own (tab : Table Nat) : Prop where
  matched : tab.Matches
  own : ∀ fd entry, tab.handlesIo fd = some entry → ∃ data, entry = .py data

theorem own_set {entry : Option (IOHandle Nat)} {interest : Option Tcp.Interest}
    (h : ∀ fd entry, tab.handlesIo fd = some entry → ∃ data, entry = .py data)
    (new : ∀ e, entry = some e → ∃ data, e = .py data) (gd : Nat) (e : IOHandle Nat)
    (there : (tab.set fd entry interest).handlesIo gd = some e) : ∃ data, e = .py data := by
  rw [handlesIo_set] at there
  by_cases same : gd = fd
  · rw [if_pos same] at there
    exact new e there
  · rw [if_neg same] at there
    exact h gd e there

theorem call_own (h : Own tab) (returns : Io.step tab c = some u) : Own u ∧
    u.slots = (c.spec tab.slots).1 := by
  obtain ⟨r, executed⟩ := step_executed returns
  refine ⟨⟨executed_matches executed h.matched, ?_⟩, executed_slots executed h.matched⟩
  cases executed with
  | insert | replace | keep => exact own_set h.own fun e same => ⟨_, (Option.some.inj same).symm⟩
  | absent => exact h.own
  | drop => exact own_set h.own fun e same => by cases same

/-- An entry has a callback in one of the two directions. -/
theorem slot_of_entry {data : PyHandleData Nat} (h : data.Matches) (d : Dir) :
    (data.slot d).isSome = true ∨ (data.slot (other d)).isSome = true := by
  cases hd : data.interest.has (other d) with
  | true => exact .inr ((h _).mp hd)
  | false =>
      have only := (eq_only_iff d data.interest).mpr hd
      exact .inl ((h d).mp (by rw [only, has_only, decide_eq_true rfl]))

theorem remove_returns (h : Own tab) (kind : Kind) (fd : Nat) :
    ∃ u, Io.step tab (removeCall kind fd) = some u := by
  obtain ⟨puts, here, dir⟩ := removeCall_eq kind fd
  unfold Io.step
  rw [exec_eq, puts, here, dir]
  cases he : tab.handlesIo fd with
  | none => simp [removeIo, he]
  | some entry =>
      obtain ⟨data, rfl⟩ := h.own fd entry he
      by_cases alone : data.interest = .only kind.dir
      · simp [removeIo, he, alone]
      · have more := Bool.eq_true_of_not_eq_false fun no => alone ((eq_only_iff _ _).mpr no)
        obtain ⟨kept, hk⟩ := Option.isSome_iff_exists.mp ((h.matched fd data he _).mp more)
        simp [removeIo, he, alone, hk]

theorem add_returns (h : Own tab) (free : tab.slots fd kind.dir = none) :
    ∃ u, Io.step tab (addCall kind fd i) = some u := by
  obtain ⟨puts, here, dir⟩ := addCall_eq kind fd i
  unfold Io.step
  rw [exec_eq, puts, here, dir]
  cases he : tab.handlesIo fd with
  | none => simp [addIo, he]
  | some entry =>
      obtain ⟨data, rfl⟩ := h.own fd entry he
      rw [slots_of_entry he] at free
      rcases slot_of_entry (h.matched fd data he) kind.dir with mine | theirs
      · rw [free] at mine
        cases mine
      · obtain ⟨kept, hk⟩ := Option.isSome_iff_exists.mp theirs
        simp [addIo, he, hk]

/-- The operation waits, or its socket is closed. -/
def Loop.Live (s : Loop V) (op : Op V) : Prop := op.future = .pending ∨ s.fileno op.sock = none

/-- What holds of every run. A callback in the table can be one of a future that is done
only behind a closed socket. -/
structure Loop.Placed (s : Loop V) : Prop where
  distinct : ∀ i j fd, s.fileno i = some fd → s.fileno j = some fd → i = j
  opened : ∀ i fd, s.fileno i = some fd → i < s.opened
  table : Own s.table
  ops : ∀ (i : Nat) op, s.ops[i]? = some op →
    op.sock < s.opened ∧ (s.fileno op.sock = some op.fd ∨ s.fileno op.sock = none)
  slots : ∀ fd d (i : Nat), s.table.slots fd d = some i →
    ∃ op, s.ops[i]? = some op ∧ op.fd = fd ∧ op.kind.dir = d ∧ s.Live op

/-- What holds of a run in which the waker is told apart. A callback is in the batch once, and
it is one of a future that is done only behind a closed socket, from which nothing is read. -/
structure Loop.Sound (s : Loop V) : Prop extends s.Placed where
  batch : s.batch.Nodup
  live : ∀ i ∈ s.batch, ∃ op, s.ops[i]? = some op ∧ s.Live op
  delivered : s.Delivered

theorem initial_placed : (initial : Loop V).Placed where
  distinct := fun i j fd here => by cases here
  opened := fun i fd here => by cases here
  table := ⟨empty_matches, fun fd entry there => by cases there⟩
  ops := fun i op there => by cases there
  slots := fun fd d i there => by cases there

theorem initial_sound : (initial : Loop V).Sound where
  toPlaced := initial_placed
  batch := List.nodup_nil
  live := fun i there => by cases there
  delivered := by
    refine ⟨List.nodup_nil, fun i v => iff_of_false List.not_mem_nil ?_, fun i op there =>
      by cases there⟩
    rintro ⟨op, there, -⟩
    cases there

theorem Loop.Placed.congr (h : s.Placed) (fileno : t.fileno = s.fileno)
    (opened : t.opened = s.opened) (ops : t.ops = s.ops) (table : t.table = s.table) :
    t.Placed := by
  constructor
  · rw [fileno]
    exact h.distinct
  · rw [fileno, opened]
    exact h.opened
  · rw [table]
    exact h.table
  · rw [ops, opened, fileno]
    exact h.ops
  · unfold Loop.Live
    rw [table, ops, fileno]
    exact h.slots

/-- The removal behind a future clears the one slot of the operation. -/
theorem remove_eq (sound : Own s.table) (live : s.fileno op.sock = some op.fd) :
    ∃ u, s.remove op = { s with table := u } ∧ Own u ∧
      ∀ fd d, u.slots fd d = if fd = op.fd ∧ d = op.kind.dir then none else s.table.slots fd d := by
  obtain ⟨u, returns⟩ := remove_returns sound op.kind op.fd
  obtain ⟨own, slots⟩ := call_own sound returns
  obtain ⟨puts, here, dir⟩ := removeCall_eq op.kind op.fd
  refine ⟨u, by simp [Loop.remove, live, Loop.call, returns], own, fun gd d => ?_⟩
  rw [slots, Call.spec, puts, here, dir]

theorem remove_closed (closed : s.fileno op.sock = none) : s.remove op = s := by
  simp [Loop.remove, closed]

theorem Loop.Delivered.congr (h : s.Delivered) (fileno : t.fileno = s.fileno) (ops : t.ops = s.ops)
    (read : t.read = s.read) : t.Delivered := by
  constructor
  · rw [read]
    exact h.once
  · rw [read, ops]
    exact h.result
  · rw [fileno, ops]
    exact h.cancelled

/-- What is still known of an operation when another one, or its own behind a closed
socket, gets its outcome. -/
theorem settle_kept {other : Op V} {j : Nat} (there : s.ops[i]? = some op)
    (found : s.ops[j]? = some other) (live : s.Live other)
    (apart : j ≠ i ∨ s.fileno op.sock = none) :
    ∃ now, (s.ops.set i { op with future := f })[j]? = some now ∧ now.fd = other.fd ∧
      now.kind.dir = other.kind.dir ∧ s.Live now := by
  by_cases same : j = i
  · subst same
    have closed := apart.resolve_left fun no => no rfl
    cases there.symm.trans found
    exact ⟨_, (look_set there).mpr (.inl ⟨rfl, rfl⟩), rfl, rfl, .inr closed⟩
  · exact ⟨other, (look_set there).mpr (.inr ⟨same, found⟩), rfl, rfl, live⟩

/-- A pending operation gets its outcome, with the removal behind it. -/
theorem settle_placed {read : List (Nat × V)} (placed : s.Placed) (there : s.ops[i]? = some op) :
    (Loop.remove { s with ops := s.ops.set i { op with future := f }, read } op).Placed := by
  have ops : ∀ (j : Nat) now, (s.ops.set i { op with future := f })[j]? = some now →
      now.sock < s.opened ∧ (s.fileno now.sock = some now.fd ∨ s.fileno now.sock = none) := by
    intro j now found
    rcases (look_set there).mp found with ⟨-, rfl⟩ | ⟨-, found⟩
    · exact placed.ops i op there
    · exact placed.ops j now found
  rcases (placed.ops i op there).2 with present | closed
  · obtain ⟨u, same, own, slots⟩ := remove_eq
      (s := { s with ops := s.ops.set i { op with future := f }, read }) placed.table present
    rw [same]
    refine ⟨placed.distinct, placed.opened, own, ops, fun gd d j found => ?_⟩
    rw [slots] at found
    split at found
    · cases found
    · next apart =>
        obtain ⟨other, old, rfl, rfl, live⟩ := placed.slots gd d j found
        refine settle_kept there old live (.inl ?_)
        rintro rfl
        cases there.symm.trans old
        exact apart ⟨rfl, rfl⟩
  · rw [remove_closed (s := { s with ops := s.ops.set i { op with future := f }, read }) closed]
    refine ⟨placed.distinct, placed.opened, placed.table, ops, fun gd d j found => ?_⟩
    obtain ⟨other, old, rfl, rfl, live⟩ := placed.slots gd d j found
    exact settle_kept there old live (.inr closed)

/-- The removal is about the table alone. -/
theorem remove_rest (s : Loop V) (op : Op V) : (s.remove op).fileno = s.fileno ∧
    (s.remove op).ops = s.ops ∧ (s.remove op).read = s.read ∧ (s.remove op).batch = s.batch := by
  unfold Loop.remove Loop.call
  split
  · exact ⟨rfl, rfl, rfl, rfl⟩
  · split <;> exact ⟨rfl, rfl, rfl, rfl⟩

theorem settle_sound {read : List (Nat × V)} (sound : s.Sound) (there : s.ops[i]? = some op)
    (out : i ∉ s.batch ∨ s.fileno op.sock = none)
    (delivered : Loop.Delivered { s with ops := s.ops.set i { op with future := f }, read }) :
    (Loop.remove { s with ops := s.ops.set i { op with future := f }, read } op).Sound := by
  obtain ⟨fileno, ops, reads, batch⟩ :=
    remove_rest { s with ops := s.ops.set i { op with future := f }, read } op
  refine ⟨settle_placed sound.toPlaced there, ?_, ?_, delivered.congr fileno ops reads⟩
  · rw [batch]
    exact sound.batch
  · unfold Loop.Live
    rw [batch, ops, fileno]
    intro j inside
    obtain ⟨other, found, live⟩ := sound.live j inside
    have apart : j ≠ i ∨ s.fileno op.sock = none := by
      rcases out with out | closed
      · exact .inl fun same => out (same ▸ inside)
      · exact .inr closed
    obtain ⟨now, found, -, -, live⟩ := settle_kept (f := f) there found live apart
    exact ⟨now, found, live⟩

/-- An outcome other than a result leaves the results as they are. -/
theorem settle_delivered (h : s.Delivered) (there : s.ops[i]? = some op)
    (pending : op.future = .pending) (other : ∀ v, f ≠ .result v)
    (closed : f = .cancelled → s.fileno op.sock = none) : Loop.Delivered
    { s with ops := s.ops.set i { op with future := f } } where
  once := h.once
  result := by
    intro j v
    refine (h.result j v).trans ?_
    constructor
    · rintro ⟨found, look, result⟩
      refine ⟨found, (look_set there).mpr (.inr ⟨?_, look⟩), result⟩
      rintro rfl
      cases there.symm.trans look
      cases pending.symm.trans result
    · rintro ⟨found, look, result⟩
      rcases (look_set there).mp look with ⟨-, rfl⟩ | ⟨-, look⟩
      · exact absurd result (other v)
      · exact ⟨found, look, result⟩
  cancelled := by
    intro j found look cancelled
    rcases (look_set there).mp look with ⟨-, rfl⟩ | ⟨-, look⟩
    · exact closed cancelled
    · exact h.cancelled j found look cancelled

theorem read_delivered {v : V} (h : s.Delivered) (there : s.ops[i]? = some op)
    (pending : op.future = .pending) : Loop.Delivered
    { s with ops := s.ops.set i { op with future := .result v }, read := s.read ++ [(i, v)] } where
  once := by
    rw [List.map_append, List.map_singleton]
    refine List.nodup_append_comm.mp (List.nodup_cons.mpr ⟨fun before => ?_, h.once⟩)
    obtain ⟨⟨j, w⟩, inside, rfl⟩ := List.mem_map.mp before
    obtain ⟨found, look, result⟩ := (h.result j w).mp inside
    cases there.symm.trans look
    cases pending.symm.trans result
  result := by
    intro j w
    rw [List.mem_append, List.mem_singleton, Prod.mk.injEq]
    constructor
    · rintro (inside | ⟨rfl, rfl⟩)
      · obtain ⟨found, look, result⟩ := (h.result j w).mp inside
        refine ⟨found, (look_set there).mpr (.inr ⟨?_, look⟩), result⟩
        rintro rfl
        cases there.symm.trans look
        cases pending.symm.trans result
      · exact ⟨_, (look_set there).mpr (.inl ⟨rfl, rfl⟩), rfl⟩
    · rintro ⟨found, look, result⟩
      rcases (look_set there).mp look with ⟨rfl, rfl⟩ | ⟨-, look⟩
      · cases result
        exact .inr ⟨rfl, rfl⟩
      · exact .inl ((h.result j w).mpr ⟨found, look, result⟩)
  cancelled := by
    intro j found look cancelled
    rcases (look_set there).mp look with ⟨-, rfl⟩ | ⟨-, look⟩
    · cases cancelled
    · exact h.cancelled j found look cancelled

/-- A start either ends before its future or adds it with its callback. -/
theorem start_cases (s : Loop V) (kind : Kind) (sock : Nat) (bound : Bool) (attempt : Attempt) :
    s.starts kind sock bound attempt = false ∧ s.start sock bound attempt kind = s ∨
      s.starts kind sock bound attempt = true ∧ ∃ fd, s.fileno sock = some fd ∧
        s.start sock bound attempt kind =
          Loop.call { s with ops := s.ops ++ [⟨kind, sock, fd, .pending⟩] }
          (addCall kind fd s.ops.length) := by
  have add : s.start sock bound attempt kind =
      if kind.dir == .readable || attempt == .blocks then s.addFuture kind sock bound else s := by
    cases kind <;> cases attempt <;> rfl
  rw [add]
  unfold Loop.starts Loop.addFuture
  cases s.fileno sock with
  | none => simp
  | some fd =>
      cases bound with
      | true => simp
      | false =>
          cases kind.dir == .readable || attempt == .blocks with
          | false => simp
          | true => simp

/-- The registry takes the callback, or panics over one that is there. -/
theorem add_cases (own : Own s.table) (kind : Kind) (fd i : Nat) :
    (∃ u, s.call (addCall kind fd i) = { s with table := u } ∧ Own u ∧
      ∀ gd d, u.slots gd d = if gd = fd ∧ d = kind.dir then some i else s.table.slots gd d) ∨
    s.table.slots fd kind.dir ≠ none ∧
    s.call (addCall kind fd i) = { s with panicked := true } := by
  cases h : Io.step s.table (addCall kind fd i) with
  | some u =>
      obtain ⟨after, slots⟩ := call_own own h
      obtain ⟨puts, here, dir⟩ := addCall_eq kind fd i
      refine .inl ⟨u, by simp [Loop.call, h], after, fun gd d => ?_⟩
      rw [slots, Call.spec, puts, here, dir]
  | none =>
      refine .inr ⟨fun free => ?_, by simp [Loop.call, h]⟩
      obtain ⟨u, returns⟩ := add_returns (i := i) own free
      cases h.symm.trans returns

/-- A new operation with its callback in the table `u`. -/
theorem added_placed (placed : s.Placed) (live : s.fileno sock = some fd) (own : Own u)
    (slots : ∀ gd d (j : Nat), u.slots gd d = some j →
      gd = fd ∧ d = kind.dir ∧ j = s.ops.length ∨ s.table.slots gd d = some j) (panicked : Bool) :
    Loop.Placed { s with ops := s.ops ++ [⟨kind, sock, fd, .pending⟩], table := u, panicked } where
  distinct := placed.distinct
  opened := placed.opened
  table := own
  ops := by
    intro j op there
    rcases look_concat.mp there with old | ⟨-, rfl⟩
    · exact placed.ops j op old
    · exact ⟨placed.opened sock fd live, .inl live⟩
  slots := by
    intro gd d j there
    rcases slots gd d j there with ⟨rfl, rfl, rfl⟩ | there
    · exact ⟨_, look_concat.mpr (.inr ⟨rfl, rfl⟩), rfl, rfl, .inl rfl⟩
    · obtain ⟨op, old, fd, dir, live⟩ := placed.slots gd d j there
      exact ⟨op, look_concat.mpr (.inl old), fd, dir, live⟩

/-- A new operation waits, whatever the table is. -/
theorem added_delivered (h : s.Delivered) (table : Table Nat) (panicked : Bool) :
    Loop.Delivered { s with ops := s.ops ++ [⟨kind, sock, fd, .pending⟩], table, panicked } := by
  refine ⟨h.once, fun j v => (h.result j v).trans ?_, fun j op there cancelled => ?_⟩
  · constructor
    · rintro ⟨op, old, result⟩
      exact ⟨op, look_concat.mpr (.inl old), result⟩
    · rintro ⟨op, there, result⟩
      rcases look_concat.mp there with old | ⟨-, rfl⟩
      · exact ⟨op, old, result⟩
      · cases result
  · rcases look_concat.mp there with old | ⟨-, rfl⟩
    · exact h.cancelled j op old cancelled
    · cases cancelled

/-- A start adds an operation, with a table that has its callback or no such table. -/
theorem start_added (placed : s.Placed) (kind : Kind) (sock : Nat) (bound : Bool)
    (attempt : Attempt) : s.start sock bound attempt kind = s ∨
    ∃ fd u panicked, s.fileno sock = some fd ∧ Own u ∧
      s.start sock bound attempt kind =
        { s with ops := s.ops ++ [⟨kind, sock, fd, .pending⟩], table := u, panicked } ∧
      ∀ gd d (j : Nat), u.slots gd d = some j →
        gd = fd ∧ d = kind.dir ∧ j = s.ops.length ∨ s.table.slots gd d = some j := by
  rcases start_cases s kind sock bound attempt with ⟨-, same⟩ | ⟨-, fd, live, same⟩
  · exact .inl same
  · right
    rw [same]
    rcases add_cases (s := { s with ops := s.ops ++ [⟨kind, sock, fd, .pending⟩] }) placed.table
      kind fd s.ops.length with ⟨u, same, own, slots⟩ | ⟨-, same⟩
    · refine ⟨fd, u, s.panicked, live, own, same, fun gd d j there => ?_⟩
      rw [slots] at there
      split at there
      · next here => exact .inl ⟨here.1, here.2, (Option.some.inj there).symm⟩
      · exact .inr there
    · exact ⟨fd, s.table, true, live, placed.table, same, fun gd d j there => .inr there⟩

theorem start_placed (placed : s.Placed) (kind : Kind) (sock : Nat) (bound : Bool)
    (attempt : Attempt) : (s.start sock bound attempt kind).Placed := by
  rcases start_added placed kind sock bound attempt with
    same | ⟨fd, u, panicked, live, own, same, slots⟩
  · rw [same]
    exact placed
  · rw [same]
    exact added_placed placed live own slots panicked

theorem start_sound (sound : s.Sound) (kind : Kind) (sock : Nat) (bound : Bool)
    (attempt : Attempt) : (s.start sock bound attempt kind).Sound := by
  rcases start_added sound.toPlaced kind sock bound attempt with
    same | ⟨fd, u, panicked, live, own, same, slots⟩
  · rw [same]
    exact sound
  · rw [same]
    refine ⟨added_placed sound.toPlaced live own slots panicked, sound.batch, fun j inside => ?_,
      added_delivered sound.delivered u panicked⟩
    obtain ⟨op, old, live⟩ := sound.live j inside
    exact ⟨op, look_concat.mpr (.inl old), live⟩

/-- The outcome of a callback is set on a future that waits, and else lost. -/
theorem callback_placed (placed : s.Placed) (there : s.ops[i]? = some op) (r : Answer V) :
    (s.callback i op r).Placed := by
  unfold Loop.callback
  cases s.answer op r with
  | again | exits => exact placed
  | failed exc =>
      cases pending : op.future with
      | pending =>
          simp only [Loop.resolve, pending]
          exact settle_placed placed there
      | result | exception | cancelled =>
          simp only [Loop.resolve, pending]
          exact placed
  | value v =>
      cases pending : op.future with
      | pending =>
          simp only [Loop.resolve, pending]
          exact settle_placed placed there
      | result | exception | cancelled =>
          simp only [Loop.resolve, pending]
          exact placed.congr rfl rfl rfl rfl

theorem callback_sound (sound : s.Sound) (there : s.ops[i]? = some op) (live : s.Live op)
    (out : i ∉ s.batch) (r : Answer V) : (s.callback i op r).Sound := by
  unfold Loop.callback
  cases answered : s.answer op r with
  | again | exits => exact sound
  | failed exc =>
      cases pending : op.future with
      | pending =>
          simp only [Loop.resolve, pending]
          exact settle_sound sound there (.inl out)
            (settle_delivered sound.delivered there pending (fun v => by simp)
              (fun no => by cases no))
      | result | exception | cancelled =>
          simp only [Loop.resolve, pending]
          exact sound
  | value v =>
      have present : s.fileno op.sock ≠ none := by
        intro closed
        simp [Loop.answer, closed] at answered
      have pending := live.resolve_right present
      simp only [Loop.resolve, pending]
      exact settle_sound sound there (.inl out) (read_delivered sound.delivered there pending)

theorem cancel_placed (placed : s.Placed) (there : s.ops[i]? = some op) :
    (s.cancel i op).Placed := by
  unfold Loop.cancel
  split
  · exact placed
  · next closed pending =>
      have settled : (Loop.remove { s with ops := s.ops.set i { op with future := .cancelled } }
          op).Placed :=
        settle_placed placed there
      rwa [remove_closed (s := { s with ops := s.ops.set i { op with future := .cancelled } })
        closed] at settled
  · exact placed
  · exact placed
  · exact placed

theorem cancel_sound (sound : s.Sound) (there : s.ops[i]? = some op) : (s.cancel i op).Sound := by
  unfold Loop.cancel
  split
  · exact sound
  · next closed pending =>
      have settled := settle_sound (f := .cancelled) sound there (.inr closed)
        (settle_delivered sound.delivered there pending (fun v => by simp) (fun _ => closed))
      rwa [remove_closed (s := { s with ops := s.ops.set i { op with future := .cancelled } })
        closed] at settled
  · exact sound
  · exact sound
  · exact sound

/-- A callback of an event is in a slot of the number that is its token. -/
theorem mem_handles {e : Dispatch.Event} (h : i ∈ s.handles e) :
    ∃ d, e.has d = true ∧ s.table.slots e.source.token d = some i := by
  unfold Loop.handles at h
  split at h
  · next data there =>
      obtain ⟨d, ready, slot⟩ := Dispatch.mem_handleIoPy.mp h
      exact ⟨d, ready, (slots_of_entry there d).trans slot⟩
  · cases h

theorem handles_nodup (placed : s.Placed) (e : Dispatch.Event) : (s.handles e).Nodup := by
  unfold Loop.handles
  split
  · next data there =>
      have apart : data.cbr.toList.Disjoint data.cbw.toList := by
        intro j reader writer
        obtain ⟨op, look, -, dir, -⟩ := placed.slots e.source.token .readable j
          ((slots_of_entry there .readable).trans (Option.mem_toList.mp reader))
        obtain ⟨same, again, -, rid, -⟩ := placed.slots e.source.token .writable j
          ((slots_of_entry there .writable).trans (Option.mem_toList.mp writer))
        cases look.symm.trans again
        cases dir.symm.trans rid
      have single : ∀ o : Option Nat, o.toList.Nodup := by
        intro o
        cases o with
        | none => exact List.nodup_nil
        | some j => exact List.nodup_singleton j
      unfold Dispatch.handleIoPy
      refine List.Nodup.append ?_ ?_ ?_
      · split
        · exact single _
        · exact List.nodup_nil
      · split
        · exact single _
        · exact List.nodup_nil
      · intro j reader writer
        exact apart (List.mem_ite_nil_right.mp reader).2 (List.mem_ite_nil_right.mp writer).2
  · exact List.nodup_nil

/-- Two sources of one token are the waker and descriptor 0. -/
theorem token_twice {x y : Dispatch.Source} (same : x.token = y.token) (apart : x ≠ y) :
    x = .waker ∧ y = .fd 0 ∨ x = .fd 0 ∧ y = .waker := by
  cases x with
  | waker =>
      cases y with
      | waker => exact absurd rfl apart
      | fd n => exact .inl ⟨rfl, congrArg _ same.symm⟩
  | fd m =>
      cases y with
      | waker => exact .inr ⟨congrArg _ same, rfl⟩
      | fd n => exact absurd (congrArg _ same) apart

theorem poll_sound (sound : s.Sound) {events : List Dispatch.Event}
    (once : (events.map Dispatch.Event.source).Nodup) (apart : Apart s (.poll events)) :
    Loop.Sound { s with batch := events.flatMap s.handles } := by
  have distinct : events.Pairwise fun e e' => (s.handles e).Disjoint (s.handles e') := by
    refine (List.pairwise_map.mp once).imp_of_mem ?_
    intro e e' inside inside' other j here there
    obtain ⟨d, ready, slot⟩ := mem_handles here
    obtain ⟨d', ready', slot'⟩ := mem_handles there
    obtain ⟨op, look, fd, rfl, -⟩ := sound.slots e.source.token d j slot
    obtain ⟨same, again, fd', rfl, -⟩ := sound.slots e'.source.token d' j slot'
    cases look.symm.trans again
    rcases token_twice (fd.symm.trans fd') other with ⟨waker, zero⟩ | ⟨zero, waker⟩
    · rw [zero] at slot'
      cases slot'.symm.trans (apart e inside e' inside' waker zero _ ready ready')
    · rw [zero] at slot
      cases slot.symm.trans (apart e' inside' e inside waker zero _ ready' ready)
  refine ⟨sound.toPlaced.congr rfl rfl rfl rfl, ?_, ?_, sound.delivered.congr rfl rfl rfl⟩
  · exact List.nodup_flatMap.mpr ⟨fun e _ => handles_nodup sound.toPlaced e, distinct⟩
  · intro j inside
    obtain ⟨e, -, there⟩ := List.mem_flatMap.mp inside
    obtain ⟨d, -, slot⟩ := mem_handles there
    obtain ⟨op, look, -, -, live⟩ := sound.slots e.source.token d j slot
    exact ⟨op, look, live⟩

theorem fileno_socket {j gd : Nat} : Function.update s.fileno s.opened (some fd) j = some gd ↔
    j = s.opened ∧ fd = gd ∨ j ≠ s.opened ∧ s.fileno j = some gd := by
  rw [Function.update_apply]
  by_cases same : j = s.opened
  · simp [same]
  · simp [same]

/-- The socket of an operation is older than a new one. -/
theorem fileno_new (placed : s.Placed) {j : Nat} (there : s.ops[j]? = some op) :
    Function.update s.fileno s.opened (some fd) op.sock = s.fileno op.sock :=
  Function.update_of_ne (Nat.ne_of_lt (placed.ops j op there).1) _ _

theorem socket_placed (placed : s.Placed) (free : ¬ ∃ i < s.opened, s.fileno i = some fd) :
    Loop.Placed { s with fileno := Function.update s.fileno s.opened (some fd), opened :=
      s.opened + 1 } := by
  have apart : ∀ i, s.fileno i ≠ some fd := fun i there => free ⟨i, placed.opened i fd there, there⟩
  constructor
  · intro i j gd here there
    rcases fileno_socket.mp here with ⟨rfl, rfl⟩ | ⟨-, here⟩
    · rcases fileno_socket.mp there with ⟨rfl, -⟩ | ⟨-, there⟩
      · rfl
      · exact absurd there (apart j)
    · rcases fileno_socket.mp there with ⟨-, rfl⟩ | ⟨-, there⟩
      · exact absurd here (apart i)
      · exact placed.distinct i j gd here there
  · intro i gd here
    rcases fileno_socket.mp here with ⟨rfl, -⟩ | ⟨-, here⟩
    · exact Nat.lt_succ_self _
    · exact Nat.lt_succ_of_lt (placed.opened i gd here)
  · exact placed.table
  · intro j op there
    obtain ⟨bound, number⟩ := placed.ops j op there
    refine ⟨Nat.lt_succ_of_lt bound, ?_⟩
    dsimp only
    rwa [fileno_new placed there]
  · intro gd d j there
    obtain ⟨op, look, number, dir, alive⟩ := placed.slots gd d j there
    refine ⟨op, look, number, dir, ?_⟩
    unfold Loop.Live
    dsimp only
    rwa [fileno_new placed look]

theorem socket_sound (sound : s.Sound) (free : ¬ ∃ i < s.opened, s.fileno i = some fd) :
    Loop.Sound { s with fileno := Function.update s.fileno s.opened (some fd), opened :=
      s.opened + 1 } := by
  refine ⟨socket_placed sound.toPlaced free, sound.batch, fun j inside => ?_, sound.delivered.once,
    sound.delivered.result, fun j op there cancelled => ?_⟩
  · obtain ⟨op, look, alive⟩ := sound.live j inside
    refine ⟨op, look, ?_⟩
    unfold Loop.Live
    dsimp only
    rwa [fileno_new sound.toPlaced look]
  · exact (fileno_new sound.toPlaced there).trans (sound.delivered.cancelled j op there cancelled)

theorem fileno_close {other : Nat} {gd : Nat} :
    Function.update s.fileno sock none other = some gd ↔ other ≠ sock ∧
    s.fileno other = some gd := by
  rw [Function.update_apply]
  by_cases same : other = sock
  · simp [same]
  · simp [same]

theorem closed_close {other : Nat} (h : s.fileno other = none) :
    Function.update s.fileno sock none other = none := by
  rw [Function.update_apply, h, ite_self]

theorem close_placed (placed : s.Placed) (sock : Nat) :
    Loop.Placed { s with fileno := Function.update s.fileno sock none } where
  distinct := fun i j gd here there =>
      placed.distinct i j gd (fileno_close.mp here).2 (fileno_close.mp there).2
  opened := fun i gd here => placed.opened i gd (fileno_close.mp here).2
  table := placed.table
  ops := by
    intro j op there
    obtain ⟨bound, number⟩ := placed.ops j op there
    refine ⟨bound, ?_⟩
    by_cases same : op.sock = sock
    · exact .inr (by rw [same]; exact Function.update_self _ _ _)
    · rcases number with live | closed
      · exact .inl (fileno_close.mpr ⟨same, live⟩)
      · exact .inr (closed_close closed)
  slots := by
    intro gd d j there
    obtain ⟨op, look, number, dir, live⟩ := placed.slots gd d j there
    exact ⟨op, look, number, dir, live.imp_right closed_close⟩

theorem close_sound (sound : s.Sound) (sock : Nat) :
    Loop.Sound { s with fileno := Function.update s.fileno sock none } := by
  refine ⟨close_placed sound.toPlaced sock, sound.batch, fun j inside => ?_, sound.delivered.once,
    sound.delivered.result, fun j op there cancelled => ?_⟩
  · obtain ⟨op, look, live⟩ := sound.live j inside
    exact ⟨op, look, live.imp_right closed_close⟩
  · exact closed_close (sound.delivered.cancelled j op there cancelled)

/-- The steps of a loop that is there. -/
inductive Stepped (s : Loop V) : Action V → Loop V → Prop where
  | socket (fd : Nat) : (¬ ∃ i < s.opened, s.fileno i = some fd) → Stepped s (.socket fd)
      { s with fileno := Function.update s.fileno s.opened (some fd), opened := s.opened + 1 }
  | close (sock : Nat) : Stepped s (.close sock)
      { s with fileno := Function.update s.fileno sock none }
  | start (kind : Kind) (sock : Nat) (bound : Bool) (attempt : Attempt) :
      Stepped s (.start kind sock bound attempt) (s.start sock bound attempt kind)
  | cancel (i : Nat) (op : Op V) : s.ops[i]? = some op → Stepped s (.cancel i) (s.cancel i op)
  | poll (events : List Dispatch.Event) : s.batch = [] → (events.map Dispatch.Event.source).Nodup →
      Stepped s (.poll events) { s with batch := events.flatMap s.handles }
  | run (i : Nat) (batch : List Nat) (op : Op V) (r : Answer V) : s.batch = i :: batch →
      s.ops[i]? = some op → Stepped s (.run r) (Loop.callback { s with batch } i op r)

theorem step_stepped {a : Action V} (h : step s a = some t) : s.panicked = false ∧
    Stepped s a t := by
  unfold step at h
  split at h
  · cases h
  · next running =>
      refine ⟨Bool.eq_false_of_not_eq_true running, ?_⟩
      cases a with
      | socket fd =>
          obtain ⟨free, same⟩ := Option.ite_none_left_eq_some.mp h
          cases same
          exact .socket fd free
      | close sock =>
          cases h
          exact .close sock
      | start kind sock bound attempt =>
          cases h
          exact .start kind sock bound attempt
      | cancel i =>
          obtain ⟨op, there, rfl⟩ := Option.map_eq_some_iff.mp h
          exact .cancel i op there
      | poll events =>
          obtain ⟨⟨drained, once⟩, same⟩ := Option.ite_none_right_eq_some.mp h
          cases same
          exact .poll events drained once
      | run r =>
          simp only [Loop.step] at h
          split at h
          · cases h
          · next i batch front =>
              obtain ⟨op, there, rfl⟩ := Option.map_eq_some_iff.mp h
              exact .run i batch op r front there

/-- The operation whose callback is next, and the loop without that callback. -/
theorem popped {batch : List Nat} (sound : s.Sound) (front : s.batch = i :: batch)
    (there : s.ops[i]? = some op) : Loop.Sound { s with batch } ∧ s.Live op ∧ i ∉ batch := by
  have once := sound.batch
  rw [front] at once
  obtain ⟨out, rest⟩ := List.nodup_cons.mp once
  obtain ⟨same, look, live⟩ := sound.live i (by rw [front]; exact List.mem_cons_self)
  cases there.symm.trans look
  refine ⟨⟨sound.toPlaced.congr rfl rfl rfl rfl, rest, fun j inside => ?_,
    sound.delivered.congr rfl rfl rfl⟩, live, out⟩
  exact sound.live j (by rw [front]; exact List.mem_cons_of_mem i inside)

theorem step_placed (s : Loop V) (a : Action V) (t : Loop V) (placed : s.Placed)
    (h : step s a = some t) :
    t.Placed := by
  obtain ⟨-, stepped⟩ := step_stepped h
  cases stepped with
  | socket fd free => exact socket_placed placed free
  | close sock => exact close_placed placed sock
  | start kind sock bound attempt => exact start_placed placed kind sock bound attempt
  | cancel i op there => exact cancel_placed placed there
  | poll events drained once => exact placed.congr rfl rfl rfl rfl
  | run i batch op r front there =>
      have rest : Loop.Placed { s with batch } := placed.congr rfl rfl rfl rfl
      exact callback_placed rest there r

theorem step_sound (s : Loop V) (a : Action V) (t : Loop V) (sound : s.Sound) (apart : Apart s a)
    (h : step s a = some t) : t.Sound := by
  obtain ⟨-, stepped⟩ := step_stepped h
  cases stepped with
  | socket fd free => exact socket_sound sound free
  | close sock => exact close_sound sound sock
  | start kind sock bound attempt => exact start_sound sound kind sock bound attempt
  | cancel i op there => exact cancel_sound sound there
  | poll events drained once => exact poll_sound sound once apart
  | run i batch op r front there =>
      obtain ⟨sound, live, out⟩ := popped sound front there
      exact callback_sound sound there live out r

theorem initial_registered : (initial : Loop V).Registered where
  running := rfl
  pending := fun i op there => by cases there
  slots := fun i op fd d there => by cases there

/-- The slot of an open socket is free exactly when no operation of that direction waits. -/
theorem idle_iff (placed : s.Placed) (registered : s.Registered) (live : s.fileno sock = some fd)
    (d : Dir) : s.Idle sock (fun other => other.dir == d) ↔ s.table.slots fd d = none := by
  constructor
  · intro idle
    cases slot : s.table.slots fd d with
    | none => rfl
    | some j =>
        obtain ⟨op, there, rfl, rfl, -⟩ := placed.slots fd d j slot
        have pending := registered.slots j op op.fd op.kind.dir slot there
        have same := placed.distinct op.sock sock op.fd
          (registered.pending j op there pending).1 live
        exact absurd pending (idle op (List.mem_of_getElem? there) same (beq_self_eq_true _))
  · intro free op inside same dir pending
    obtain ⟨j, there⟩ := List.mem_iff_getElem?.mp inside
    obtain ⟨number, slot⟩ := registered.pending j op there pending
    rw [same, live] at number
    cases Option.some.inj number
    rw [eq_of_beq dir, free] at slot
    cases slot

/-- The operation that is added, and the one whose callback it replaces. -/
theorem added_registered (placed : s.Placed) (registered : s.Registered)
    (live : s.fileno sock = some fd)
    (slots : ∀ gd d, u.slots gd d = if gd = fd ∧ d = kind.dir then some s.ops.length
    else s.table.slots gd d) :
    Loop.Registered { s with ops := s.ops ++ [⟨kind, sock, fd, .pending⟩], table := u } ↔
      s.table.slots fd kind.dir = none := by
  constructor
  · intro after
    cases slot : s.table.slots fd kind.dir with
    | none => rfl
    | some j =>
        obtain ⟨op, there, rfl, dir, -⟩ := placed.slots fd kind.dir j slot
        have pending := registered.slots j op op.fd kind.dir slot there
        have own := (after.pending j op (look_concat.mpr (.inl there)) pending).2
        rw [dir] at own
        change u.slots op.fd kind.dir = some j at own
        rw [slots, if_pos ⟨rfl, rfl⟩] at own
        have inside := (List.getElem?_eq_some_iff.mp there).1
        exact absurd (Option.some.inj own) (Nat.ne_of_gt inside)
  · intro free
    refine ⟨registered.running, ?_, ?_⟩
    · intro j op there pending
      dsimp only
      rw [slots]
      rcases look_concat.mp there with old | ⟨rfl, rfl⟩
      · obtain ⟨number, slot⟩ := registered.pending j op old pending
        refine ⟨number, ?_⟩
        rw [if_neg]
        · exact slot
        · rintro ⟨same, dir⟩
          rw [same, dir, free] at slot
          cases slot
      · exact ⟨live, if_pos ⟨rfl, rfl⟩⟩
    · intro j op gd d there look
      change u.slots gd d = some j at there
      rcases look_concat.mp look with old | ⟨-, rfl⟩
      · rw [slots] at there
        split at there
        · have inside := (List.getElem?_eq_some_iff.mp old).1
          exact absurd (Option.some.inj there) (Nat.ne_of_gt inside)
        · exact registered.slots j op gd d there old
      · rfl

theorem start_registered (placed : s.Placed) (registered : s.Registered) (kind : Kind) (sock : Nat)
    (bound : Bool) (attempt : Attempt) : (s.start sock bound attempt kind).Registered ↔
      Exclusive s (.start kind sock bound attempt) := by
  simp only [Exclusive]
  rcases start_cases s kind sock bound attempt with ⟨no, same⟩ | ⟨yes, fd, live, same⟩
  · rw [same, no]
    exact iff_of_true registered fun yes => by cases yes
  · rw [same, yes, idle_iff placed registered live]
    rcases add_cases (s := { s with ops := s.ops ++ [⟨kind, sock, fd, .pending⟩] }) placed.table
      kind fd s.ops.length with ⟨u, same, -, slots⟩ | ⟨occupied, same⟩
    · rw [same, added_registered placed registered live slots]
      exact ⟨fun free _ => free, fun free => free rfl⟩
    · rw [same]
      exact iff_of_false (fun after => by cases after.running) fun free => occupied (free rfl)

theorem settle_registered {read : List (Nat × V)} (placed : s.Placed) (registered : s.Registered)
    (there : s.ops[i]? = some op) (pending : op.future = .pending) (settled : f ≠ .pending) :
    (Loop.remove { s with ops := s.ops.set i { op with future := f }, read } op).Registered := by
  obtain ⟨number, slot⟩ := registered.pending i op there pending
  obtain ⟨u, same, -, slots⟩ := remove_eq
    (s := { s with ops := s.ops.set i { op with future := f }, read }) placed.table number
  rw [same]
  refine ⟨registered.running, ?_, ?_⟩
  · intro j other look waiting
    rcases (look_set there).mp look with ⟨-, rfl⟩ | ⟨apart, look⟩
    · exact absurd waiting settled
    · obtain ⟨number', slot'⟩ := registered.pending j other look waiting
      refine ⟨number', ?_⟩
      dsimp only
      rw [slots, if_neg]
      · exact slot'
      · rintro ⟨same, dir⟩
        rw [same, dir, slot] at slot'
        exact apart (Option.some.inj slot').symm
  · intro j other gd d found look
    change u.slots gd d = some j at found
    rw [slots] at found
    split at found
    · cases found
    · next apart =>
        rcases (look_set there).mp look with ⟨rfl, -⟩ | ⟨-, look⟩
        · obtain ⟨same, look, rfl, rfl, -⟩ := placed.slots gd d j found
          cases there.symm.trans look
          exact absurd ⟨rfl, rfl⟩ apart
        · exact registered.slots j other gd d found look

theorem callback_registered (placed : s.Placed) (registered : s.Registered)
    (there : s.ops[i]? = some op) (r : Answer V) : (s.callback i op r).Registered := by
  unfold Loop.callback
  cases s.answer op r with
  | again | exits => exact registered
  | failed exc =>
      cases pending : op.future with
      | pending =>
          simp only [Loop.resolve, pending]
          exact settle_registered placed registered there pending (by simp)
      | result | exception | cancelled =>
          simp only [Loop.resolve, pending]
          exact registered
  | value v =>
      cases pending : op.future with
      | pending =>
          simp only [Loop.resolve, pending]
          exact settle_registered placed registered there pending (by simp)
      | result | exception | cancelled =>
          simp only [Loop.resolve, pending]
          exact ⟨registered.running, registered.pending, registered.slots⟩

/-- A pending operation has an open socket, so that `cancel` raises. -/
theorem cancel_registered (registered : s.Registered) (there : s.ops[i]? = some op) :
    s.cancel i op = s := by
  unfold Loop.cancel
  split
  · rfl
  · next closed pending =>
      have number := (registered.pending i op there pending).1
      cases closed.symm.trans number
  · rfl
  · rfl
  · rfl

theorem socket_registered (placed : s.Placed) (registered : s.Registered) (fd : Nat) :
    Loop.Registered { s with fileno := Function.update s.fileno s.opened (some fd), opened :=
      s.opened + 1 } where
  running := registered.running
  pending := by
    intro j op there pending
    obtain ⟨number, slot⟩ := registered.pending j op there pending
    exact ⟨fileno_socket.mpr (.inr ⟨Nat.ne_of_lt (placed.ops j op there).1, number⟩), slot⟩
  slots := registered.slots

theorem close_registered (registered : s.Registered) (sock : Nat) :
    Loop.Registered { s with fileno := Function.update s.fileno sock none } ↔ s.Idle sock fun _ =>
    true := by
  constructor
  · rintro after op inside same - pending
    obtain ⟨j, there⟩ := List.mem_iff_getElem?.mp inside
    exact (fileno_close.mp (after.pending j op there pending).1).1 same
  · intro idle
    refine ⟨registered.running, fun j op there pending => ?_, registered.slots⟩
    obtain ⟨number, slot⟩ := registered.pending j op there pending
    refine ⟨fileno_close.mpr ⟨fun same => ?_, number⟩, slot⟩
    exact idle op (List.mem_of_getElem? there) same rfl pending

/-- A step keeps the operations registered exactly when it is exclusive. -/
theorem step_registered (s : Loop V) (a : Action V) (t : Loop V) (placed : s.Placed)
    (registered : s.Registered) (h : step s a = some t) : t.Registered ↔ Exclusive s a := by
  obtain ⟨-, stepped⟩ := step_stepped h
  cases stepped with
  | socket fd free => exact iff_of_true (socket_registered placed registered fd) trivial
  | close sock => exact close_registered registered sock
  | start kind sock bound attempt =>
      exact start_registered placed registered kind sock bound attempt
  | cancel i op there =>
      rw [cancel_registered registered there]
      exact iff_of_true registered trivial
  | poll events drained once =>
      exact iff_of_true ⟨registered.running, registered.pending, registered.slots⟩ trivial
  | run i batch op r front there =>
      have rest : Loop.Placed { s with batch } := placed.congr rfl rfl rfl rfl
      refine iff_of_true ?_ trivial
      exact callback_registered rest ⟨registered.running, registered.pending, registered.slots⟩
        there r

/-- In every run whose polls tell the waker apart from descriptor 0, what callbacks read is
what the futures gave, once each, and no future of an open socket is cancelled. Every
pending operation is in the table under the number of its open socket, nothing else is, and
no call panics, in every state of a run exactly if each operation has its direction of the
socket to itself until it is done and its socket is not closed before. -/
theorem registered_iff (h : run step initial actions = some t) :
    (Guarded step Apart initial actions → t.Delivered) ∧
      (Always step Loop.Registered initial actions ↔ Guarded step Exclusive initial actions) :=
  ⟨fun apart => (run_preserves step_sound h initial_sound apart).delivered,
    always_iff_guarded step_placed step_registered h initial_placed initial_registered⟩

/-- A socket is closed under its `sock_recv`, and the next one with its number reads. -/
def closedEarly : List (Action Nat) :=
  [.socket 5, .start .recv 0 false .done, .close 0, .socket 5, .start .recv 1 false .done]

theorem closedEarly_unregistered : ¬ Always step Loop.Registered initial closedEarly := by
  intro always
  obtain ⟨t, ends⟩ : ∃ t, run step initial closedEarly = some t :=
    Option.isSome_iff_exists.mp (by decide)
  have exclusive := (registered_iff ends).2.mp always
  revert exclusive
  decide

/-- The waker and descriptor 0 in one poll: the callback receives twice, and its future has
only the first. -/
example : (run step initial
    [.socket 0, .start .recv 0 false .done, .poll [⟨.waker, true, false⟩, ⟨.fd 0, true, false⟩],
      .run (.value 1), .run (.value 2)]).map (fun s => (s.read, s.ops)) =
    some ([(0, 1), (0, 2)], [⟨.recv, 0, 0, .result 1⟩]) := by decide

end TokioLoop.SockFutures
