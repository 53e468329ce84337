import Mathlib.Data.Finset.Basic
import Mathlib.Data.List.Basic
import Mathlib.Logic.Function.Basic
import TokioLoop.TcpEntries
import TokioLoop.TcpOutbound

/-!
All TCP connections of a loop with the tables they share, and the user code that runs
while a connection is set up: the protocol factory, and what the loop asks the protocol.
An answer that the code unwraps ends the process when it is an exception.

A connection is seen through its own entries (`Loop.view`); what its code does to them is
written back (`Loop.store`). While `handle_io_tcpl` accepts, user code runs only before
the entries of the connection are made, so that whatever it does to other connections is
a step before. `handle_io_tcpl` holds the lock of the poller meanwhile: a factory that adds
a descriptor to the loop or takes one out never returns, and there is no such step.
-/
namespace TokioLoop.Connections

open Tcp Runs

/-- A value, or an exception with its text. -/
abbrev PyResult (α : Type) := Except String α

/-- What was unwrapped when it was an error. `internal` stands for panics with other causes,
a second borrow of the state or a transport that is not in the table. -/
inductive Panic where
  | factory
  | isInstance
  | attribute (name : String)
  | socket
  | hostName
  | getBuffer
  | internal
  deriving DecidableEq, Repr

/-- `unwrap` of a Python result. -/
def unwrap {α : Type} (p : Panic) : PyResult α → Except Panic α
  | .ok a => .ok a
  | .error _ => .error p

/-- What a protocol object answers: `isinstance` with `BufferedProtocol`, and whether it
has the attributes that are read from it. -/
structure Protocol where
  isBuffered : PyResult Bool
  connectionLost : PyResult Unit
  getBuffer : PyResult Unit
  bufferUpdated : PyResult Unit
  dataReceived : PyResult Unit
  connectionMade : PyResult Unit

/-- The outside of `TCPTransport::new`: what the factory gives, whether a Python socket can
be made of the descriptor, and the configured timeout. -/
structure Setup where
  factory : PyResult Protocol
  socket : PyResult Unit
  sslCloseTimeout : Nat

/-- The arguments of `_tcp_conn`. With an SSL context there is a configuration built from
it, or the exception, and `server_hostname`; the configuration makes the TLS connection
for a parsed name. -/
structure Client (σ N : Type) where
  setup : Setup
  ssl : Option (PyResult (N → σ) × String)

variable {σ N : Type}

/-- `TCPTransport::new`, which gives `proto_buffered` here. -/
def Setup.transport (s : Setup) (proto : Protocol) : Except Panic Bool := do
  let buffered ← unwrap .isInstance proto.isBuffered
  unwrap (.attribute "connection_lost") proto.connectionLost
  if buffered then
    unwrap (.attribute "get_buffer") proto.getBuffer
    unwrap (.attribute "buffer_updated") proto.bufferUpdated
  else
    unwrap (.attribute "data_received") proto.dataReceived
  unwrap .socket s.socket
  return buffered

/-- `TCPServerRef::new_stream`; `ssl` is a fresh TLS connection of an SSL server. -/
def newStream (ssl : Option σ) (l : Nat) (s : Setup) : Except Panic (Cfg σ) := do
  let proto ← unwrap .factory s.factory
  let buffered ← s.transport proto
  if ssl.isNone then unwrap (.attribute "connection_made") proto.connectionMade
  return accepted l ssl buffered s.sslCloseTimeout

/-- `connected` on a descriptor for which the tables may have entries already. -/
def connectedOn (R : Rustls σ) (entries : Tables) (tlsConn : Option σ) (protoBuffered : Bool)
    (sslCloseTimeout : Nat) : Cfg σ :=
  let c : Cfg σ :=
    { tr := newTransport none tlsConn protoBuffered sslCloseTimeout
      tables := entries
      stack := []
      exposed := true
      panicked := false
      log := [] }
  match tlsConn with
  | none => c.call .connectionMade .attach
  | some conn => register (if R.wantsWrite conn then c.streamAdd .writable else c)

/-- `_tcp_conn` up to the call of `connection_made` on a plain connection, to its end on
TLS. The inner result is what the caller gets. -/
def tcpConn (R : Rustls σ) (serverName : String → Option N) (entries : Tables) (k : Client σ N) :
    Except Panic (PyResult (Cfg σ)) := do
  let proto ← unwrap .factory k.setup.factory
  let buffered ← k.setup.transport proto
  match k.ssl with
  | none => return .ok (connectedOn R entries none buffered k.setup.sslCloseTimeout)
  | some (.error e, _) => return .error e
  | some (.ok config, name) =>
      match serverName name with
      | none => throw .hostName
      | some name =>
          return .ok (connectedOn R entries (some (config name)) buffered k.setup.sslCloseTimeout)

/-- The entries of `handles_io` for TCP; a listener has its server's TLS configuration, as a
fresh connection. -/
inductive IoHandle (σ : Type) where
  | tcpListener (ssl : Option σ)
  | tcpStream (interest : Interest)

def IoHandle.listens : IoHandle σ → Bool
  | .tcpListener _ => true
  | .tcpStream _ => false

def IoHandle.interest : IoHandle σ → Option Interest
  | .tcpListener _ => none
  | .tcpStream interest => some interest

/-- A transport and the code in progress on it. -/
structure Conn (σ : Type) where
  tr : Tcp.Transport σ
  stack : List Frame
  exposed : Bool
  pendingMade : Bool
  log : List Obs

/-- `conns` has the transports whose descriptor is open, in the table or not, `events` the
handle of the last dispatch for a descriptor, and `calls` the descriptors of the protocol
methods in progress, the innermost first. -/
structure Loop (σ : Type) where
  conns : Nat → Option (Conn σ)
  handlesIo : Nat → Option (IoHandle σ)
  tcpTransports : Nat → Bool
  tcpLstreams : Nat → Option (Finset Nat)
  events : Nat → Option Dir
  calls : List Nat
  fate : Option Panic

def Loop.listed (w : Loop σ) (fd : Nat) (lfd : Option Nat) : Bool :=
  lfd.any fun l => (w.tcpLstreams l).any fun set => decide (fd ∈ set)

/-- The connection with its own entries of the tables. -/
def Loop.view (w : Loop σ) (fd : Nat) : Option (Cfg σ) :=
  (w.conns fd).map fun c =>
    { tr := c.tr
      tables := ⟨(w.handlesIo fd).bind IoHandle.interest, w.tcpTransports fd, w.listed fd c.tr.lfd,
          c.pendingMade,
        w.events fd⟩
      stack := c.stack
      exposed := c.exposed
      panicked := false
      log := c.log }

def Loop.store (w : Loop σ) (fd : Nat) (c : Cfg σ) : Loop σ :=
  { w with
    conns := Function.update w.conns fd
        (some ⟨c.tr, c.stack, c.exposed, c.tables.pendingMade, c.log⟩)
    handlesIo := Function.update w.handlesIo fd (c.tables.interest.map .tcpStream)
    tcpTransports := Function.update w.tcpTransports fd c.tables.bound
    tcpLstreams := match c.tr.lfd with
      | none => w.tcpLstreams
      | some l => Function.update w.tcpLstreams l
          ((w.tcpLstreams l).map fun set => if c.tables.listed then insert fd set else set.erase fd)
    events := Function.update w.events fd c.tables.event }

/-- The kernel can give the descriptor to a new connection. -/
def Loop.free (w : Loop σ) (fd : Nat) : Bool :=
  (w.conns fd).isNone && !(w.handlesIo fd).any IoHandle.listens

/-- The loop of `handle_io_tcpl` over the connections there are to accept. -/
def acceptAll (ssl : Option σ) (l : Nat) : Loop σ → List (Nat × Setup) → Option (Loop σ)
  | w, [] => some w
  | w, (fd, s) :: streams =>
      if w.free fd then
        match newStream ssl l s with
        | .error p => some { w with fate := some p }
        | .ok c =>
            acceptAll ssl l (w.store fd { c with tables := { c.tables with event := w.events fd } })
              streams
      else none

/-- `handle_io_tcpl`, whose first lines unwrap the set of the listener. -/
def handleIoTcpl (w : Loop σ) (ssl : Option σ) (l : Nat) (streams : List (Nat × Setup)) :
    Option (Loop σ) :=
  match w.tcpLstreams l with
  | none => some { w with fate := some .internal }
  | some _ => acceptAll ssl l w streams

inductive Act (σ N : Type) where
  | accept (l : Nat) (streams : List (Nat × Setup))
  | connect (fd : Nat) (k : Client σ N)
  | conn (fd : Nat) (a : Tcp.Act) (env : Env)
  | drop (fd : Nat)

/-- The loop polls and runs handles when no method is in progress; it is the innermost
method that returns. -/
def Loop.admits (w : Loop σ) (fd : Nat) : Tcp.Act → Bool
  | .ret _ => w.calls.head? == some fd
  | .poll _ | .fire | .made => w.calls.isEmpty
  | .call _ | .server _ => true

/-- The methods in progress after a piece of code, which may have ended in a call. -/
def callsAfter (calls : List Nat) (fd : Nat) (c d : Cfg σ) : Tcp.Act → List Nat
  | .ret _ => if c.stack.length ≤ d.stack.length then calls else calls.tail
  | _ => if c.stack.length < d.stack.length then fd :: calls else calls

/-- Why a piece of code has panicked. -/
def cause (c : Cfg σ) : Tcp.Act → Panic
  | .ret _ => if c.stack.head? = some .getBuffer then .getBuffer else .internal
  | _ => .internal

def Loop.advance (w : Loop σ) (fd : Nat) (a : Tcp.Act) (c d : Cfg σ) : Loop σ :=
  { w.store fd d with
    calls := callsAfter w.calls fd c d a
    fate := if d.panicked then some (cause c a) else none }

/-- The transport and its descriptor are gone; an entry of `handles_io` stays. -/
def Loop.release (w : Loop σ) (fd : Nat) : Loop σ :=
  { w with conns := Function.update w.conns fd none }

/-- A connection that is not set up is dropped with its descriptor; so is one that nothing
refers to any more. -/
def step (R : Rustls σ) (serverName : String → Option N) (w : Loop σ)
    (a : Act σ N) : Option (Loop σ) :=
  if w.fate.isSome then none
  else
    match a with
    | .accept l streams =>
        match w.handlesIo l with
        | some (.tcpListener ssl) => if w.calls.isEmpty then handleIoTcpl w ssl l streams else none
        | _ => none
    | .connect fd k =>
        if w.free fd then
          let entries : Tables := ⟨(w.handlesIo fd).bind IoHandle.interest, false, false, false,
            w.events fd⟩
          match tcpConn R serverName entries k with
          | .error p => some { w with fate := some p }
          | .ok (.error _) => some w
          | .ok (.ok c) => some { w.store fd c with calls := c.stack.map (fun _ => fd) ++ w.calls }
        else none
    | .conn fd a env =>
        match w.view fd with
        | none => none
        | some c => if w.admits fd a then (Tcp.step R c (a, env)).map (w.advance fd a c) else none
    | .drop fd =>
        match w.conns fd with
        | none => none
        | some c =>
            if c.stack.isEmpty && !c.pendingMade && !w.tcpTransports fd then
              some (w.release fd)
            else none

/-- A loop that listens, without connections; `servers` has the listeners. -/
def serving (servers : Nat → Option (Option σ)) : Loop σ where
  conns _ := none
  handlesIo l := (servers l).map .tcpListener
  tcpTransports _ := false
  tcpLstreams l := (servers l).map fun _ => ∅
  events _ := none
  calls := []
  fate := none

def Act.fds : Act σ N → List Nat
  | .accept _ streams => streams.map Prod.fst
  | .connect fd _ | .conn fd _ _ | .drop fd => [fd]

/-- The invariants of the tables. The set of a listener has just the transports of the
table that it accepted (`Placed`, `streams`), no transport of the table is gone, and no
connection stands in the entry of a listener. -/
structure Consistent (w : Loop σ) : Prop where
  placed : ∀ fd c, w.view fd = some c → Placed c
  opened : ∀ fd, w.tcpTransports fd = true → (w.conns fd).isSome = true
  streams : ∀ l set, w.tcpLstreams l = some set → ∀ fd ∈ set, ∃ c, w.conns fd = some c ∧
      c.tr.lfd = some l
  sets : ∀ fd c l, w.conns fd = some c → c.tr.lfd = some l → (w.tcpLstreams l).isSome = true
  listening : ∀ l, (w.handlesIo l).any IoHandle.listens = true → (w.tcpLstreams l).isSome = true
  apart : ∀ fd, (w.conns fd).isSome = true → (w.handlesIo fd).any IoHandle.listens = false

/-- The two loops agree on a descriptor. -/
structure SameAt (w w' : Loop σ) (fd : Nat) : Prop where
  view : w'.view fd = w.view fd
  handlesIo : w'.handlesIo fd = w.handlesIo fd
  tcpTransports : w'.tcpTransports fd = w.tcpTransports fd

/-- The step meets no error where it unwraps a Python result or a parsed name, and leaves
the tables in order and every other descriptor alone. -/
def Contained (R : Rustls σ) (serverName : String → Option N) (w : Loop σ) (a : Act σ N) : Prop :=
  ∀ w', step R serverName w a = some w' →
    (w'.fate = none ∨ w'.fate = some .internal) ∧ (w'.fate = none → Consistent w') ∧
    ∀ fd ∉ a.fds, SameAt w w' fd

/-- The protocol has a truth value for `isinstance` and the attributes that are read then. -/
def Protocol.Usable (proto : Protocol) : Prop :=
  ∃ buffered, proto.isBuffered = .ok buffered ∧ proto.connectionLost = .ok () ∧
    if buffered = true then proto.getBuffer = .ok () ∧ proto.bufferUpdated = .ok ()
      else proto.dataReceived = .ok ()

/-- The factory returns a protocol that can be used; `made` says that `connection_made` is
read as well. -/
def Setup.Usable (s : Setup) (made : Bool) : Prop :=
  ∃ proto, s.factory = .ok proto ∧ proto.Usable ∧ s.socket = .ok () ∧
    (made = true → proto.connectionMade = .ok ())

/-- The condition on a step: what user code gives where the result is unwrapped. -/
def Handled (serverName : String → Option N) (w : Loop σ) : Act σ N → Prop
  | .accept l streams =>
      ∀ ssl, w.handlesIo l = some (.tcpListener ssl) → ∀ s ∈ streams, s.2.Usable ssl.isNone
  | .connect _ k => k.setup.Usable false ∧
      ∀ config name, k.ssl = some (.ok config, name) → (serverName name).isSome = true
  | .conn fd (.ret r) _ =>
      ∀ c, w.conns fd = some c → c.stack.head? = some .getBuffer → ∃ size, r = .buffer size
  | _ => True

variable {R : Rustls σ} {serverName : String → Option N} {w : Loop σ}

theorem transport_spec (s : Setup) (proto : Protocol) :
    (∃ buffered, s.transport proto = .ok buffered ∧ proto.Usable ∧ s.socket = .ok ()) ∨
      ∃ p, s.transport proto = .error p ∧ p ≠ .internal ∧ ¬ (proto.Usable ∧ s.socket = .ok ()) := by
  obtain ⟨isBuffered, connectionLost, getBuffer, bufferUpdated, dataReceived, connectionMade⟩ :=
    proto
  obtain ⟨factory, socket, timeout⟩ := s
  unfold Setup.transport Protocol.Usable
  rcases isBuffered with e | buffered
  · exact .inr ⟨.isInstance, rfl, by simp, by simp⟩
  rcases connectionLost with e | ⟨⟩
  · exact .inr ⟨.attribute "connection_lost", rfl, by simp, by simp⟩
  cases buffered with
  | true =>
      rcases getBuffer with e | ⟨⟩
      · exact .inr ⟨.attribute "get_buffer", rfl, by simp, by simp⟩
      rcases bufferUpdated with e | ⟨⟩
      · exact .inr ⟨.attribute "buffer_updated", rfl, by simp, by simp⟩
      rcases socket with e | ⟨⟩
      · exact .inr ⟨.socket, rfl, by simp, by simp⟩
      · exact .inl ⟨true, rfl, by simp, rfl⟩
  | false =>
      rcases dataReceived with e | ⟨⟩
      · exact .inr ⟨.attribute "data_received", rfl, by simp, by simp⟩
      rcases socket with e | ⟨⟩
      · exact .inr ⟨.socket, rfl, by simp, by simp⟩
      · exact .inl ⟨false, rfl, by simp, rfl⟩

/-- What comes after the factory and `TCPTransport::new` runs on a usable protocol, or not
at all. -/
theorem setup_spec {α : Type} (s : Setup) (f : Protocol → Bool → Except Panic α)
    {r : Except Panic α} (h : r = do
      let proto ← unwrap .factory s.factory
      let buffered ← s.transport proto
      f proto buffered) :
    (∃ proto buffered, s.factory = .ok proto ∧ proto.Usable ∧ s.socket = .ok () ∧
      r = f proto buffered) ∨ ∃ p, r = .error p ∧ p ≠ .internal ∧ ∀ made, ¬ s.Usable made := by
  subst h
  cases factory : s.factory with
  | error e => exact .inr ⟨.factory, rfl, by simp, by simp [Setup.Usable, factory]⟩
  | ok proto =>
      rcases transport_spec s proto with ⟨buffered, result, usable, socket⟩ | ⟨p, result, user,
        unusable⟩
      · refine .inl ⟨proto, buffered, rfl, usable, socket, ?_⟩
        simp only [unwrap, bind, Except.bind, result]
      · refine .inr ⟨p, ?_, user, ?_⟩
        · simp only [unwrap, bind, Except.bind, result]
        · rintro made ⟨other, same, usable, socket, -⟩
          rw [factory] at same
          cases same
          exact unusable ⟨usable, socket⟩

theorem newStream_spec (ssl : Option σ) (l : Nat) (s : Setup) :
    (s.Usable ssl.isNone ∧ ∃ buffered, newStream ssl l s = .ok
      (accepted l ssl buffered s.sslCloseTimeout)) ∨ ¬ s.Usable ssl.isNone ∧
      ∃ p, newStream ssl l s = .error p ∧ p ≠ .internal := by
  rcases setup_spec s _ (rfl : newStream ssl l s = _) with
    ⟨proto, buffered, factory, usable, socket, result⟩ | ⟨p, result, user, unusable⟩
  · cases ssl with
    | some conn =>
        exact .inl ⟨⟨proto, factory, usable, socket, fun plain => by cases plain⟩, buffered, result⟩
    | none =>
        cases made : proto.connectionMade with
        | ok done =>
            refine .inl ⟨⟨proto, factory, usable, socket, fun _ => made⟩, buffered, ?_⟩
            rw [result, made]
            rfl
        | error e =>
            refine .inr ⟨by simp [Setup.Usable, factory, made], .attribute "connection_made", ?_,
              by simp⟩
            rw [result, made]
            rfl
  · exact .inr ⟨unusable _, p, result, user⟩

theorem tcpConn_spec (R : Rustls σ) (serverName : String → Option N) (w : Loop σ) (entries : Tables)
    (fd : Nat) (k : Client σ N) :
    (Handled serverName w (.connect fd k) ∧ ∃ r, tcpConn R serverName entries k = .ok r ∧
        ∀ c, r = .ok c → ∃ tlsConn buffered,
        c = connectedOn R entries tlsConn buffered k.setup.sslCloseTimeout) ∨
      ¬ Handled serverName w (.connect fd k) ∧
      ∃ p, tcpConn R serverName entries k = .error p ∧ p ≠ .internal := by
  obtain ⟨setup, ssl⟩ := k
  rcases setup_spec setup _ (rfl : tcpConn R serverName entries ⟨setup, ssl⟩ = _) with
    ⟨proto, buffered, factory, usable, socket, result⟩ | ⟨p, result, user, unusable⟩
  · have set : setup.Usable false := ⟨proto, factory, usable, socket, fun made => by cases made⟩
    rw [result]
    rcases ssl with _ | ⟨e | config, name⟩
    · refine .inl ⟨⟨set, fun config name h => by cases h⟩, _, rfl, fun c h => ?_⟩
      exact ⟨none, buffered, (Except.ok.inj h).symm⟩
    · refine .inl ⟨⟨set, fun config name h => by cases h⟩, _, rfl, fun c h => ?_⟩
      cases h
    · cases parsed : serverName name with
      | none =>
          refine .inr ⟨?_, .hostName, ?_, by simp⟩
          · rintro ⟨-, names⟩
            have there := names config name rfl
            rw [parsed] at there
            cases there
          · simp only [parsed]
            rfl
      | some parsedName =>
          refine .inl ⟨⟨set, ?_⟩, .ok (connectedOn R entries (some (config parsedName)) buffered
            setup.sslCloseTimeout), ?_, fun c h => ?_⟩
          · rintro config' name' h
            cases h
            rw [parsed]
            rfl
          · simp only [parsed]
            rfl
          · exact ⟨some (config parsedName), buffered, (Except.ok.inj h).symm⟩
  · exact .inr ⟨fun handled => unusable _ handled.1, p, result, user⟩

theorem view_some {fd : Nat} {c : Cfg σ} (h : w.view fd = some c) :
    ∃ conn, w.conns fd = some conn ∧ conn.tr = c.tr ∧ conn.stack = c.stack ∧ c.panicked = false ∧
      c.tables.bound = w.tcpTransports fd ∧ c.tables.listed = w.listed fd c.tr.lfd := by
  obtain ⟨conn, there, rfl⟩ := Option.map_eq_some_iff.mp h
  exact ⟨conn, there, rfl, rfl, rfl, rfl, rfl⟩

theorem view_of_conns {fd : Nat} {conn : Conn σ} (h : w.conns fd = some conn) :
    ∃ c, w.view fd = some c ∧ c.tr = conn.tr ∧ c.stack = conn.stack := by
  refine ⟨_, Option.map_eq_some_iff.mpr ⟨conn, h, rfl⟩, rfl, rfl⟩

section Store
variable (w : Loop σ) (fd other : Nat) (c : Cfg σ)

theorem store_conns : (w.store fd c).conns other =
    if other = fd then some ⟨c.tr, c.stack, c.exposed, c.tables.pendingMade, c.log⟩
        else w.conns other :=
  Function.update_apply _ _ _ _

theorem store_handlesIo : (w.store fd c).handlesIo other =
    if other = fd then c.tables.interest.map .tcpStream else w.handlesIo other :=
  Function.update_apply _ _ _ _

theorem store_tcpTransports : (w.store fd c).tcpTransports other =
    if other = fd then c.tables.bound else w.tcpTransports other :=
  Function.update_apply _ _ _ _

theorem store_events : (w.store fd c).events other = if other = fd then c.tables.event
    else w.events other :=
  Function.update_apply _ _ _ _

end Store

/-- The sets after a connection is written: only its own number comes or goes. -/
theorem store_streams (w : Loop σ) (fd : Nat) (c : Cfg σ) (l : Nat) :
    (w.store fd c).tcpLstreams l =
      if c.tr.lfd = some l then (w.tcpLstreams l).map fun set =>
        if c.tables.listed then insert fd set else set.erase fd
      else w.tcpLstreams l := by
  unfold Loop.store
  cases lfd : c.tr.lfd with
  | none => simp
  | some m =>
      by_cases same : m = l
      · subst same
        simp
      · rw [if_neg (by simpa using same)]
        exact Function.update_of_ne (Ne.symm same) _ _

theorem store_streams_isSome (w : Loop σ) (fd : Nat) (c : Cfg σ) (l : Nat) :
    ((w.store fd c).tcpLstreams l).isSome = (w.tcpLstreams l).isSome := by
  rw [store_streams]
  by_cases own : c.tr.lfd = some l
  · rw [if_pos own, Option.isSome_map]
  · rw [if_neg own]

theorem listed_store_of_ne {fd other : Nat} (apart : other ≠ fd) (c : Cfg σ) (lfd : Option Nat) :
    (w.store fd c).listed other lfd = w.listed other lfd := by
  cases lfd with
  | none => rfl
  | some l =>
      simp only [Loop.listed, Option.any_some, store_streams]
      split_ifs
      · cases w.tcpLstreams l with
        | none => rfl
        | some set => simp [apart]
      · cases w.tcpLstreams l with
        | none => rfl
        | some set => simp [apart]
      · rfl

theorem store_sameAt {fd other : Nat} (apart : other ≠ fd)
    (c : Cfg σ) : SameAt w (w.store fd c) other where
  view := by
    unfold Loop.view
    rw [store_conns, store_handlesIo, store_tcpTransports, store_events]
    simp only [if_neg apart, listed_store_of_ne apart]
  handlesIo := by rw [store_handlesIo, if_neg apart]
  tcpTransports := by rw [store_tcpTransports, if_neg apart]

/-- The entry of a stream is none of a listener. -/
theorem interest_listens (interest : Option Interest) :
    (interest.map (IoHandle.tcpStream (σ := σ))).any IoHandle.listens = false := by
  cases interest <;> rfl

theorem SameAt.trans {v : Loop σ} {fd : Nat} (first : SameAt w v fd) {w' : Loop σ}
    (second : SameAt v w' fd) : SameAt w w' fd where
  view := second.view.trans first.view
  handlesIo := second.handlesIo.trans first.handlesIo
  tcpTransports := second.tcpTransports.trans first.tcpTransports

/-- What is written is read again, when the listener still has its set. -/
theorem view_store {fd : Nat} {c : Cfg σ} (placed : Placed c)
    (set : ∀ l, c.tr.lfd = some l → (w.tcpLstreams l).isSome = true) :
    (w.store fd c).view fd = some { c with panicked := false } := by
  have listed : (w.store fd c).listed fd c.tr.lfd = c.tables.listed := by
    cases lfd : c.tr.lfd with
    | none =>
        have indexed := placed.indexed
        unfold Indexed at indexed
        rw [lfd] at indexed
        have off : c.tables.listed = false :=
          Bool.eq_false_iff.mpr fun on => Bool.noConfusion (indexed.mp on).2
        exact off.symm
    | some l =>
        obtain ⟨members, there⟩ := Option.isSome_iff_exists.mp (set l lfd)
        simp only [Loop.listed, Option.any_some, store_streams, lfd, if_true, there,
          Option.map_some]
        split_ifs with on
        · simp [on]
        · simp [on]
  have handles : ((w.store fd c).handlesIo fd).bind IoHandle.interest = c.tables.interest := by
    rw [store_handlesIo, if_pos rfl]
    cases c.tables.interest <;> rfl
  unfold Loop.view
  rw [handles, store_conns, store_tcpTransports, store_events]
  simp only [if_true, Option.map_some, listed]

/-- Writing back a connection that is in order keeps all tables in order. -/
theorem store_consistent {fd : Nat} {c : Cfg σ} (h : Consistent w) (placed : Placed c)
    (set : ∀ l, c.tr.lfd = some l → (w.tcpLstreams l).isSome = true)
    (same : ∀ conn, w.conns fd = some conn → conn.tr.lfd = c.tr.lfd) : Consistent
    (w.store fd c) where
  placed other d there := by
    by_cases here : other = fd
    · subst here
      rw [view_store placed set] at there
      cases there
      exact ⟨placed.indexed, placed.attached⟩
    · rw [(store_sameAt here c).view] at there
      exact h.placed other d there
  opened other bound := by
    rw [store_tcpTransports] at bound
    rw [store_conns]
    by_cases here : other = fd
    · rw [if_pos here]
      rfl
    · rw [if_neg here] at bound ⊢
      exact h.opened other bound
  streams l members there other member := by
    by_cases here : other = fd
    · subst here
      rw [store_conns, if_pos rfl]
      refine ⟨_, rfl, ?_⟩
      by_contra apart
      rw [store_streams, if_neg apart] at there
      obtain ⟨conn, open', lfd⟩ := h.streams l members there other member
      exact apart ((same conn open').symm.trans lfd)
    · have listed : (w.store fd c).listed other (some l) = true := by
        simp only [Loop.listed, Option.any_some, there]
        exact decide_eq_true member
      rw [listed_store_of_ne here] at listed
      obtain ⟨before, hbefore, hmem⟩ :
          ∃ before, w.tcpLstreams l = some before ∧ other ∈ before := by
        simpa [Loop.listed, Option.any_eq_true] using listed
      rw [store_conns, if_neg here]
      exact h.streams l before hbefore other hmem
  sets other conn l there lfd := by
    rw [store_streams_isSome]
    rw [store_conns] at there
    by_cases here : other = fd
    · rw [if_pos here] at there
      cases there
      exact set l lfd
    · rw [if_neg here] at there
      exact h.sets other conn l there lfd
  listening l listens := by
    rw [store_streams_isSome]
    rw [store_handlesIo] at listens
    by_cases here : l = fd
    · rw [if_pos here, interest_listens] at listens
      cases listens
    · rw [if_neg here] at listens
      exact h.listening l listens
  apart other there := by
    rw [store_conns] at there
    rw [store_handlesIo]
    by_cases here : other = fd
    · rw [if_pos here, interest_listens]
    · rw [if_neg here] at there ⊢
      exact h.apart other there

theorem free_iff {fd : Nat} (h : w.free fd = true) : w.conns fd = none := by
  unfold Loop.free at h
  exact Option.isNone_iff_eq_none.mp (Bool.and_eq_true_iff.mp h).1

theorem accepted_placed (l : Nat) (ssl : Option σ) (buffered : Bool) (timeout : Nat)
    (event : Option Dir) : Placed { accepted l ssl buffered timeout with
      tables := { (accepted l ssl buffered timeout).tables with event := event } } where
  indexed := iff_of_true rfl ⟨rfl, rfl⟩
  attached attach := by cases attach

theorem connectedOn_placed (entries : Tables) (unlisted : entries.listed = false)
    (tlsConn : Option σ) (buffered : Bool) (timeout : Nat) :
    Placed (connectedOn R entries tlsConn buffered timeout) ∧
      (connectedOn R entries tlsConn buffered timeout).tr.lfd = none := by
  cases tlsConn with
  | none =>
      exact ⟨⟨by simp [Indexed, connectedOn, unlisted, Cfg.call, Cfg.emit, newTransport], fun _ =>
        rfl⟩, rfl⟩
  | some conn =>
      simp only [connectedOn]
      split_ifs
      · exact ⟨⟨by simp [Indexed, unlisted, register, Cfg.streamAdd, newTransport], fun _ => rfl⟩,
          rfl⟩
      · exact ⟨⟨by simp [Indexed, unlisted, register, Cfg.streamAdd, newTransport], fun _ => rfl⟩,
          rfl⟩

/-- The accept loop goes through when user code has set up every connection, and stops in
an unwrap otherwise. Connections that are not in the list are left alone. -/
theorem acceptAll_spec {ssl : Option σ}
    {l : Nat} : ∀ {streams : List (Nat × Setup)} {w w' : Loop σ},
    Consistent w → w.fate = none → (w.tcpLstreams l).isSome = true →
    acceptAll ssl l w streams = some w' →
      ((∀ s ∈ streams, s.2.Usable ssl.isNone) ∧ w'.fate = none ∧ Consistent w' ∨
        ¬ (∀ s ∈ streams, s.2.Usable ssl.isNone) ∧ ∃ p, w'.fate = some p ∧ p ≠ .internal) ∧
      ∀ fd ∉ streams.map Prod.fst, SameAt w w' fd := by
  intro streams
  induction streams with
  | nil =>
      intro w w' h running set hrun
      cases hrun
      exact ⟨.inl ⟨List.forall_mem_nil _, running, h⟩, fun fd _ => ⟨rfl, rfl, rfl⟩⟩
  | cons s streams ih =>
      obtain ⟨fd, s⟩ := s
      intro w w' h running set hrun
      rw [acceptAll] at hrun
      obtain ⟨free, hrun⟩ := Option.ite_none_right_eq_some.mp hrun
      rcases newStream_spec ssl l s with ⟨usable, buffered, result⟩ | ⟨unusable, p, result, user⟩
      · rw [result] at hrun
        have new := free_iff free
        obtain ⟨outcome, frame⟩ := ih
          (store_consistent h (accepted_placed l ssl buffered s.sslCloseTimeout (w.events fd))
            (fun m hm => by cases hm; exact set) fun conn there =>
            by rw [new] at there; cases there)
          running ((store_streams_isSome _ _ _ _).trans set) hrun
        constructor
        · rcases outcome with ⟨all, rest⟩ | ⟨not, rest⟩
          · exact .inl ⟨List.forall_mem_cons.mpr ⟨usable, all⟩, rest⟩
          · exact .inr ⟨fun all => not (List.forall_mem_cons.mp all).2, rest⟩
        · intro other apart
          rw [List.map_cons, List.mem_cons, not_or] at apart
          exact (store_sameAt apart.1 _).trans (frame other apart.2)
      · rw [result] at hrun
        cases hrun
        refine ⟨.inr ⟨fun all => unusable (List.forall_mem_cons.mp all).1, p, rfl, user⟩, ?_⟩
        exact fun other _ => ⟨rfl, rfl, rfl⟩

/-- The step of a run from a loop in order: user code is handled and the tables stay in
order, or it is not and the process ends. -/
structure Outcome (serverName : String → Option N) (w : Loop σ) (a : Act σ N)
    (w' : Loop σ) : Prop where
  handled : Handled serverName w a → (w'.fate = none ∨ w'.fate = some .internal) ∧
      (w'.fate = none → Consistent w')
  unhandled : ¬ Handled serverName w a → ∃ p, w'.fate = some p ∧ p ≠ .internal
  frame : ∀ fd ∉ a.fds, SameAt w w' fd

/-- The tables of a loop, whatever is in progress. -/
theorem Consistent.progress (h : Consistent w) (calls : List Nat) (fate : Option Panic) :
    Consistent { w with calls := calls, fate := fate } :=
  ⟨h.placed, h.opened, h.streams, h.sets, h.listening, h.apart⟩

theorem SameAt.progress {w' : Loop σ} {fd : Nat} (h : SameAt w w' fd) (calls : List Nat)
    (fate : Option Panic) : SameAt w { w' with calls := calls, fate := fate } fd :=
  ⟨h.view, h.handlesIo, h.tcpTransports⟩

theorem advance_consistent {fd : Nat} {act : Tcp.Act} {env : Env} {c d : Cfg σ} (h : Consistent w)
    (there : w.view fd = some c) (hstep : Tcp.step R c (act, env) = some d)
    (running : d.panicked = false) : Consistent (w.advance fd act c d) := by
  obtain ⟨conn, open', tr, stack, -, -, -⟩ := view_some there
  have placed := h.placed fd c there
  have lfd := (step_places placed hstep).lfd
  refine (store_consistent h (step_placed placed hstep running) (fun l hl => ?_) fun other same =>
    ?_).progress _ _
  · rw [lfd, ← tr] at hl
    exact h.sets fd conn l open' hl
  · obtain rfl := Option.some.inj (open'.symm.trans same)
    rw [lfd, tr]

theorem conn_outcome {fd : Nat} {act : Tcp.Act} {env : Env} {c d : Cfg σ} (h : Consistent w)
    (there : w.view fd = some c) (hstep : Tcp.step R c (act, env) = some d) :
    Outcome serverName w (.conn fd act env) (w.advance fd act c d) := by
  obtain ⟨conn, open', -, stack, -, -, -⟩ := view_some there
  have fate : (w.advance fd act c d).fate = if d.panicked then some (cause c act) else none := rfl
  have frame : ∀ other ∉ Act.fds (Act.conn (σ := σ) (N := N) fd act env),
      SameAt w (w.advance fd act c d) other :=
    fun other apart => (store_sameAt (List.ne_of_not_mem_cons apart) d).progress _ _
  have kept : (w.advance fd act c d).fate = none → Consistent (w.advance fd act c d) := by
    intro none
    cases running : d.panicked with
    | true =>
        rw [fate, running] at none
        cases none
    | false => exact advance_consistent h there hstep running
  by_cases unwraps : ∃ r, act = .ret r ∧ c.stack.head? = some .getBuffer
  · obtain ⟨r, rfl, top⟩ := unwraps
    have buffer := ret_getBuffer top hstep
    have handled : Handled serverName w (.conn fd (.ret r) env) ↔ ∃ size, r = .buffer size := by
      constructor
      · exact fun all => all conn open' (by rw [stack]; exact top)
      · exact fun given _ _ _ => given
    refine ⟨fun good => ⟨.inl ?_, kept⟩, fun bad => ⟨.getBuffer, ?_, by simp⟩, frame⟩
    · rw [fate, buffer.mpr (handled.mp good)]
      rfl
    · have panicked : d.panicked = true := by
        by_contra running
        exact bad (handled.mpr (buffer.mp (Bool.eq_false_iff.mpr running)))
      rw [fate, panicked, if_pos rfl, cause, if_pos top]
  · -- no unwrap of a Python result: a panic here has another cause
    have internal : cause c act = .internal := by
      cases act with
      | ret r => exact if_neg fun top => unwraps ⟨r, rfl, top⟩
      | call | server | poll | fire | made => rfl
    have handled : Handled serverName w (.conn fd act env) := by
      cases act with
      | ret r =>
          intro other same top
          obtain rfl := Option.some.inj (open'.symm.trans same)
          exact absurd ⟨r, rfl, by rw [← stack]; exact top⟩ unwraps
      | call | server | poll | fire | made => trivial
    refine ⟨fun _ => ⟨?_, kept⟩, fun bad => absurd handled bad, frame⟩
    rw [fate, internal]
    split_ifs
    · exact .inr rfl
    · exact .inl rfl

theorem accept_outcome {l : Nat} {ssl : Option σ} {streams : List (Nat × Setup)} {w' : Loop σ}
    (h : Consistent w) (running : w.fate = none) (listens : w.handlesIo l = some (.tcpListener ssl))
    (hstep : handleIoTcpl w ssl l streams = some w') : Outcome (N := N) serverName w
    (.accept l streams) w' := by
  have set : (w.tcpLstreams l).isSome = true := h.listening l (by rw [listens]; rfl)
  obtain ⟨members, there⟩ := Option.isSome_iff_exists.mp set
  rw [handleIoTcpl, there] at hstep
  obtain ⟨outcome, frame⟩ := acceptAll_spec h running set hstep
  have handled : Handled (N := N) serverName w (.accept l streams) ↔
      ∀ s ∈ streams, s.2.Usable ssl.isNone := by
    constructor
    · exact fun all => all ssl listens
    · intro all other same
      rw [listens] at same
      cases same
      exact all
  refine ⟨fun good => ?_, fun bad => ?_, frame⟩
  · rcases outcome with ⟨-, none, consistent⟩ | ⟨not, -⟩
    · exact ⟨.inl none, fun _ => consistent⟩
    · exact absurd (handled.mp good) not
  · rcases outcome with ⟨all, -⟩ | ⟨-, stopped⟩
    · exact absurd (handled.mpr all) bad
    · exact stopped

theorem connect_outcome {fd : Nat} {k : Client σ N} {w' : Loop σ} (h : Consistent w)
    (running : w.fate = none) (hstep : step R serverName w (.connect fd k) = some w') :
    Outcome serverName w (.connect fd k) w' := by
  rw [step, running] at hstep
  simp only [Option.isSome_none, Bool.false_eq_true, if_false] at hstep
  obtain ⟨free, hstep⟩ := Option.ite_none_right_eq_some.mp hstep
  have new := free_iff free
  rcases tcpConn_spec R serverName w
      ⟨(w.handlesIo fd).bind IoHandle.interest, false, false, false, w.events fd⟩ fd k with
    ⟨good, r, result, connects⟩ | ⟨bad, p, result, user⟩
  · rw [result] at hstep
    cases r with
    | error e =>
        cases hstep
        exact ⟨fun _ => ⟨.inl running, fun _ => h⟩, fun bad => absurd good bad, fun _ _ =>
          ⟨rfl, rfl, rfl⟩⟩
    | ok c =>
        cases hstep
        obtain ⟨tlsConn, buffered, rfl⟩ := connects c rfl
        obtain ⟨placed, alone⟩ := connectedOn_placed (R := R)
          ⟨(w.handlesIo fd).bind IoHandle.interest, false, false, false, w.events fd⟩ rfl tlsConn
          buffered k.setup.sslCloseTimeout
        refine ⟨fun _ => ⟨.inl running, fun _ => ?_⟩, fun bad => absurd good bad,
          fun other apart => ?_⟩
        · refine (store_consistent h placed (fun l hl => ?_) fun conn there => ?_).progress _ w.fate
          · rw [alone] at hl
            cases hl
          · rw [new] at there
            cases there
        · exact (store_sameAt (List.ne_of_not_mem_cons apart) _).progress _ w.fate
  · rw [result] at hstep
    cases hstep
    exact ⟨fun good => absurd good bad, fun _ => ⟨p, rfl, user⟩, fun _ _ => ⟨rfl, rfl, rfl⟩⟩

/-- A member of a listener's set is in the table. -/
theorem Consistent.bound_of_mem (h : Consistent w) {l fd : Nat} {set : Finset Nat}
    (there : w.tcpLstreams l = some set) (member : fd ∈ set) : w.tcpTransports fd = true := by
  obtain ⟨conn, open', lfd⟩ := h.streams l set there fd member
  obtain ⟨c, seen, tr, -⟩ := view_of_conns open'
  obtain ⟨-, -, -, -, -, bound, listed⟩ := view_some seen
  rw [← bound]
  refine ((h.placed fd c seen).indexed.mp ?_).1
  rw [listed, tr, lfd]
  simp [Loop.listed, there, member]

theorem release_conns (w : Loop σ) (fd other : Nat) :
    (w.release fd).conns other = if other = fd then none else w.conns other :=
  Function.update_apply _ _ _ _

theorem release_sameAt {fd other : Nat} (apart : other ≠ fd) : SameAt w (w.release fd) other where
  view := by
    unfold Loop.view
    rw [release_conns, if_neg apart]
    rfl
  handlesIo := rfl
  tcpTransports := rfl

/-- A transport that is not in the table can be released. -/
theorem release_consistent {fd : Nat} (h : Consistent w) (unbound : w.tcpTransports fd = false) :
    Consistent (w.release fd) where
  placed other c there := by
    by_cases here : other = fd
    · subst here
      obtain ⟨conn, open', -⟩ := view_some there
      rw [release_conns, if_pos rfl] at open'
      cases open'
    · rw [(release_sameAt here).view] at there
      exact h.placed other c there
  opened other bound := by
    have before : w.tcpTransports other = true := bound
    have apart : other ≠ fd := by
      rintro rfl
      rw [before] at unbound
      cases unbound
    rw [release_conns, if_neg apart]
    exact h.opened other before
  streams l set there other member := by
    have apart : other ≠ fd := by
      rintro rfl
      rw [h.bound_of_mem there member] at unbound
      cases unbound
    rw [release_conns, if_neg apart]
    exact h.streams l set there other member
  sets other conn l there lfd := by
    rw [release_conns] at there
    exact h.sets other conn l (Option.ite_none_left_eq_some.mp there).2 lfd
  listening := h.listening
  apart other there := by
    rw [release_conns] at there
    by_cases here : other = fd
    · rw [if_pos here] at there
      cases there
    · rw [if_neg here] at there
      exact h.apart other there

theorem step_running {a : Act σ N} {w' : Loop σ} (hstep : step R serverName w a = some w') :
    w.fate = none := by
  rw [step.eq_def] at hstep
  cases fate : w.fate with
  | none => rfl
  | some p =>
      rw [fate] at hstep
      cases hstep

theorem step_outcome {a : Act σ N} {w' : Loop σ} (h : Consistent w)
    (hstep : step R serverName w a = some w') :
    Outcome serverName w a w' := by
  have running := step_running hstep
  have enabled := hstep
  rw [step.eq_def, running] at enabled
  simp only [Option.isSome_none, Bool.false_eq_true, if_false] at enabled
  cases a with
  | connect fd k => exact connect_outcome h running hstep
  | accept l streams =>
      simp only at enabled
      split at enabled
      next ssl listens => exact accept_outcome h running listens (Option.ite_none_right_eq_some.mp
        enabled).2
      next => cases enabled
  | conn fd act env =>
      simp only at enabled
      split at enabled
      next => cases enabled
      next c there =>
        obtain ⟨-, ran⟩ := Option.ite_none_right_eq_some.mp enabled
        obtain ⟨d, hd, rfl⟩ := Option.map_eq_some_iff.mp ran
        exact conn_outcome h there hd
  | drop fd =>
      simp only at enabled
      split at enabled
      next => cases enabled
      next conn open' =>
        obtain ⟨unused, dropped⟩ := Option.ite_none_right_eq_some.mp enabled
        cases dropped
        simp only [Bool.and_eq_true, Bool.not_eq_true'] at unused
        exact ⟨fun _ => ⟨.inl running, fun _ => release_consistent h unused.2⟩, fun bad =>
          absurd trivial bad, fun other apart => release_sameAt (List.ne_of_not_mem_cons apart)⟩

theorem contained_iff {a : Act σ N} {w' : Loop σ} (h : Consistent w)
    (hstep : step R serverName w a = some w') : Contained R serverName w a ↔
    Handled serverName w a := by
  have outcome := step_outcome h hstep
  constructor
  · intro contained
    by_contra bad
    obtain ⟨p, fate, user⟩ := outcome.unhandled bad
    rcases (contained w' hstep).1 with none | internal
    · rw [none] at fate
      cases fate
    · rw [internal] at fate
      exact user (Option.some.inj fate).symm
  · intro good other same
    obtain rfl := Option.some.inj (hstep.symm.trans same)
    obtain ⟨fate, consistent⟩ := outcome.handled good
    exact ⟨fate, consistent, outcome.frame⟩

/-- The tables are in order until a panic. -/
def Sound (w : Loop σ) : Prop := w.fate = none → Consistent w

theorem serving_sound (servers : Nat → Option (Option σ)) : Sound (serving servers) := by
  intro _
  constructor
  · intro fd c there
    cases there
  · intro fd bound
    cases bound
  · intro l set there fd member
    obtain ⟨ssl, -, rfl⟩ := Option.map_eq_some_iff.mp there
    cases member
  · intro fd conn l there
    cases there
  · intro l listens
    cases server : servers l with
    | none => simp [serving, server] at listens
    | some ssl => simp [serving, server]
  · intro fd there
    cases there

theorem step_sound {a : Act σ N} {w' : Loop σ} (h : Sound w)
    (hstep : step R serverName w a = some w') :
    Sound w' := by
  intro running
  have outcome := step_outcome (h (step_running hstep)) hstep
  by_cases good : Handled serverName w a
  · exact (outcome.handled good).2 running
  · obtain ⟨p, fate, -⟩ := outcome.unhandled good
    rw [running] at fate
    cases fate

/-- A run meets no error where it unwraps what user code gives, and keeps the tables in
order and other connections alone, just if user code gives no error there. -/
theorem user_code_contained_iff (R : Rustls σ) (serverName : String → Option N)
    (servers : Nat → Option (Option σ)) (actions : List (Act σ N)) (w : Loop σ)
    (h : run (step R serverName) (serving servers) actions = some w) :
    Guarded (step R serverName) (Contained R serverName) (serving servers) actions ↔
      Guarded (step R serverName) (Handled serverName) (serving servers) actions := by
  refine guarded_congr_run (I := Sound) (fun v a v' sound hstep => step_sound sound hstep) ?_ h
    (serving_sound servers)
  intro v a v' sound hstep
  exact contained_iff (sound (step_running hstep)) hstep

def oneListener : Nat → Option (Option Empty) := fun l => if l = 3 then some none else none

/-- A buffered protocol gives a buffer of four bytes for the one byte that has come. -/
def bufferedRead : List (Act Empty Unit) :=
  [.accept 3 [(5, ⟨.ok ⟨.ok true, .ok (), .ok (), .ok (), .error "data_received", .ok ()⟩, .ok (),
      1000⟩)],
    .conn 5 .made ⟨[], [], 0⟩, .conn 5 (.ret .falsy) ⟨[], [], 0⟩,
    .conn 5 (.poll .readable) ⟨[], [], 0⟩, .conn 5 .fire ⟨[], [], 0⟩,
    .conn 5 (.ret (.buffer 4)) ⟨[.data [7]], [], 0⟩]

theorem user_code_contained_buffered :
    Guarded (step noTls fun _ => none) (Contained noTls fun _ => none)
    (serving oneListener) bufferedRead := by
  refine (user_code_contained_iff noTls (fun _ => none) oneListener bufferedRead _ rfl).mpr ?_
  refine guarded_cons rfl ?_ (guarded_cons rfl trivial
    (guarded_cons rfl ?_ (guarded_cons rfl trivial
      (guarded_cons rfl trivial (guarded_cons rfl ?_ trivial)))))
  · intro ssl _
    exact List.forall_mem_singleton.mpr ⟨_, rfl, ⟨true, rfl, rfl, rfl, rfl⟩, rfl, fun _ => rfl⟩
  · intro c there top
    cases there
    cases top
  · exact fun _ _ _ => ⟨4, rfl⟩

/-- A protocol factory that raises for an accepted connection. -/
theorem accept_unwraps_factory :
    ¬ ∀ (servers : Nat → Option (Option Empty)) (actions : List (Act Empty Unit)) (w : Loop Empty),
      run (step noTls fun _ => none) (serving servers) actions = some w →
        Guarded (step noTls fun _ => none) (Contained noTls fun _ => none)
        (serving servers) actions := by
  intro always
  have contained := always oneListener [.accept 3 [(5, ⟨.error "ValueError", .ok (), 1000⟩)]] _ rfl
  rcases (contained.1 _ rfl).1 with h | h
  · cases h
  · cases h

end TokioLoop.Connections
