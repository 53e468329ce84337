import TokioLoop.CreateConnection

/-!
`create_datagram_endpoint`: from the local and the remote address to a socket that is bound
or connected, and its hand-over to `_udp_conn`, which takes the descriptor while the
Python socket still has it; `detach` comes after.

A Python socket without a reference closes its descriptor when it is collected, and counts
as an owner until then. The transport owns the descriptor through its stream and through a
Python socket of its own.
-/
namespace TokioLoop.CreateDatagramEndpoint

open CreateServer (Kernel)
open CreateConnection (Exn LoopType badFd emptyList)

/-- An address as the caller writes it: a tuple of two, a string or something else. -/
inductive Addr where
  | pair (host port : String)
  | text (s : String)
  | other (truthy : Bool)
  deriving DecidableEq, Repr

def Addr.truthy : Addr → Bool
  | .pair _ _ => true
  | .text s => s ≠ ""
  | .other truthy => truthy

/-- What an address resolves to, a tuple of two or of four. -/
inductive InetAddr where
  | inet (host : String) (port : Nat)
  | inet6 (host : String) (port flowinfo scopeid : Nat)
  deriving DecidableEq, Repr

/-- An address as a socket takes it. -/
inductive SockAddr where
  | ip (addr : InetAddr)
  | unix (path : String)
  deriving DecidableEq, Repr

def SockAddr.truthy : SockAddr → Bool
  | .ip _ => true
  | .unix path => path ≠ ""

/-- `AF_UNIX` -/
def afUnix : Nat := 1

/-- The caller's socket; `fileno` is `none` for the `-1` of a closed one. -/
structure Sock where
  fileno : Option Nat
  dgram : Bool
  repr : String

structure Args where
  localAddr : Option Addr
  remoteAddr : Option Addr
  family : Nat
  proto : Nat
  flags : Nat
  reusePort : Bool
  allowBroadcast : Bool
  sock : Option Sock

/-- A resolved address, with its family and protocol number. -/
structure Info where
  family : Nat
  proto : Nat
  address : InetAddr

/-- What the call finds: how an address resolves for its family, protocol and flags, how the
system calls end, whether Rust reads a host as an address, whether the protocol factory
returns a protocol, how `connection_made` ends, and whether something the protocol has
stored still refers to the transport when an exception of it is gone. -/
structure Env where
  resolve : Addr → Except Exn (List Info)
  socket : Except Exn Unit
  setReuseport : Except Exn Unit
  setBroadcast : Except Exn Unit
  bind : SockAddr → Except Exn Unit
  connect : SockAddr → Except Exn Unit
  ipAddr : String → Bool
  factory : Bool
  connectionMade : Except Exn Unit
  kept : Bool

/-- The open descriptors, the numbers that Python sockets of the program have, and those of
the streams and the Python sockets of transports. -/
structure World where
  fds : Finset Nat
  sockets : Finset Nat
  streams : Finset Nat
  wrappers : Finset Nat

def World.socket (w : World) (fd : Nat) : World :=
  { w with fds := insert fd w.fds, sockets := insert fd w.sockets }

def World.close (w : World) (fd : Nat) : World :=
  { w with fds := w.fds.erase fd, sockets := w.sockets.erase fd }

def World.detach (w : World) (fd : Nat) : World := { w with sockets := w.sockets.erase fd }

def World.adopt (w : World) (fd : Nat) : World := { w with streams := insert fd w.streams }

/-- `SocketWrapper::from_fd` -/
def World.wrap (w : World) (fd : Nat) : World := { w with wrappers := insert fd w.wrappers }

/-- The transport is dropped, with what it has of the two. -/
def World.drop (w : World) (fd : Nat) : World :=
  { w with fds := w.fds.erase fd, streams := w.streams.erase fd, wrappers := w.wrappers.erase fd }

abbrev Py (α : Type) := Raising World Exn α

structure AddrInfo where
  family : Nat
  proto : Nat
  laddr : Option SockAddr
  raddr : Option SockAddr

def unixAddr : Option Addr → Except Exn (Option SockAddr)
  | none => .ok none
  | some (.text path) => .ok (some (.unix path))
  | some _ => .error (.typeError "string is expected")

/-- `addr_info`. Only the first address that is given is resolved, and where that is the
local one next to a remote one, its result is taken for the remote address. -/
def addrInfo (a : Args) (env : Env) : Except Exn AddrInfo :=
  if !(a.localAddr.any Addr.truthy || a.remoteAddr.any Addr.truthy) then
    if a.family = 0 then .error (.valueError "unexpected address family")
      else .ok ⟨a.family, a.proto, none, none⟩
  else if a.family = afUnix then do
    let laddr ← unixAddr a.localAddr
    let raddr ← unixAddr a.remoteAddr
    return ⟨a.family, a.proto, laddr, raddr⟩
  else
    match a.localAddr.or a.remoteAddr with
    | some (.pair host port) => do
        let infos ← env.resolve (.pair host port)
        match infos with
        | [] => throw emptyList
        | info :: _ =>
            if a.remoteAddr.isSome then return ⟨info.family, info.proto, none,
              some (.ip info.address)⟩
            else return ⟨info.family, info.proto, some (.ip info.address), none⟩
    | _ => .error (.typeError "2-tuple is expected")

/-- What becomes of the socket: the address it is bound to, the one it is connected to, and
`r_addr`. -/
structure Setup where
  bound : Option SockAddr
  connected : Option SockAddr
  rAddr : Option SockAddr
  deriving DecidableEq

/-- The calls on the new socket, for the addresses that are true. -/
def calls (a : Args) (env : Env) (laddr raddr : Option SockAddr) : Except Exn Unit := do
  if a.reusePort then env.setReuseport
  if a.allowBroadcast then env.setBroadcast
  match laddr with
  | none => pure ()
  | some laddr => env.bind laddr
  match raddr with
  | none => pure ()
  | some raddr => if !a.allowBroadcast then env.connect raddr

def AddrInfo.setup (info : AddrInfo) (allowBroadcast : Bool) : Setup where
  bound := info.laddr.filter SockAddr.truthy
  connected := if allowBroadcast then none else info.raddr.filter SockAddr.truthy
  rAddr := info.raddr.filter SockAddr.truthy

def setUp (a : Args) (env : Env) (info : AddrInfo) : Except Exn Setup :=
  let setup := info.setup a.allowBroadcast
  (calls a env setup.bound setup.rAddr).map fun _ => setup

/-- The `try` around the new socket, which only `OSError`s close. -/
def newSocket (k : Kernel) (a : Args) (env : Env) : Py (Nat × Setup) := do
  let info ← Raising.lift (addrInfo a env)
  Raising.lift env.socket
  let fd := k.alloc (← get).fds
  modify fun w => w.socket fd
  match setUp a env info with
  | .ok setup => return (fd, setup)
  | .error (.os exc) =>
      modify fun w => w.close fd
      throw (.os exc)
  | .error e => throw e

/-- The caller's socket, with `setblocking`. -/
def ownSocket (a : Args) (s : Sock) (fds : Finset Nat) : Except Exn (Nat × Setup) :=
  if !s.dgram then .error (.valueError ("A datagram socket was expected, got " ++ s.repr))
  else if a.localAddr.any Addr.truthy || a.remoteAddr.any Addr.truthy || a.family != 0 || a.proto
    != 0 ||
      a.flags != 0 || a.reusePort || a.allowBroadcast then
    .error (.valueError "socket modifier keyword arguments can not be used when sock is specified.")
  else
    match s.fileno with
    | none => .error badFd
    | some fd => if fd ∈ fds then .ok (fd, ⟨none, none, none⟩) else .error badFd

def endpointSocket (k : Kernel) (a : Args) (env : Env) : Py (Nat × Setup) := do
  match a.sock with
  | some s =>
      let fds := (← get).fds
      Raising.lift (ownSocket a s fds)
  | none => newSocket k a env

/-- The argument `remote_addr: Option<(String, u16)>` is made of `r_addr`. -/
def remoteAddr : Option SockAddr → Except Exn (Option String)
  | none => .ok none
  | some (.ip (.inet host _)) => .ok (some host)
  | some (.ip (.inet6 _ _ _ _)) => .error (.other "ValueError")
  | some (.unix _) => .error (.other "TypeError")

/-- `UDPTransport::from_py` behind the stream, from the address to the protocol. -/
def fromPy (env : Env) (host : Option String) : Except Exn Unit :=
  if host.any (fun host => !env.ipAddr host) then .error .panic
  else if !env.factory then .error .panic
  else .ok ()

def dropOn (fd : Nat) (kept : Bool) (r : Except Exn Unit) : Py Unit :=
  match r with
  | .ok () => pure ()
  | .error e => do
      if !kept then modify fun w => w.drop fd
      throw e

/-- `_udp_conn` -/
def udpConn (loop : LoopType) (env : Env) (fd : Nat) (rAddr : Option SockAddr) : Py Unit := do
  let host ← Raising.lift (remoteAddr rAddr)
  match loop with
  | .tokio => throw (.notImplemented "TokioEventLoop::_udp_conn not yet implemented")
  | .rloop =>
      modify fun w => w.adopt fd
      dropOn fd false (fromPy env host)
      modify fun w => w.wrap fd
      dropOn fd env.kept env.connectionMade

structure Endpoint extends Setup where
  fd : Nat

/-- `create_datagram_endpoint` -/
def createDatagramEndpoint (k : Kernel) (loop : LoopType) (a : Args) (env : Env) : Py Endpoint := do
  let (fd, setup) ← endpointSocket k a env
  udpConn loop env fd setup.rAddr
  modify fun w => w.detach fd
  return ⟨setup, fd⟩

/-- The address that an argument names. -/
def named (a : Args) (env : Env) : Option Addr → Option SockAddr
  | none => none
  | some addr =>
      if !addr.truthy then none
      else if a.family = afUnix then
        match addr with
        | .text path => some (.unix path)
        | _ => none
      else
        match env.resolve addr with
        | .ok infos => infos.head?.map fun info => .ip info.address
        | .error _ => none

/-- The endpoint is bound to the local address and talks to the remote one. -/
def AsRequested (a : Args) (env : Env) (s : Setup) : Prop :=
  s.bound = named a env a.localAddr ∧ s.rAddr = named a env a.remoteAddr

/-- The second address is given next to a local one, so that only the local one is resolved. -/
def overrides (a : Args) : Bool := a.localAddr.any Addr.truthy && a.remoteAddr.isSome

variable {k : Kernel} {loop : LoopType} {a : Args} {env : Env} {info : AddrInfo} {s : Setup}
  {w : World}

theorem setUp_ok (done : setUp a env info = .ok s) : s = info.setup a.allowBroadcast := by
  unfold setUp at done
  cases called : calls a env (info.setup a.allowBroadcast).bound (info.setup a.allowBroadcast).rAddr
      with
  | ok =>
      simp only [called, Except.map] at done
      exact (Except.ok.inj done).symm
  | error e =>
      simp only [called, Except.map] at done
      cases done

theorem named_falsy {addr : Option Addr} (falsy : addr.any Addr.truthy = false) :
    named a env addr = none := by
  cases addr with
  | none => rfl
  | some addr =>
      have not : addr.truthy = false := by simpa using falsy
      simp [named, not]

theorem unixAddr_ok {addr : Option Addr} {found : Option SockAddr} (unix : a.family = afUnix)
    (taken : unixAddr addr = .ok found) : found.filter SockAddr.truthy = named a env addr := by
  cases addr with
  | none =>
      cases taken
      rfl
  | some addr =>
      cases addr with
      | text path =>
          cases taken
          by_cases empty : path = ""
          · simp [named, Addr.truthy, SockAddr.truthy, Option.filter, empty]
          · simp [named, Addr.truthy, SockAddr.truthy, Option.filter, empty, unix]
      | pair | other => cases taken

/-- The address that is resolved where one is and the family is not `AF_UNIX`. -/
theorem addrInfo_resolved (some : (a.localAddr.any Addr.truthy || a.remoteAddr.any Addr.truthy) =
    true) (inet : a.family ≠ afUnix) (found : addrInfo a env = .ok info) :
    ∃ host port first rest, a.localAddr.or a.remoteAddr = .some (.pair host port) ∧
      env.resolve (.pair host port) = .ok (first :: rest) ∧
      info.laddr = (if a.remoteAddr.isSome then none else .some (.ip first.address)) ∧
      info.raddr = (if a.remoteAddr.isSome then .some (.ip first.address) else none) := by
  unfold addrInfo at found
  rw [some, Bool.not_true, if_neg Bool.false_ne_true, if_neg inet] at found
  split at found
  next host port given =>
    cases answer : env.resolve (.pair host port) with
    | error e =>
        simp only [answer, bind, Except.bind] at found
        cases found
    | ok infos =>
        simp only [answer, bind, Except.bind] at found
        cases infos with
        | nil => cases found
        | cons first rest =>
            refine ⟨host, port, first, rest, given, answer, ?_⟩
            cases second : a.remoteAddr.isSome with
            | true =>
                rw [second] at found
                cases found
                exact ⟨rfl, rfl⟩
            | false =>
                rw [second] at found
                cases found
                exact ⟨rfl, rfl⟩
  next => cases found

theorem named_pair {host port : String} {first : Info} {rest : List Info} (inet : a.family ≠ afUnix)
    (answer : env.resolve (.pair host port) = .ok (first :: rest)) :
    named a env (some (.pair host port)) = some (.ip first.address) := by
  simp [named, Addr.truthy, inet, answer]

/-- The endpoint has the addresses that were asked for, unless one of them stands in the
other's place. -/
theorem addrInfo_named_iff (found : addrInfo a env = .ok info) :
    (info.laddr.filter SockAddr.truthy = named a env a.localAddr ∧
      info.raddr.filter SockAddr.truthy = named a env a.remoteAddr) ↔
      (a.family = afUnix ∨ overrides a = false) := by
  cases some : a.localAddr.any Addr.truthy || a.remoteAddr.any Addr.truthy with
  | false =>
      obtain ⟨noLocal, noRemote⟩ := Bool.or_eq_false_iff.mp some
      unfold addrInfo at found
      rw [some, Bool.not_false, if_pos rfl] at found
      split at found
      · cases found
      · cases found
        rw [named_falsy noLocal, named_falsy noRemote]
        exact iff_of_true ⟨rfl, rfl⟩ (.inr (by simp [overrides, noLocal]))
  | true =>
      by_cases unix : a.family = afUnix
      · refine iff_of_true ?_ (.inl unix)
        unfold addrInfo at found
        rw [some, Bool.not_true, if_neg Bool.false_ne_true, if_pos unix] at found
        cases first : unixAddr a.localAddr with
        | error e =>
            rw [first] at found
            cases found
        | ok laddr =>
            cases second : unixAddr a.remoteAddr with
            | error e =>
                simp only [first, second, bind, Except.bind] at found
                cases found
            | ok raddr =>
                simp only [first, second, bind, Except.bind] at found
                cases found
                exact ⟨unixAddr_ok unix first, unixAddr_ok unix second⟩
      · obtain ⟨host, port, first, rest, given, answer, laddr, raddr⟩ :=
          addrInfo_resolved some unix found
        rw [laddr, raddr, or_iff_right unix]
        cases localGiven : a.localAddr with
        | none =>
            rw [localGiven, Option.none_or] at given
            rw [given, named_pair unix answer]
            exact iff_of_true ⟨rfl, rfl⟩ (by simp [overrides, localGiven])
        | some addr =>
            rw [localGiven, Option.some_or] at given
            cases given
            rw [named_pair unix answer]
            cases remoteGiven : a.remoteAddr with
            | none => exact iff_of_true ⟨rfl, rfl⟩ (by simp [overrides, remoteGiven])
            | some other =>
                refine iff_of_false ?_ (by simp [overrides, localGiven, remoteGiven, Addr.truthy])
                rintro ⟨bound, -⟩
                cases bound

/-- With both addresses the socket is not bound, and the local address is taken for the
remote one. -/
theorem addrInfo_overridden (found : addrInfo a env = .ok info) (both : overrides a = true)
    (inet : a.family ≠ afUnix) : info.laddr = none ∧
    info.raddr.filter SockAddr.truthy = named a env a.localAddr := by
  obtain ⟨there, second⟩ := Bool.and_eq_true_iff.mp both
  have some : (a.localAddr.any Addr.truthy || a.remoteAddr.any Addr.truthy) = true := by
    rw [there, Bool.true_or]
  obtain ⟨host, port, first, rest, given, answer, laddr, raddr⟩ := addrInfo_resolved some inet found
  rw [if_pos second] at laddr raddr
  cases localGiven : a.localAddr with
  | none => simp [localGiven] at there
  | some addr =>
      rw [localGiven, Option.some_or] at given
      cases given
      rw [laddr, raddr, named_pair inet answer]
      exact ⟨rfl, rfl⟩

/-- What the socket is set up for, or what the call raises instead. -/
def prepared (a : Args) (env : Env) (fds : Finset Nat) : Except Exn Setup :=
  match a.sock with
  | some s => (ownSocket a s fds).map Prod.snd
  | none => do
      let info ← addrInfo a env
      env.socket
      setUp a env info

/-- The open descriptors belong to Python sockets. -/
def start (fds : Finset Nat) : World := ⟨fds, fds, ∅, ∅⟩

theorem ownSocket_ok {own : Sock} {fds : Finset Nat} {r : Nat × Setup}
    (taken : ownSocket a own fds = .ok r) : r.1 ∈ fds ∧ r.2 = ⟨none, none, none⟩ ∧
    a.localAddr.any Addr.truthy = false ∧
      a.remoteAddr.any Addr.truthy = false := by
  unfold ownSocket at taken
  split at taken
  · cases taken
  · split at taken
    · cases taken
    next free =>
      simp only [Bool.or_eq_true, not_or, Bool.not_eq_true] at free
      split at taken
      · cases taken
      · split at taken
        next there =>
          cases taken
          exact ⟨there, rfl, free.1.1.1.1.1.1, free.1.1.1.1.1.2⟩
        next => cases taken

/-- The socket is there and set up, or every descriptor still belongs to a Python socket. -/
theorem call_endpointSocket (k : Kernel) (a : Args) (env : Env) (fds : Finset Nat) :
    (∃ e w, Raising.call (endpointSocket k a env) (start fds) = (.error e, w) ∧
      prepared a env fds = .error e ∧ w.sockets = w.fds ∧ w.streams = ∅ ∧ w.wrappers = ∅) ∨
      ∃ fd setup, Raising.call (endpointSocket k a env) (start fds) = (.ok (fd, setup),
        (start fds).socket fd) ∧ prepared a env fds = .ok setup := by
  cases given : a.sock with
  | some own =>
      cases taken : ownSocket a own fds with
      | error e =>
          left
          refine ⟨e, start fds, ?_, ?_, rfl, rfl, rfl⟩
          · simpa [endpointSocket, given, start] using taken
          · simp [prepared, given, taken, Except.map]
      | ok r =>
          right
          obtain ⟨there, -, -, -⟩ := ownSocket_ok taken
          refine ⟨r.1, r.2, ?_, ?_⟩
          · simp [endpointSocket, given, start, taken, World.socket, there]
          · simp [prepared, given, taken, Except.map]
  | none =>
      cases found : addrInfo a env with
      | error e =>
          left
          exact ⟨e, start fds, by simp [endpointSocket, newSocket, given, found], by
            simp [prepared, given, found, bind, Except.bind], rfl, rfl, rfl⟩
      | ok info =>
          cases made : env.socket with
          | error e =>
              left
              exact ⟨e, start fds, by simp [endpointSocket, newSocket, given, found, made], by
                simp [prepared, given, found, made, bind, Except.bind], rfl, rfl, rfl⟩
          | ok =>
              have same : prepared a env fds = setUp a env info := by
                simp [prepared, given, found, made, bind, Except.bind]
              rw [same]
              cases done : setUp a env info with
              | ok setup =>
                  right
                  exact ⟨k.alloc fds, setup,
                    by simp [endpointSocket, newSocket, given, found, made, done, start], rfl⟩
              | error e =>
                  left
                  cases e with
                  | os exc =>
                      refine ⟨.os exc, ((start fds).socket (k.alloc fds)).close (k.alloc fds), ?_,
                        rfl, rfl, rfl, rfl⟩
                      simp [endpointSocket, newSocket, given, found, made, done, start]
                  | group | typeError | valueError | indexError | notImplemented | panic | other =>
                      refine ⟨_, (start fds).socket (k.alloc fds), ?_, rfl, rfl, rfl, rfl⟩
                      simp [endpointSocket, newSocket, given, found, made, done, start]

theorem call_dropOn (fd : Nat) (kept : Bool) (r : Except Exn Unit) (w : World) :
    Raising.call (dropOn fd kept r) w =
      match r with
      | .ok () => (.ok (), w)
      | .error e => (.error e, if kept then w else w.drop fd) := by
  cases r with
  | ok => simp [dropOn]
  | error e => cases kept <;> simp [dropOn]

/-- The endpoint of a call that returns, with the set-up behind it. -/
theorem endpoint_of_ok {fds : Finset Nat} {e : Endpoint}
    (returned : (Raising.call (createDatagramEndpoint k loop a env) (start fds)).1 = .ok e) :
    prepared a env fds = .ok e.toSetup ∧ ∃ host, remoteAddr e.rAddr = .ok host := by
  rcases call_endpointSocket k a env fds with ⟨err, w, run, -, -, -⟩ | ⟨fd, setup, run, ready⟩
  · simp [createDatagramEndpoint, run] at returned
  · cases taken : remoteAddr setup.rAddr with
    | error err => simp [createDatagramEndpoint, run, udpConn, taken] at returned
    | ok host =>
        cases loop with
        | tokio => simp [createDatagramEndpoint, run, udpConn, taken] at returned
        | rloop =>
            cases first : fromPy env host with
            | error err =>
                simp [createDatagramEndpoint, run, udpConn, taken, call_dropOn, first] at returned
            | ok =>
                cases second : env.connectionMade with
                | error err =>
                    simp [createDatagramEndpoint, run, udpConn, taken, call_dropOn, first, second]
                      at returned
                | ok =>
                    simp only [createDatagramEndpoint, run, udpConn, taken, call_dropOn, first,
                      second, Raising.call_bind, Raising.andThen_ok, Raising.call_lift,
                      Raising.call_modify, Raising.call_pure, Except.ok.injEq] at returned
                    cases returned
                    exact ⟨ready, host, taken⟩

/-- A call that returns has made the endpoint that was asked for just if it did not have to
resolve two addresses; if it had to, the endpoint is not bound and talks to its own local
address. It never talks to an address of more than two parts. -/
theorem datagram_endpoint_as_requested_iff {fds : Finset Nat} {e : Endpoint}
    (returned : (Raising.call (createDatagramEndpoint k loop a env) (start fds)).1 = .ok e) :
    (AsRequested a env e.toSetup ↔ a.family = afUnix ∨ overrides a = false) ∧
      (overrides a = true → a.family ≠ afUnix → e.bound = none ∧
        e.rAddr = named a env a.localAddr) ∧
      (e.rAddr = none ∨ ∃ host port, e.rAddr = some (.ip (.inet host port))) ∧
      e.connected = if a.allowBroadcast then none else e.rAddr := by
  obtain ⟨ready, host, taken⟩ := endpoint_of_ok returned
  have pair : e.rAddr = none ∨ ∃ host port, e.rAddr = some (.ip (.inet host port)) := by
    unfold remoteAddr at taken
    split at taken
    next none => exact .inl none
    next host port there => exact .inr ⟨host, port, there⟩
    next => cases taken
    next => cases taken
  unfold prepared at ready
  cases given : a.sock with
  | some own =>
      cases mine : ownSocket a own fds with
      | error err =>
          simp only [given, mine, Except.map] at ready
          cases ready
      | ok r =>
          obtain ⟨-, bare, noLocal, noRemote⟩ := ownSocket_ok mine
          have one : overrides a = false := by simp [overrides, noLocal]
          simp only [given, mine, Except.map, bare, Except.ok.injEq] at ready
          rw [AsRequested, named_falsy noLocal, named_falsy noRemote, ← ready, one]
          exact ⟨iff_of_true ⟨rfl, rfl⟩ (.inr rfl), fun both => (by cases both), .inl rfl, by simp⟩
  | none =>
      cases found : addrInfo a env with
      | error err =>
          simp only [given, found, bind, Except.bind] at ready
          cases ready
      | ok info =>
          cases made : env.socket with
          | error err =>
              simp only [given, found, made, bind, Except.bind] at ready
              cases ready
          | ok =>
              simp only [given, found, made, bind, Except.bind] at ready
              refine ⟨?_, fun both inet => ?_, pair, ?_⟩
              · rw [AsRequested, setUp_ok ready]
                exact addrInfo_named_iff found
              · obtain ⟨laddr, raddr⟩ := addrInfo_overridden found both inet
                rw [setUp_ok ready]
                refine ⟨?_, raddr⟩
                rw [AddrInfo.setup, laddr, Option.filter_none]
              · rw [setUp_ok ready]
                rfl

/-- Every descriptor has one owner, a Python socket of the program or the transport, which
owns it through its stream and its own Python socket; the process is gone where it panics. -/
def Sole (fds : Finset Nat) : Except Exn Endpoint × World → Prop
  | (.ok e, w) =>
      w.fds = insert e.fd fds ∧ w.streams = {e.fd} ∧ w.wrappers = {e.fd} ∧
        w.sockets = w.fds.erase e.fd
  | (.error .panic, _) => True
  | (.error _, w) => w.streams = ∅ ∧ w.wrappers = ∅ ∧ w.sockets = w.fds

/-- The transport is there and `connection_made` raises. -/
def interrupted (a : Args) (env : Env) (fds : Finset Nat) : Bool :=
  match prepared a env fds with
  | .error _ => false
  | .ok setup =>
      match remoteAddr setup.rAddr with
      | .error _ => false
      | .ok host =>
          match env.connectionMade with
          | .ok () | .error .panic => false
          | .error _ => (fromPy env host).isOk

theorem fromPy_panics {host : Option String} {e : Exn} (raised : fromPy env host = .error e) :
    e = .panic := by
  unfold fromPy at raised
  split at raised
  · cases raised
    rfl
  · split at raised
    · cases raised
      rfl
    · cases raised

theorem sole_of_error {e : Exn} {fds : Finset Nat} (streams : w.streams = ∅)
    (wrappers : w.wrappers = ∅) (sockets : w.sockets = w.fds) : Sole fds (.error e, w) := by
  cases e with
  | panic => trivial
  | os | group | typeError | valueError | indexError | notImplemented
  | other => exact ⟨streams, wrappers, sockets⟩

/-- The transport as `connection_made` finds it. -/
def handedOver (fds : Finset Nat) (fd : Nat) : World := (((start fds).socket fd).adopt fd).wrap fd

/-- A number that a Python socket still has, although it is the transport's or closed. -/
theorem interrupted_not_sole {e : Exn} {fds : Finset Nat} {fd : Nat} (kept : Bool)
    (raised : e ≠ .panic) : ¬ Sole fds
    (.error e, if kept then handedOver fds fd else (handedOver fds fd).drop fd) := by
  have there : fd ∈ insert fd fds := Finset.mem_insert_self fd fds
  cases e with
  | panic => exact absurd rfl raised
  | os | group | typeError | valueError | indexError | notImplemented | other =>
      rintro ⟨streams, -, sockets⟩
      cases kept with
      | true => exact Finset.insert_ne_empty fd ∅ streams
      | false =>
          have equal : insert fd fds = (insert fd fds).erase fd := sockets
          exact Finset.notMem_erase fd (insert fd fds) (equal ▸ there)

/-- Every call leaves each descriptor with one owner, but for those on RLoop in which
`connection_made` raises: the Python socket then shares the descriptor with a transport that
is kept, or will close a number that the transport has closed. -/
theorem create_datagram_endpoint_sole_iff (k : Kernel) (loop : LoopType) (a : Args) (env : Env)
    (fds : Finset Nat) : Sole fds (Raising.call (createDatagramEndpoint k loop a env) (start fds)) ↔
      (loop = .rloop → interrupted a env fds = false) := by
  rcases call_endpointSocket k a env fds with
    ⟨e, w, run, ready, sockets, streams, wrappers⟩ | ⟨fd, setup, run, ready⟩
  · refine iff_of_true ?_ fun _ => by simp [interrupted, ready]
    simpa [createDatagramEndpoint, run] using sole_of_error streams wrappers sockets
  · cases taken : remoteAddr setup.rAddr with
    | error e =>
        refine iff_of_true ?_ fun _ => by simp [interrupted, ready, taken]
        simpa [createDatagramEndpoint, run, udpConn, taken] using sole_of_error rfl rfl rfl
    | ok host =>
        cases loop with
        | tokio =>
            refine iff_of_true ?_ fun other => by cases other
            simpa [createDatagramEndpoint, run, udpConn, taken] using sole_of_error rfl rfl rfl
        | rloop =>
            rw [imp_iff_right rfl]
            cases first : fromPy env host with
            | error e =>
                have panics := fromPy_panics first
                subst panics
                refine iff_of_true ?_ ?_
                · simp [createDatagramEndpoint, run, udpConn, taken, call_dropOn, first, Sole]
                · simp only [interrupted, ready, taken, first]
                  split <;> rfl
            | ok =>
                cases second : env.connectionMade with
                | ok =>
                    refine iff_of_true ?_ (by simp only [interrupted, ready, taken, second])
                    have whole : Raising.call (createDatagramEndpoint k .rloop a env) (start fds) =
                        (.ok ⟨setup, fd⟩, (handedOver fds fd).detach fd) := by
                      simp [createDatagramEndpoint, run, udpConn, taken, call_dropOn, first, second,
                        handedOver]
                    rw [whole]
                    exact ⟨rfl, insert_empty_eq fd, insert_empty_eq fd, rfl⟩
                | error e =>
                    have whole : Raising.call (createDatagramEndpoint k .rloop a env) (start fds) =
                        (.error e, if env.kept then handedOver fds fd
                          else (handedOver fds fd).drop fd) := by
                      simp [createDatagramEndpoint, run, udpConn, taken, call_dropOn, first, second,
                        handedOver]
                    rw [whole]
                    by_cases panic : e = .panic
                    · subst panic
                      exact iff_of_true trivial (by simp only [interrupted, ready, taken, second])
                    · refine iff_of_false (interrupted_not_sole env.kept panic) ?_
                      simp only [interrupted, ready, taken, second, first]
                      exact Bool.noConfusion

/-- Every call succeeds, and a name is its own address. -/
def plain : Env where
  resolve := fun addr =>
    match addr with
    | .pair host _ => .ok [⟨2, 17, .inet host 9000⟩]
    | _ => .error badFd
  socket := .ok ()
  setReuseport := .ok ()
  setBroadcast := .ok ()
  bind := fun _ => .ok ()
  connect := fun _ => .ok ()
  ipAddr := fun _ => true
  factory := true
  connectionMade := .ok ()
  kept := false

def bothAddresses : Args :=
  ⟨some (.pair "127.0.0.1" "9000"), some (.pair "10.0.0.1" "9000"), 0, 0, 0, false, false, none⟩

/-- The endpoint is connected to its local address, and not bound. -/
theorem both_addresses_swapped :
    (Raising.call (createDatagramEndpoint CreateConnection.lastKernel .rloop bothAddresses plain)
      (start ∅)).1 = .ok ⟨⟨none, some (.ip (.inet "127.0.0.1" 9000)),
        some (.ip (.inet "127.0.0.1" 9000))⟩, 1⟩ ∧
    ¬ AsRequested bothAddresses plain
      ⟨none, some (.ip (.inet "127.0.0.1" 9000)), some (.ip (.inet "127.0.0.1" 9000))⟩ := by
  have returned : (Raising.call (createDatagramEndpoint CreateConnection.lastKernel .rloop
    bothAddresses plain)
      (start ∅)).1 = .ok ⟨⟨none, some (.ip (.inet "127.0.0.1" 9000)),
        some (.ip (.inet "127.0.0.1" 9000))⟩, 1⟩ := rfl
  exact ⟨returned, (datagram_endpoint_as_requested_iff returned).1.not.mpr (by decide)⟩

end TokioLoop.CreateDatagramEndpoint
