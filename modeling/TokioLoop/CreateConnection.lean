import Mathlib.Order.Lattice.Nat
import TokioLoop.AddrInfos
import TokioLoop.LoopCreateServer

/-!
`create_connection` without happy eyeballs: the addresses are tried in turn by
`_connect_sock`, each with the local addresses of its family, and the socket of the first
that connects is detached and handed to `_tcp_conn` of the loop. An address comes with
what its system calls give, and `lower` is `str.lower`.

A descriptor that is open has owners that will close it, or is leaked. A transport owns
its descriptor twice: through its stream, and through a Python socket that it makes of the
number for `get_extra_info`.
-/
namespace TokioLoop.CreateConnection

open CreateServer (Kernel)

/-- The arguments an `OSError` is made of, a message alone or an error number and a message. -/
inductive OsError where
  | plain (message : String)
  | numbered (errno : Option Int) (message : String)
  deriving DecidableEq, Repr

def OsError.errno : OsError → Option Int
  | .plain _ => none
  | .numbered errno _ => errno

def OsError.str : OsError → String
  | .plain message => message
  | .numbered none message => "[Errno None] " ++ message
  | .numbered (some n) message => "[Errno " ++ toString n ++ "] " ++ message

/-- What is raised; a panic ends the process in a release build and unwinds in others. -/
inductive Exn where
  | os (exc : OsError)
  | group (message : String) (exceptions : List OsError)
  | typeError (message : String)
  | valueError (message : String)
  | indexError (message : String)
  | notImplemented (message : String)
  | panic
  | other (name : String)
  deriving DecidableEq, Repr

/-- The socket address of a local info; `repr` is how it is printed. -/
abbrev LocalInfo := AddrInfos.AddrInfo Nat String

/-- How the family of an address is printed, and how `socket`, the `bind` to each local
address and `sock_connect` end for it. -/
structure Calls where
  family : String
  socket : Except Exn Unit
  bind : LocalInfo → Except Exn Unit
  connect : Except Exn Unit

abbrev Info := AddrInfos.AddrInfo Nat Calls

/-- The open descriptors, and those of them that a Python socket of the program, the stream
of a transport and the Python socket of a transport own. -/
structure World where
  fds : Finset Nat
  sockets : Finset Nat
  streams : Finset Nat
  wrappers : Finset Nat
  sockets_open : sockets ⊆ fds
  streams_open : streams ⊆ fds
  wrappers_open : wrappers ⊆ fds

/-- `exceptions`, whose last list is `my_exceptions` of the attempt that runs. -/
structure Call where
  world : World
  exceptions : List (List OsError)

abbrev Py (α : Type) := Raising Call Exn α

/-- `socket.socket` -/
def World.socket (w : World) (fd : Nat) : World where
  fds := insert fd w.fds
  sockets := insert fd w.sockets
  streams := w.streams
  wrappers := w.wrappers
  sockets_open := Finset.insert_subset_insert fd w.sockets_open
  streams_open := w.streams_open.trans (Finset.subset_insert fd w.fds)
  wrappers_open := w.wrappers_open.trans (Finset.subset_insert fd w.fds)

/-- All owners of the descriptor close it, the first with effect. -/
def World.close (w : World) (fd : Nat) : World where
  fds := w.fds.erase fd
  sockets := w.sockets.erase fd
  streams := w.streams.erase fd
  wrappers := w.wrappers.erase fd
  sockets_open := Finset.erase_subset_erase fd w.sockets_open
  streams_open := Finset.erase_subset_erase fd w.streams_open
  wrappers_open := Finset.erase_subset_erase fd w.wrappers_open

/-- `detach` leaves the descriptor to whoever has its number. -/
def World.detach (w : World) (fd : Nat) : World :=
  { w with
    sockets := w.sockets.erase fd
    sockets_open := (Finset.erase_subset fd w.sockets).trans w.sockets_open }

/-- `Socket::from_raw_fd` -/
def World.adopt (w : World) (fd : Nat) : World :=
  { w with streams := insert fd w.streams ∩ w.fds, streams_open := Finset.inter_subset_right }

/-- `SocketWrapper::from_fd` on RLoop, and the call of `socket.socket` on TokioLoop. -/
def World.wrap (w : World) (fd : Nat) : World :=
  { w with wrappers := insert fd w.wrappers ∩ w.fds, wrappers_open := Finset.inter_subset_right }

def Call.begin (c : Call) : Call := { c with exceptions := c.exceptions ++ [[]] }

def Call.mine (c : Call) : List OsError := c.exceptions.getLastD []

def Call.report (c : Call) (exc : OsError) : Call :=
  { c with exceptions := c.exceptions.dropLast ++ [c.mine ++ [exc]] }

/-- `my_exceptions.pop()` -/
def Call.pop (c : Call) : Call :=
  { c with exceptions := c.exceptions.dropLast ++ [c.mine.dropLast] }

variable (lower : String → String)

/-- What is kept of an `OSError` of `bind`. -/
def bindError (laddr : String) (exc : OsError) : OsError :=
  .numbered exc.errno ("error while attempting to bind on address " ++ laddr ++ ": " ++ lower
    exc.str)

def noLocalAddress (family : String) : OsError :=
  .plain ("no matching local address with family=" ++ family ++ " found")

/-- The loop over the local addresses; it says whether it was left by `break`. -/
def bindLocal (info : Info) : List LocalInfo → Py Bool
  | [] => pure false
  | l :: rest =>
      if l.1 ≠ info.1 then bindLocal info rest
      else
        match info.2.bind l with
        | .ok () => pure true
        | .error (.os exc) => do
            modify fun c => c.report (bindError lower l.2 exc)
            bindLocal info rest
        | .error e => throw e

/-- The body of the `try` behind the creation of the socket. -/
def bindAndConnect (info : Info) (localAddrInfos : Option (List LocalInfo)) : Py Unit := do
  match localAddrInfos with
  | none => pure ()
  | some infos =>
      if !(← bindLocal lower info infos) then
        match (← get).mine.getLast? with
        | some exc =>
            modify Call.pop
            throw (.os exc)
        | none => throw (.os (noLocalAddress info.2.family))
  Raising.lift info.2.connect

def closeSock : Option Nat → Py Unit
  | none => pure ()
  | some fd => modify fun c => { c with world := c.world.close fd }

/-- The two `except` clauses. -/
def connectFailed {α : Type} (sock : Option Nat) (e : Exn) : Py α := do
  match e with
  | .os exc => modify fun c => c.report exc
  | _ => pure ()
  closeSock sock
  throw e

/-- `_connect_sock` -/
def connectSock (k : Kernel) (localAddrInfos : Option (List LocalInfo)) (info : Info) : Py Nat := do
  modify Call.begin
  match info.2.socket with
  | .error e => connectFailed none e
  | .ok () =>
      let fd := k.alloc (← get).world.fds
      modify fun c => { c with world := c.world.socket fd }
      try bindAndConnect lower info localAddrInfos
      catch e => connectFailed (some fd) e
      return fd

/-- The loop over the addresses, and `sock` behind it. -/
def connectFirst (k : Kernel) (localAddrInfos : Option (List LocalInfo)) : List Info →
    Py (Option Nat)
  | [] => pure none
  | info :: infos => do
      try some <$> connectSock lower k localAddrInfos info
      catch
        | .os _ => connectFirst k localAddrInfos infos
        | e => throw e

/-- What is raised where no address connects. -/
def combined (allErrors : Bool) (exceptions : List OsError) : Exn :=
  if allErrors then
    if exceptions.isEmpty then .valueError
      "second argument (exceptions) must be a non-empty sequence"
    else .group "create_connection failed" exceptions
  else
    match exceptions with
    | [] => .indexError "list index out of range"
    | exc :: rest =>
        if rest.isEmpty then .os exc
        else if rest.all fun other => other.str == exc.str then .os exc
        else .os (.plain ("Multiple exceptions: " ++ ", ".intercalate
          ((exc :: rest).map OsError.str)))

/-- A socket of the caller's; `fileno` is `none` for the `-1` of a closed one. -/
structure Sock where
  fileno : Option Nat
  stream : Bool
  repr : String

/-- What the checks look at; an `ssl` that is given counts by its truth value. -/
structure Args where
  host : Option String
  port : Option String
  ssl : Option Bool
  serverHostname : Option String
  sslHandshakeTimeout : Bool
  sslShutdownTimeout : Bool
  sock : Option Sock
  localAddr : Bool
  interleave : Option Int
  allErrors : Bool

/-- What the call finds: the resolved addresses, whether a server name is one, whether the
socket can be made into a stream of the runtime, how the calls of the protocol factory
end with the lookup of the methods, how `connection_made` ends, and whether something the
protocol has stored still refers to the transport when an exception of it is gone. -/
structure Env where
  infos : Except Exn (List Info)
  laddrInfos : Except Exn (List LocalInfo)
  serverName : String → Bool
  stream : Except Exn Unit
  factory : Nat → Except Exn Unit
  connectionMade : Except Exn Unit
  kept : Bool

/-- `bool(ssl)` -/
def Args.secure (a : Args) : Bool := a.ssl.getD false

/-- The checks on top of the call; what is left is the server name. -/
def checkSsl (a : Args) : Except Exn (Option String) := do
  if a.serverHostname.isSome && !a.secure then
    throw (.valueError "server_hostname is only meaningful with ssl")
  if a.serverHostname.isNone && a.secure && (a.host.isNone || a.host == some "") then
    throw (.valueError "You must set server_hostname when using ssl without a host")
  if a.sslHandshakeTimeout && !a.secure then
    throw (.valueError "ssl_handshake_timeout is only meaningful with ssl")
  if a.sslShutdownTimeout && !a.secure then
    throw (.valueError "ssl_shutdown_timeout is only meaningful with ssl")
  return if a.serverHostname.isNone && a.secure then a.host else a.serverHostname

def emptyList : Exn := .os (.plain "getaddrinfo() returned empty list")

def ofInterleave : AddrInfos.Error → Exn
  | .osError message => .os (.plain message)
  | .indexError message => .indexError message

def resolvedLocal (a : Args) (env : Env) : Except Exn (Option (List LocalInfo)) :=
  if a.localAddr then
    match env.laddrInfos with
    | .error e => .error e
    | .ok laddrInfos => if laddrInfos.isEmpty then .error emptyList else .ok (some laddrInfos)
  else .ok none

/-- The addresses in the order in which they are tried. -/
def interleaved (interleave : Option Int) (infos : List Info) : Except Exn (List Info) :=
  match interleave with
  | none => .ok infos
  | some n =>
      if n = 0 then .ok infos else (AddrInfos.interleaveAddrinfos infos n).mapError ofInterleave

def resolved (a : Args) (env : Env) : Except Exn (List Info × Option (List LocalInfo)) := do
  let infos ← env.infos
  if infos.isEmpty then throw emptyList
  let laddrInfos ← resolvedLocal a env
  let infos ← interleaved a.interleave infos
  return (infos, laddrInfos)

/-- The socket of the caller's. -/
def checkSock : Option Sock → Except Exn (Option Nat)
  | none => .error (.valueError "host and port was not specified and no sock specified")
  | some s =>
      if s.stream then .ok s.fileno else .error
        (.valueError ("A Stream Socket was expected, got " ++ s.repr))

def Args.addressed (a : Args) : Bool := a.host.isSome || a.port.isSome

/-- The socket that is handed over. -/
def obtainSock (k : Kernel) (a : Args) (env : Env) : Py (Option Nat) := do
  if a.addressed then
    if a.sock.isSome then throw (.valueError
      "host/port and sock can not be specified at the same time")
    let (infos, laddrInfos) ← Raising.lift (resolved a env)
    match ← connectFirst lower k laddrInfos infos with
    | some fd => pure (some fd)
    | none => throw (combined a.allErrors (← get).exceptions.flatten)
  else Raising.lift (checkSock a.sock)

def badFd : Exn := .os (.numbered (some 9) "Bad file descriptor")

/-- `setblocking(False)`, which fails on a descriptor that is not open. -/
def setblocking (fileno : Option Nat) : Py Nat := do
  match fileno with
  | none => throw badFd
  | some fd => if fd ∈ (← get).world.fds then return fd else throw badFd

def acquireSock (k : Kernel) (a : Args) (env : Env) : Py Nat := do
  let sock ← obtainSock lower k a env
  setblocking sock

inductive LoopType where
  | rloop
  | tokio
  deriving DecidableEq, Repr

/-- An error drops what there is of the transport, unless somebody keeps it. -/
def dropOn (fd : Nat) (kept : Bool) (r : Except Exn Unit) : Py Unit :=
  match r with
  | .ok () => pure ()
  | .error e => do
      if !kept then modify fun c => { c with world := c.world.close fd }
      throw e

/-- An `unwrap`. -/
def unwrapped : Except Exn Unit → Except Exn Unit
  | .ok () => .ok ()
  | .error _ => .error .panic

/-- What `_tcp_conn` of RLoop does with the transport it has made. With TLS `connection_made`
waits for the handshake. -/
def rloopAttach (a : Args) (env : Env) (serverHostname : Option String) (fd : Nat) : Py Unit :=
  match a.ssl, serverHostname with
  | some _, some name => dropOn fd false (if env.serverName name then .ok () else .error .panic)
  | some _, none | none, _ => dropOn fd env.kept env.connectionMade

/-- `_tcp_conn`. On TokioLoop the factory is called before the socket is taken and once more
behind that, and the I/O task keeps the transport when `connection_made` raises. -/
def tcpConn (loop : LoopType) (a : Args) (env : Env) (serverHostname : Option String)
    (fd : Nat) : Py Unit := do
  match loop with
  | .rloop =>
      modify fun c => { c with world := c.world.adopt fd }
      dropOn fd false (unwrapped (env.factory 0))
      modify fun c => { c with world := c.world.wrap fd }
      rloopAttach a env serverHostname fd
  | .tokio =>
      if a.ssl.isSome then throw (.notImplemented "SSL/TLS not yet supported in TokioLoop")
      Raising.lift (env.factory 0)
      modify fun c => { c with world := c.world.adopt fd }
      dropOn fd false (env.stream >>= fun _ => env.factory 1)
      modify fun c => { c with world := c.world.wrap fd }
      dropOn fd true env.connectionMade

/-- `create_connection`; the descriptor stands for the transport. -/
def createConnection (k : Kernel) (loop : LoopType) (a : Args) (env : Env) : Py Nat := do
  let serverHostname ← Raising.lift (checkSsl a)
  let fd ← acquireSock lower k a env
  modify fun c => { c with world := c.world.detach fd }
  tcpConn loop a env (if a.secure then serverHostname else none) fd
  return fd

/-- What an outcome adds to the exceptions. -/
def errors : Except Exn Unit → List OsError
  | .error (.os exc) => [exc]
  | _ => []

def ownAddresses (info : Info) (localAddrInfos : List LocalInfo) : List LocalInfo :=
  localAddrInfos.filter fun l => l.1 == info.1

/-- The exception kept of a local address that cannot be bound. -/
def refusal (info : Info) (l : LocalInfo) : Option OsError :=
  match info.2.bind l with
  | .error (.os exc) => some (bindError lower l.2 exc)
  | _ => none

/-- The refusals lower up to the first local address that is not refused. -/
def refusals (info : Info) (localAddrInfos : List LocalInfo) : List OsError :=
  ((ownAddresses info localAddrInfos).takeWhile fun l => (refusal lower info l).isSome).filterMap
    (refusal lower info)

/-- How `bind` to the first local address ends that is not refused. -/
def settledBind (info : Info) (localAddrInfos : List LocalInfo) : Option (Except Exn Unit) :=
  ((ownAddresses info localAddrInfos).find? fun l => (refusal lower info l).isNone).map info.2.bind

/-- How the attempt at one address ends, and the exceptions of it. -/
def attempt (localAddrInfos : Option (List LocalInfo))
    (info : Info) : Except Exn Unit × List OsError :=
  match info.2.socket with
  | .error e => (.error e, errors (.error e))
  | .ok () =>
      match localAddrInfos with
      | none => (info.2.connect, errors info.2.connect)
      | some infos =>
          match settledBind lower info infos with
          | some (.ok ()) => (info.2.connect, refusals lower info infos ++ errors info.2.connect)
          | some (.error e) => (.error e, refusals lower info infos)
          | none =>
              match (refusals lower info infos).getLast? with
              | some exc => (.error (.os exc), refusals lower info infos)
              | none =>
                  (.error (.os (noLocalAddress info.2.family)), [noLocalAddress info.2.family])

variable {lower : String → String} {k : Kernel} {info : Info} {infos : List Info}
  {localAddrInfos : Option (List LocalInfo)} {w : World} {c : Call} {before : List (List OsError)}
  {mine : List OsError} {a : Args} {env : Env}

theorem socket_close {fd : Nat} (fresh : fd ∉ w.fds) : (w.socket fd).close fd = w := by
  have unowned : fd ∉ w.sockets := fun owned => fresh (w.sockets_open owned)
  have unused : fd ∉ w.streams := fun used => fresh (w.streams_open used)
  have unwrapped : fd ∉ w.wrappers := fun used => fresh (w.wrappers_open used)
  simp only [World.socket, World.close, Finset.erase_insert fresh, Finset.erase_insert unowned,
    Finset.erase_eq_of_notMem unused, Finset.erase_eq_of_notMem unwrapped]

theorem report_eq (exc : OsError) :
    (Call.mk w (before ++ [mine])).report exc = ⟨w, before ++ [mine ++ [exc]]⟩ := by
  simp [Call.report, Call.mine]

theorem pop_eq : (Call.mk w (before ++ [mine])).pop = ⟨w, before ++ [mine.dropLast]⟩ := by
  simp [Call.pop, Call.mine]

theorem mine_eq : (Call.mk w (before ++ [mine])).mine = mine := by
  simp [Call.mine]

theorem ownAddresses_cons (l : LocalInfo) (rest : List LocalInfo) :
    ownAddresses info (l :: rest) = if l.1 = info.1 then l :: ownAddresses info rest
    else ownAddresses info rest := by
  simp only [ownAddresses, List.filter_cons, beq_iff_eq]

theorem local_other {l : LocalInfo} (rest : List LocalInfo) (other : l.1 ≠ info.1) :
    settledBind lower info (l :: rest) = settledBind lower info rest ∧
    refusals lower info (l :: rest) = refusals lower info rest := by
  simp only [settledBind, refusals, ownAddresses_cons, other, if_false, and_self]

theorem local_refused {l : LocalInfo} {exc : OsError} (rest : List LocalInfo) (same : l.1 = info.1)
    (refused : refusal lower info l = some exc) :
    settledBind lower info (l :: rest) = settledBind lower info rest ∧
      refusals lower info (l :: rest) = exc :: refusals lower info rest := by
  simp only [settledBind, refusals, ownAddresses_cons, same, if_true, List.find?_cons,
    List.takeWhile_cons, refused, Option.isNone_some, Option.isSome_some, List.filterMap_cons,
    and_self]

theorem local_settled (lower : String → String) {l : LocalInfo} (rest : List LocalInfo)
    (same : l.1 = info.1) (settled : refusal lower info l = none) :
    settledBind lower info (l :: rest) = some (info.2.bind l) ∧
    refusals lower info (l :: rest) = [] := by
  simp [settledBind, refusals, ownAddresses_cons, same, settled]

/-- The local addresses are tried in turn up to the first that is not refused. -/
theorem call_bindLocal (lower : String → String) (info : Info) (w : World)
    (before : List (List OsError)) : ∀ (infos : List LocalInfo) (mine : List OsError),
    Raising.call (bindLocal lower info infos) ⟨w, before ++ [mine]⟩ =
      ((match settledBind lower info infos with
        | some (.ok ()) => .ok true
        | some (.error e) => .error e
        | none => .ok false), ⟨w, before ++ [mine ++ refusals lower info infos]⟩) := by
  intro infos
  induction infos with
  | nil => intro mine; simp [bindLocal, settledBind, refusals, ownAddresses]
  | cons l rest ih =>
      intro mine
      rw [bindLocal]
      by_cases same : l.1 = info.1
      · rw [if_neg (not_not_intro same)]
        cases bound : info.2.bind l with
        | ok =>
            obtain ⟨settled, none⟩ := local_settled lower rest same (by simp [refusal, bound])
            simp [settled, none, bound]
        | error e =>
            cases e with
            | os exc =>
                have refused : refusal lower info l = some (bindError lower l.2 exc) := by
                  simp [refusal, bound]
                obtain ⟨settled, more⟩ := local_refused rest same refused
                simp [settled, more, report_eq, ih]
            | group | typeError | valueError | indexError | notImplemented | panic | other =>
                obtain ⟨settled, none⟩ := local_settled lower rest same (by simp [refusal, bound])
                simp [settled, none, bound]
      · obtain ⟨settled, more⟩ := local_other rest same
        rw [if_pos same, ih, settled, more]

/-- A bind that settles is not refused. -/
theorem errors_settled {infos : List LocalInfo} {r : Except Exn Unit}
    (settled : settledBind lower info infos = some r) : errors r = [] := by
  obtain ⟨l, found, rfl⟩ := Option.map_eq_some_iff.mp settled
  have fine := List.find?_some found
  cases bound : info.2.bind l with
  | ok => rfl
  | error e =>
      cases e with
      | os exc => simp [refusal, bound] at fine
      | group | typeError | valueError | indexError | notImplemented | panic | other => rfl

/-- The body of the `try` ends as the attempt does, with the exceptions but for the last. -/
theorem call_bindAndConnect (lower : String → String) (made : info.2.socket = .ok ())
    (localAddrInfos : Option (List LocalInfo)) (w : World) (before : List (List OsError)) :
    ∃ r mine, Raising.call (bindAndConnect lower info localAddrInfos)
    ⟨w, before ++ [[]]⟩ = (r, ⟨w, before ++ [mine]⟩) ∧
      attempt lower localAddrInfos info = (r, mine ++ errors r) := by
  cases localAddrInfos with
  | none => exact ⟨info.2.connect, [], by simp [bindAndConnect], by simp [attempt, made]⟩
  | some infos =>
      have bound := call_bindLocal lower info w before infos []
      rw [List.nil_append] at bound
      cases settled : settledBind lower info infos with
      | some r =>
          rw [settled] at bound
          cases r with
          | ok =>
              exact ⟨info.2.connect, refusals lower info infos, by simp [bindAndConnect, bound], by
                simp [attempt, made, settled]⟩
          | error e =>
              refine ⟨.error e, refusals lower info infos, by simp [bindAndConnect, bound], ?_⟩
              simp [attempt, made, settled, errors_settled settled]
      | none =>
          rw [settled] at bound
          cases last : (refusals lower info infos).getLast? with
          | some exc =>
              obtain ⟨front, split⟩ := List.getLast?_eq_some_iff.mp last
              refine ⟨.error (.os exc), front, ?_, ?_⟩
              · simp [bindAndConnect, bound, split, mine_eq, pop_eq]
              · simp [attempt, made, settled, split, errors]
          | none =>
              have empty := List.getLast?_eq_none_iff.mp last
              refine ⟨.error (.os (noLocalAddress info.2.family)), [], ?_, ?_⟩
              · simp [bindAndConnect, bound, empty, mine_eq]
              · simp [attempt, made, settled, empty, errors]

/-- The `except` clauses record what they catch and close the socket. -/
theorem call_connectFailed {α : Type} (sock : Option Nat) (e : Exn) :
    Raising.call (connectFailed sock e : Py α) ⟨w, before ++ [mine]⟩ =
      (.error e, ⟨sock.elim w w.close, before ++ [mine ++ errors (.error e)]⟩) := by
  cases sock with
  | none => cases e <;> simp [connectFailed, closeSock, errors, report_eq]
  | some fd => cases e <;> simp [connectFailed, closeSock, errors, report_eq]

/-- One attempt leaves a socket or nothing, and its exceptions. -/
theorem call_connectSock (lower : String → String) (k : Kernel)
    (localAddrInfos : Option (List LocalInfo)) (info : Info) (w : World)
    (before : List (List OsError)) :
    Raising.call (connectSock lower k localAddrInfos info) ⟨w, before⟩ =
      match attempt lower localAddrInfos info with
      | (.ok (), mine) => (.ok (k.alloc w.fds), ⟨w.socket (k.alloc w.fds), before ++ [mine]⟩)
      | (.error e, mine) => (.error e, ⟨w, before ++ [mine]⟩) := by
  have fresh := k.fresh w.fds
  cases made : info.2.socket with
  | error e =>
      simp only [connectSock, made, Raising.call_bind, Raising.call_modify, Raising.andThen_ok,
        Call.begin, call_connectFailed]
      simp [attempt, made]
  | ok =>
      obtain ⟨r, mine, body, ends⟩ := call_bindAndConnect lower made localAddrInfos
        (w.socket (k.alloc w.fds)) before
      cases r with
      | ok => simp [connectSock, made, Call.begin, body, ends, errors]
      | error e =>
          rw [ends]
          simp [connectSock, made, Call.begin, body, call_connectFailed, socket_close fresh]

/-- The attempt fails with an `OSError`, so that the next address is tried. -/
def failed (lower : String → String) (localAddrInfos : Option (List LocalInfo))
    (info : Info) : Bool :=
  match (attempt lower localAddrInfos info).1 with
  | .error (.os _) => true
  | _ => false

/-- The exceptions of some attempts, a list for each. -/
def exceptionsOf (lower : String → String) (localAddrInfos : Option (List LocalInfo))
    (infos : List Info) : List (List OsError) :=
  infos.map fun info => (attempt lower localAddrInfos info).2

/-- The first address whose attempt does not fail decides, and none behind it is tried. -/
theorem call_connectFirst (lower : String → String) (k : Kernel)
    (localAddrInfos : Option (List LocalInfo))
    (w : World) : ∀ (infos : List Info) (before : List (List OsError)),
      Raising.call (connectFirst lower k localAddrInfos infos) ⟨w, before⟩ =
        match infos.find? fun info => !failed lower localAddrInfos info with
        | none => (.ok none, ⟨w, before ++ exceptionsOf lower localAddrInfos infos⟩)
        | some info =>
            let tried := exceptionsOf lower localAddrInfos
              (infos.takeWhile (failed lower localAddrInfos) ++ [info])
            match (attempt lower localAddrInfos info).1 with
            | .ok () => (.ok (some (k.alloc w.fds)), ⟨w.socket (k.alloc w.fds), before ++ tried⟩)
            | .error e => (.error e, ⟨w, before ++ tried⟩) := by
  intro infos
  induction infos with
  | nil => intro before; simp [connectFirst, exceptionsOf]
  | cons info infos ih =>
      intro before
      have one := call_connectSock lower k localAddrInfos info w before
      rcases ends : attempt lower localAddrInfos info with ⟨r, mine⟩
      rw [ends] at one
      cases r with
      | ok => simp [connectFirst, one, failed, ends, exceptionsOf]
      | error e =>
          cases e with
          | os exc =>
              have rest := ih (before ++ [mine])
              simp [connectFirst, one, failed, ends, rest, exceptionsOf]
          | group | typeError | valueError | indexError | notImplemented | panic | other =>
              simp [connectFirst, one, failed, ends, exceptionsOf]

/-- The descriptors that are open when the call begins belong to Python sockets. -/
def start (fds : Finset Nat) : Call where
  world := ⟨fds, fds, ∅, ∅, Finset.Subset.refl fds, Finset.empty_subset fds,
      Finset.empty_subset fds⟩
  exceptions := []

/-- A call that returns has made one transport, of a new socket or of the caller's, whose
stream and Python socket own the descriptor and no other; one that raises none. What else is
open then belongs to a socket as before, and nothing is missing but the socket of the caller. -/
def Clean (a : Args) (fds : Finset Nat) : Except Exn Nat × Call → Prop
  | (.ok fd, c) =>
      c.world.fds = insert fd fds ∧ c.world.streams = {fd} ∧ c.world.wrappers = {fd} ∧
        c.world.sockets = c.world.fds.erase fd
  | (.error _, c) =>
      c.world.streams = ∅ ∧ c.world.wrappers = ∅ ∧ c.world.sockets = c.world.fds ∧
          c.world.fds ⊆ fds ∧
        ∀ fd ∈ fds, fd ∉ c.world.fds → ∃ s, a.sock = some s ∧ s.fileno = some fd

/-- `_tcp_conn` raises and leaves a transport or a descriptor without an owner. On RLoop
`connection_made` raises and the transport is kept; on TokioLoop `_tcp_conn` raises before it
takes the socket, or behind the start of the I/O task. -/
def leaves (loop : LoopType) (a : Args) (env : Env) : Bool :=
  match loop with
  | .rloop => !a.secure && (env.factory 0).isOk && !env.connectionMade.isOk && env.kept
  | .tokio =>
      a.ssl.isSome || !(env.factory 0).isOk ||
        (env.stream >>= fun _ => env.factory 1).isOk && !env.connectionMade.isOk

/-- The descriptor has left its Python socket. -/
def detached (fds : Finset Nat) (fd : Nat) : World := ((start fds).world.socket fd).detach fd

variable {fds : Finset Nat} {fd : Nat} {e : Exn} {tried : List (List OsError)}

/-- Nothing but the transport that is being made has to do with the descriptor. -/
structure World.Making (w : World) (before : Finset Nat) (fd : Nat) : Prop where
  opened : w.fds = insert fd before
  streams : w.streams ⊆ {fd}
  wrappers : w.wrappers ⊆ {fd}
  sockets : w.sockets = w.fds.erase fd

theorem insert_inter_opened {owned opened before : Finset Nat} (mine : owned ⊆ {fd})
    (same : opened = insert fd before) : insert fd owned ∩ opened = {fd} := by
  have alone : insert fd owned = {fd} := by
    rw [Finset.insert_eq, Finset.union_eq_left.mpr mine]
  rw [alone, same, Finset.singleton_inter_of_mem (Finset.mem_insert_self fd before)]

theorem World.Making.adopt (making : w.Making fds fd) :
    (w.adopt fd).Making fds fd ∧ (w.adopt fd).streams = {fd} := by
  have taken : (w.adopt fd).streams = {fd} := insert_inter_opened making.streams making.opened
  exact ⟨⟨making.opened, taken.subset, making.wrappers, making.sockets⟩, taken⟩

theorem World.Making.wrap (making : w.Making fds fd) :
    (w.wrap fd).Making fds fd ∧ (w.wrap fd).wrappers = {fd} := by
  have taken : (w.wrap fd).wrappers = {fd} := insert_inter_opened making.wrappers making.opened
  exact ⟨⟨making.opened, making.streams, taken.subset, making.sockets⟩, taken⟩

theorem call_dropOn (fd : Nat) (kept : Bool) (r : Except Exn Unit) (w : World) :
    Raising.call (dropOn fd kept r) ⟨w, tried⟩ =
      match r with
      | .ok () => (.ok (), ⟨w, tried⟩)
      | .error e => (.error e, ⟨if kept then w else w.close fd, tried⟩) := by
  cases r with
  | ok => simp [dropOn]
  | error e => cases kept <;> simp [dropOn]

theorem interleaved_perm {interleave : Option Int} {all : List Info}
    (ordered : interleaved interleave all = .ok infos) : infos.Perm all := by
  unfold interleaved at ordered
  split at ordered
  · cases ordered
    exact .refl _
  · split at ordered
    · cases ordered
      exact .refl _
    next n _ =>
      cases mixed : AddrInfos.interleaveAddrinfos all n with
      | error e =>
          rw [mixed] at ordered
          cases ordered
      | ok result =>
          rw [mixed] at ordered
          cases ordered
          exact AddrInfos.interleaveAddrinfos_perm mixed

/-- The addresses that are tried are the resolved ones, in some order. -/
theorem resolved_perm (found : resolved a env = .ok (infos, localAddrInfos)) :
    ∃ all, env.infos = .ok all ∧ all ≠ [] ∧ infos.Perm all := by
  unfold resolved at found
  cases first : env.infos with
  | error e =>
      rw [first] at found
      cases found
  | ok all =>
      cases all with
      | nil =>
          rw [first] at found
          cases found
      | cons info rest =>
          cases laddrs : resolvedLocal a env with
          | error e =>
              rw [first, laddrs] at found
              cases found
          | ok laddrs' =>
              cases ordered : interleaved a.interleave (info :: rest) with
              | error e =>
                  simp only [first, laddrs, bind, Except.bind, ordered] at found
                  cases found
              | ok result =>
                  simp only [first, laddrs, bind, Except.bind, ordered] at found
                  cases found
                  exact ⟨_, rfl, List.cons_ne_nil _ _, interleaved_perm ordered⟩

/-- The exception that an attempt fails with is the last of its exceptions. -/
theorem attempt_last {exc : OsError}
    (fails : (attempt lower localAddrInfos info).1 = .error (.os exc)) :
    (attempt lower localAddrInfos info).2.getLast? = some exc := by
  cases made : info.2.socket with
  | error e =>
      simp only [attempt, made] at fails ⊢
      cases fails
      rfl
  | ok =>
      obtain ⟨r, mine, -, ends⟩ := call_bindAndConnect lower made localAddrInfos (start ∅).world []
      rw [ends] at fails ⊢
      dsimp only at fails ⊢
      rw [fails, errors, List.getLast?_concat]

theorem attempt_failed (fails : failed lower localAddrInfos info = true) :
    (attempt lower localAddrInfos info).2 ≠ [] := by
  unfold failed at fails
  split at fails
  next exc ends =>
    intro none
    have last := attempt_last ends
    rw [none] at last
    cases last
  next => cases fails

/-- What `combined` makes of some exceptions. -/
theorem combined_cons (allErrors : Bool) (exc : OsError) (rest : List OsError) :
    combined allErrors (exc :: rest) =
      if allErrors then .group "create_connection failed" (exc :: rest)
      else if ∀ other ∈ rest, other.str = exc.str then .os exc
      else .os (.plain ("Multiple exceptions: " ++ ", ".intercalate
          ((exc :: rest).map OsError.str))) := by
  cases rest with
  | nil => simp [combined]
  | cons next more => simp [combined]

/-- Attempts that fail leave an exception. -/
theorem exceptionsOf_flatten (some : infos ≠ [])
    (fails : ∀ info ∈ infos, failed lower localAddrInfos info = true) :
    ∃ exc rest, (exceptionsOf lower localAddrInfos infos).flatten = exc :: rest := by
  cases recorded : (exceptionsOf lower localAddrInfos infos).flatten with
  | cons exc rest => exact ⟨exc, rest, rfl⟩
  | nil =>
      obtain ⟨info, there⟩ := List.exists_mem_of_ne_nil infos some
      have mine : (attempt lower localAddrInfos info).2 ∈ exceptionsOf lower localAddrInfos infos :=
        List.mem_map_of_mem there
      exact absurd (List.flatten_eq_nil_iff.mp recorded _ mine) (attempt_failed (fails info there))

/-- The first address whose attempt does not fail with an `OSError` decides the call, and
those behind it are not tried; where there is none, the exceptions of all attempts are
raised, and there is at least one. -/
theorem create_connection_outcome (lower : String → String) (k : Kernel) (loop : LoopType)
    (a : Args) (env : Env) (fds : Finset Nat) (localAddrInfos : Option (List LocalInfo))
    {name : Option String} (checked : checkSsl a = .ok name) (addressed : a.addressed = true)
    (alone : a.sock = none) (found : resolved a env = .ok (infos, localAddrInfos)) :
    (∃ all, env.infos = .ok all ∧ infos.Perm all) ∧
      ((∃ info rest, infos = infos.takeWhile (failed lower localAddrInfos) ++ info :: rest ∧
          failed lower localAddrInfos info = false ∧
          let tried := exceptionsOf lower localAddrInfos
            (infos.takeWhile (failed lower localAddrInfos) ++ [info])
          Raising.call (createConnection lower k loop a env) (start fds) =
            match (attempt lower localAddrInfos info).1 with
            | .error e => (.error e, ⟨(start fds).world, tried⟩)
            | .ok () => Raising.andThen (fun _ => pure (k.alloc fds))
                (Raising.call (tcpConn loop a env (if a.secure then name else none) (k.alloc fds))
                  ⟨detached fds (k.alloc fds), tried⟩)) ∨
        ((∀ info ∈ infos, failed lower localAddrInfos info = true) ∧ ∃ exc rest,
          (exceptionsOf lower localAddrInfos infos).flatten = exc :: rest ∧
          Raising.call (createConnection lower k loop a env) (start fds) =
            (.error (
              if a.allErrors then .group "create_connection failed" (exc :: rest)
              else if ∀ other ∈ rest, other.str = exc.str then .os exc
              else .os (.plain ("Multiple exceptions: " ++ ", ".intercalate
                ((exc :: rest).map OsError.str)))),
            ⟨(start fds).world, exceptionsOf lower localAddrInfos infos⟩))) := by
  obtain ⟨all, same, nonempty, perm⟩ := resolved_perm found
  refine ⟨⟨all, same, perm⟩, ?_⟩
  have run := call_connectFirst lower k localAddrInfos (start fds).world infos []
  cases first : infos.find? fun info => !failed lower localAddrInfos info with
  | some info =>
      left
      obtain ⟨settles, front, rest, split, fails⟩ := List.find?_eq_some_iff_append.mp first
      have goes : failed lower localAddrInfos info = false := by simpa using settles
      have ahead : infos.takeWhile (failed lower localAddrInfos) = front := by
        rw [split, List.takeWhile_append_of_pos (by simpa using fails), List.takeWhile_cons, goes]
        simp
      refine ⟨info, rest, by rw [ahead, split], goes, ?_⟩
      rw [first] at run
      dsimp only at run ⊢
      cases ends : (attempt lower localAddrInfos info).1 with
      | ok =>
          rw [ends] at run
          simp only [start] at run
          simp [createConnection, acquireSock, obtainSock, setblocking, checked, addressed, alone,
            found, detached, start, run, World.socket]
      | error e =>
          rw [ends] at run
          simp only [start] at run
          simp [createConnection, acquireSock, obtainSock, checked, addressed, alone, found,
            start, run]
  | none =>
      right
      have fails : ∀ info ∈ infos, failed lower localAddrInfos info = true := by
        simpa using List.find?_eq_none.mp first
      have some : infos ≠ [] := by
        rintro rfl
        exact nonempty (List.nil_perm.mp perm)
      obtain ⟨exc, rest, recorded⟩ := exceptionsOf_flatten some fails
      refine ⟨fails, exc, rest, recorded, ?_⟩
      rw [first] at run
      simp only [start] at run
      rw [← combined_cons, ← recorded]
      simp [createConnection, acquireSock, obtainSock, checked, addressed, alone, found, start, run]

def lastKernel : Kernel where
  alloc := fun fds => fds.sup id + 1
  fresh := fun _ there => Nat.not_succ_le_self _ (Finset.le_sup (f := id) there)

def toLocalhost : Args :=
  ⟨some "localhost", some "80", none, none, false, false, none, false, none, false⟩

/-- Two addresses, neither of which lets us connect. -/
def refusing : Env where
  infos := .ok
    [(10, ⟨"<AddressFamily.AF_INET6: 10>", .ok (), fun _ => .ok (),
      .error (.os (.numbered (some 111) "Connect call failed ('::1', 80, 0, 0)"))⟩),
      (2, ⟨"<AddressFamily.AF_INET: 2>", .ok (), fun _ => .ok (),
        .error (.os (.numbered (some 111) "Connect call failed ('127.0.0.1', 80)"))⟩)]
  laddrInfos := .ok []
  serverName := fun _ => true
  stream := .ok ()
  factory := fun _ => .ok ()
  connectionMade := .ok ()
  kept := false

theorem refusing_combined : (Raising.call
    (createConnection String.toLower lastKernel .rloop toLocalhost refusing) (start ∅)).1 =
    .error (.os (.plain ("Multiple exceptions: [Errno 111] Connect call failed ('::1', 80, 0, 0), "
      ++ "[Errno 111] Connect call failed ('127.0.0.1', 80)"))) := by
  have outcome := create_connection_outcome String.toLower lastKernel .rloop toLocalhost refusing ∅
    none rfl rfl rfl rfl
  rcases outcome.2 with ⟨info, rest, split, settles, -⟩ | ⟨-, exc, rest, recorded, raised⟩
  · have there := (congrArg (info ∈ ·) split).mpr (List.mem_append_right _ List.mem_cons_self)
    rcases List.mem_cons.mp there with rfl | last
    · cases settles
    · cases List.mem_singleton.mp last
      cases settles
  · cases recorded
    rw [raised]
    decide

end TokioLoop.CreateConnection
