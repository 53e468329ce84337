import Mathlib.Logic.Function.Basic
import TokioLoop.Lib.Runs

/-!
`TokioServer` with one `TokioTCPServer`: the accept loops that `start_listening` spawns,
the list of transports under its mutex, and the four operations of the Python server.
A connection is named by its number. The servers of one `TokioServer` share nothing but
its two flags.
-/
namespace TokioLoop.TokioServer

/-- Points of an accept loop, from the load of `closed` to `attach`. -/
inductive LoopPc where
  | check
  | accepting
  | accepted (conn : Nat)
  | created (conn : Nat)
  | pushed (conn : Nat)
  | ended
  deriving DecidableEq, Repr

/-- The connection an accept loop has taken and not attached. -/
def LoopPc.conn : LoopPc → Option Nat
  | .accepted conn | .created conn | .pushed conn => some conn
  | .check | .accepting | .ended => none

inductive Op where
  | startServing
  | streamsClose
  | streamsAbort
  | close
  deriving DecidableEq, Repr

/-- `exchange` is the exchange of `TokioServer::closed`, `mark` that of
`TokioTCPServer::closed`, `sweep` the loop over the transports under their lock. -/
inductive Point where
  | spawn
  | exchange
  | mark
  | sweep
  | leave
  deriving DecidableEq, Repr

/-- An operation in progress; `present` are the transports listed when it was called. -/
structure Call where
  op : Op
  present : List Nat
  point : Point
  deriving DecidableEq, Repr

def Op.point : Op → Point
  | .startServing => .spawn
  | .close => .exchange
  | .streamsClose | .streamsAbort => .mark

/-- `outerClosed` is the flag of `TokioServer`, `closed` that of `TokioTCPServer`; `shut`
are the transports whose `close()` was called. The rest are histories: `started` and
`closeCalled` say that `_start_serving` and `_close` were called, `swept` that the
transports were closed, `closeReturned` that a `_close` returned; `attached` are the
connections attached, `late` those attached after that, and `cleared` the transports
present at each `_streams_close` and `_streams_abort` that returned. -/
structure Server where
  outerClosed : Bool
  serving : Bool
  closed : Bool
  transports : List Nat
  shut : List Nat
  loops : List LoopPc
  calls : Nat → Option Call
  conns : Nat
  started : Bool
  closeCalled : Bool
  swept : Bool
  closeReturned : Bool
  attached : List Nat
  late : List Nat
  cleared : List (List Nat)

/-- `_tcp_server`: the new server is already listening. -/
def tcpServer : Server where
  outerClosed := false
  serving := false
  closed := false
  transports := []
  shut := []
  loops := [.check]
  calls := fun _ => none
  conns := 0
  started := false
  closeCalled := false
  swept := false
  closeReturned := false
  attached := []
  late := []
  cleared := []

inductive Action where
  | call (thread : Nat) (op : Op)
  | go (thread : Nat)
  | check (loop : Nat)
  | accept (loop : Nat) (ok : Bool)
  | create (loop : Nat) (ok : Bool)
  | push (loop : Nat)
  | attach (loop : Nat)
  deriving DecidableEq, Repr

def Server.goto (s : Server) (thread : Nat) (c : Call) (point : Point) : Server :=
  { s with calls := Function.update s.calls thread (some { c with point := point }) }

/-- The operation returns. -/
def Server.leave (s : Server) (thread : Nat) (c : Call) : Server :=
  let t := { s with calls := Function.update s.calls thread none }
  match c.op with
  | .startServing => { t with serving := true }
  | .close => { t with serving := false, closeReturned := true }
  | .streamsClose | .streamsAbort => { t with cleared := t.cleared ++ [c.present] }

/-- The next step of an operation. -/
def Server.go (s : Server) (thread : Nat) (c : Call) : Server :=
  match c.point with
  | .spawn => { s with loops := s.loops ++ [LoopPc.check] }.goto thread c .leave
  | .exchange =>
      if s.outerClosed then s.goto thread c .leave
        else { s with outerClosed := true }.goto thread c .mark
  | .mark =>
      if s.closed then s.goto thread c .leave else { s with closed := true }.goto thread c .sweep
  | .sweep => { s with shut := s.shut ++ s.transports, swept := true }.goto thread c .leave
  | .leave => s.leave thread c

def Server.setLoop (s : Server) (loop : Nat) (pc : LoopPc) : Server :=
  { s with loops := s.loops.set loop pc }

def step (s : Server) : Action → Option Server
  | .call thread op =>
      match s.calls thread with
      | some _ => none
      | none => some { s with
          calls := Function.update s.calls thread (some ⟨op, s.transports, op.point⟩)
          started := s.started || op == .startServing
          closeCalled := s.closeCalled || op == .close }
  | .go thread => (s.calls thread).map (s.go thread)
  | .check loop =>
      match s.loops[loop]? with
      | some .check => some (s.setLoop loop (if s.closed then .ended else .accepting))
      | _ => none
  | .accept loop ok =>
      match s.loops[loop]? with
      | some .accepting =>
          some (if ok then { s with conns := s.conns + 1 }.setLoop loop (.accepted s.conns)
            else s.setLoop loop .check)
      | _ => none
  | .create loop ok =>
      match s.loops[loop]? with
      | some (.accepted conn) => some (s.setLoop loop (if ok then .created conn else .check))
      | _ => none
  | .push loop =>
      match s.loops[loop]? with
      | some (.created conn) =>
          some ({ s with transports := s.transports ++ [conn] }.setLoop loop (.pushed conn))
      | _ => none
  | .attach loop =>
      match s.loops[loop]? with
      | some (.pushed conn) => some ({ s with
          attached := s.attached ++ [conn]
          late := if s.closeReturned then s.late ++ [conn] else s.late }.setLoop loop .check)
      | _ => none

/-- The lifecycle of the server. -/
structure Lifecycle (s : Server) : Prop where
  notEarly : s.attached ≠ [] → s.started = true
  clients : ∀ present ∈ s.cleared, ∀ conn ∈ present, conn ∈ s.shut
  accepting : s.closed = true → s.closeCalled = true
  notLate : s.late = []
  reached : s.closeReturned = true → ∀ conn ∈ s.attached, conn ∈ s.shut

/-- No accept loop has a connection in its hands. -/
def Server.idle (s : Server) : Prop := ∀ pc ∈ s.loops, pc.conn = none

/-- A connection arrives after the first `_start_serving` and before the transports are
closed; they are closed when no connection is on its way; `_streams_close` and
`_streams_abort` are called after that, and an operation that finds a flag already set
finds it after that. -/
def Settled (s : Server) : Action → Prop
  | .accept _ true => s.started = true ∧ s.swept = false
  | .call _ .streamsClose | .call _ .streamsAbort => s.swept = true
  | .go thread => ∀ c ∈ s.calls thread,
      (c.point = .sweep → s.idle) ∧ (c.point = .exchange → s.outerClosed = true → s.swept = true) ∧
        (c.point = .mark → s.closed = true → s.swept = true)
  | _ => True

instance (s : Server) (a : Action) : Decidable (Settled s a) := by
  unfold Settled Server.idle
  split <;> infer_instance

/-- What an operation in progress has made sure of. -/
structure CallOk (s : Server) (c : Call) : Prop where
  called : c.op = .close → s.closeCalled = true
  spawning : c.point = .spawn → c.op = .startServing
  exchanging : c.point = .exchange → c.op = .close
  streams : c.op = .streamsClose ∨ c.op = .streamsAbort → s.swept = true ∧
      ∀ conn ∈ c.present, conn ∈ s.transports
  marking : c.point = .mark → c.op = .close ∨ s.swept = true
  sweeping : c.point = .sweep → s.closed = true
  leaving : c.point = .leave → c.op = .close → s.swept = true

structure LifeInv (s : Server) : Prop where
  law : Lifecycle s
  flight : ∀ pc ∈ s.loops, pc.conn ≠ none → s.started = true ∧ s.swept = false
  pushed : ∀ conn, .pushed conn ∈ s.loops → conn ∈ s.transports
  listed : ∀ conn ∈ s.attached, conn ∈ s.transports
  swept : s.swept = true → s.closed = true ∧ ∀ conn ∈ s.transports, conn ∈ s.shut
  returned : s.closeReturned = true → s.swept = true
  calls : ∀ thread c, s.calls thread = some c → CallOk s c

theorem lifeInv_start : LifeInv tcpServer where
  law := by constructor <;> simp [tcpServer]
  flight := by simp [tcpServer, LoopPc.conn]
  pushed := by simp [tcpServer]
  listed := by simp [tcpServer]
  swept := by simp [tcpServer]
  returned := by simp [tcpServer]
  calls := by simp [tcpServer]

/-- What a step of one operation leaves to the others. -/
theorem CallOk.mono {s t : Server} {c : Call} (ok : CallOk s c)
    (called : s.closeCalled = true → t.closeCalled = true) (swept : s.swept = true → t.swept = true)
    (closed : s.closed = true → t.closed = true)
    (listed : ∀ conn ∈ s.transports, conn ∈ t.transports) : CallOk t c where
  called h := called (ok.called h)
  spawning := ok.spawning
  exchanging := ok.exchanging
  streams h := ⟨swept (ok.streams h).1, fun conn hc => listed conn ((ok.streams h).2 conn hc)⟩
  marking h := (ok.marking h).imp_right swept
  sweeping h := closed (ok.sweeping h)
  leaving h hop := swept (ok.leaving h hop)

section Loops

variable {s : Server} {loop : Nat}

/-- A loop goes to another point, on its own account. -/
theorem LifeInv.setLoop {pc : LoopPc} (inv : LifeInv s) (conns : Nat)
    (busy : pc.conn ≠ none → s.started = true ∧ s.swept = false)
    (pushed : ∀ conn, pc = .pushed conn → conn ∈ s.transports) :
    LifeInv ({ s with conns := conns }.setLoop loop pc) where
  law := ⟨inv.law.notEarly, inv.law.clients, inv.law.accepting, inv.law.notLate, inv.law.reached⟩
  flight q hq hbusy := by
    rcases List.mem_or_eq_of_mem_set hq with old | rfl
    · exact inv.flight q old hbusy
    · exact busy hbusy
  pushed conn hc := by
    rcases List.mem_or_eq_of_mem_set hc with old | fresh
    · exact inv.pushed conn old
    · exact pushed conn fresh.symm
  listed := inv.listed
  swept := inv.swept
  returned := inv.returned
  calls thread c hc := (inv.calls thread c hc).mono id id id fun _ h => h

theorem LifeInv.release {pc : LoopPc} (inv : LifeInv s) (free : pc.conn = none) :
    LifeInv (s.setLoop loop pc) := by
  refine inv.setLoop s.conns (fun busy => absurd free busy) ?_
  rintro conn rfl
  cases free

/-- A transport is listed while the server is not swept. -/
theorem LifeInv.push {conn : Nat} (inv : LifeInv s) (here : .created conn ∈ s.loops) :
    LifeInv ({ s with transports := s.transports ++ [conn] }.setLoop loop (.pushed conn)) := by
  have unswept := (inv.flight _ here nofun).2
  have grows : ∀ c ∈ s.transports, c ∈ s.transports ++ [conn] :=
    fun c hc => List.mem_append_left _ hc
  refine ⟨⟨inv.law.notEarly, inv.law.clients, inv.law.accepting, inv.law.notLate, inv.law.reached⟩,
    ?_, ?_, ?_, ?_, inv.returned, ?_⟩
  · intro q hq busy
    rcases List.mem_or_eq_of_mem_set hq with old | rfl
    · exact inv.flight q old busy
    · exact inv.flight _ here nofun
  · intro c hc
    rcases List.mem_or_eq_of_mem_set hc with old | fresh
    · exact grows c (inv.pushed c old)
    · cases fresh
      exact List.mem_append_right _ (List.mem_singleton_self _)
  · intro c hc
    exact grows c (inv.listed c hc)
  · intro swept
    rw [show s.swept = true from swept] at unswept
    cases unswept
  · intro thread c hc
    exact (inv.calls thread c hc).mono id id id grows

/-- A connection is attached while the server is not swept, so no `_close` has returned. -/
theorem LifeInv.attach {conn : Nat} (inv : LifeInv s) (here : .pushed conn ∈ s.loops) :
    LifeInv ({ s with
      attached := s.attached ++ [conn]
      late := if s.closeReturned then s.late ++ [conn] else s.late }.setLoop loop .check) := by
  obtain ⟨started, unswept⟩ := inv.flight _ here nofun
  have running : s.closeReturned = false := by
    by_contra returned
    rw [inv.returned (Bool.not_eq_false _ ▸ returned)] at unswept
    cases unswept
  have placed : LifeInv (s.setLoop loop .check) := inv.release rfl
  refine ⟨⟨fun _ => started, inv.law.clients, inv.law.accepting, ?_, ?_⟩, placed.flight,
    placed.pushed, ?_, inv.swept, inv.returned, fun thread c hc =>
    (inv.calls thread c hc).mono id id id fun _ h => h⟩
  · simp only [Server.setLoop, running]
    exact inv.law.notLate
  · intro returned
    rw [show s.closeReturned = true from returned] at running
    cases running
  · intro c hc
    rcases List.mem_append.mp hc with old | fresh
    · exact inv.listed c old
    · rw [List.mem_singleton.mp fresh]
      exact inv.pushed conn here

end Loops

section Calls

variable {s : Server} {thread : Nat}

/-- The call of `thread` is at another point; the other calls keep what they know. -/
theorem calls_update {t : Server} {d : Option Call} (inv : LifeInv s)
    (others : ∀ c, CallOk s c → CallOk t c) (own : ∀ c, d = some c → CallOk t c)
    (u : Nat) (c : Call) (hc : Function.update s.calls thread d u = some c) : CallOk t c := by
  by_cases same : u = thread
  · subst same
    rw [Function.update_self] at hc
    exact own c hc
  · rw [Function.update_of_ne same] at hc
    exact others c (inv.calls u c hc)

theorem LifeInv.call (inv : LifeInv s) (op : Op) (settled : Settled s (.call thread op)) :
    LifeInv { s with
      calls := Function.update s.calls thread (some ⟨op, s.transports, op.point⟩)
      started := s.started || op == .startServing
      closeCalled := s.closeCalled || op == .close } where
  law := by
    refine ⟨?_, inv.law.clients, ?_, inv.law.notLate, inv.law.reached⟩
    · intro some_attached
      simp [inv.law.notEarly some_attached]
    · intro closed
      simp [inv.law.accepting closed]
  flight pc hpc busy := by
    obtain ⟨started, unswept⟩ := inv.flight pc hpc busy
    exact ⟨by simp [started], unswept⟩
  pushed := inv.pushed
  listed := inv.listed
  swept := inv.swept
  returned := inv.returned
  calls := by
    refine calls_update inv ?_ ?_
    · intro c ok
      exact ok.mono (by simp_all) id id fun _ h => h
    · intro c hc
      cases hc
      cases op with
      | startServing | close => constructor <;> simp [Op.point]
      | streamsClose | streamsAbort =>
          have swept : s.swept = true := settled
          constructor <;> simp [Op.point, swept]

theorem LifeInv.goto {c : Call} {point : Point} (inv : LifeInv s)
    (ok : CallOk s { c with point := point }) : LifeInv (s.goto thread c point) where
  law := ⟨inv.law.notEarly, inv.law.clients, inv.law.accepting, inv.law.notLate, inv.law.reached⟩
  flight := inv.flight
  pushed := inv.pushed
  listed := inv.listed
  swept := inv.swept
  returned := inv.returned
  calls := by
    refine calls_update inv (fun d ok => ok.mono id id id fun _ h => h) ?_
    intro d hd
    cases hd
    exact ok.mono id id id fun _ h => h

theorem LifeInv.spawn (inv : LifeInv s) : LifeInv { s with loops := s.loops ++ [LoopPc.check] }
    where
  law := ⟨inv.law.notEarly, inv.law.clients, inv.law.accepting, inv.law.notLate, inv.law.reached⟩
  flight pc hpc busy := by
    rcases List.mem_append.mp hpc with old | fresh
    · exact inv.flight pc old busy
    · exact absurd (congrArg LoopPc.conn (List.mem_singleton.mp fresh)) busy
  pushed conn hc := by
    rcases List.mem_append.mp hc with old | fresh
    · exact inv.pushed conn old
    · cases List.mem_singleton.mp fresh
  listed := inv.listed
  swept := inv.swept
  returned := inv.returned
  calls thread c hc := (inv.calls thread c hc).mono id id id fun _ h => h

/-- A flag is set; it is `TokioTCPServer::closed` only on the way of a `_close`. -/
theorem LifeInv.flags (inv : LifeInv s) (outer closed : Bool)
    (called : closed = true → s.closeCalled = true) (kept : s.closed = true → closed = true) :
    LifeInv { s with outerClosed := outer, closed := closed } where
  law := ⟨inv.law.notEarly, inv.law.clients, called, inv.law.notLate, inv.law.reached⟩
  flight := inv.flight
  pushed := inv.pushed
  listed := inv.listed
  swept h := ⟨kept (inv.swept h).1, (inv.swept h).2⟩
  returned := inv.returned
  calls thread c hc := (inv.calls thread c hc).mono id id kept fun _ h => h

theorem LifeInv.sweep (inv : LifeInv s) (idle : s.idle) (closed : s.closed = true) :
    LifeInv { s with shut := s.shut ++ s.transports, swept := true } where
  law := by
    refine ⟨inv.law.notEarly, ?_, inv.law.accepting, inv.law.notLate, ?_⟩
    · intro present hp conn hc
      exact List.mem_append_left _ (inv.law.clients present hp conn hc)
    · intro returned conn hc
      exact List.mem_append_left _ (inv.law.reached returned conn hc)
  flight pc hpc busy := absurd (idle pc hpc) busy
  pushed := inv.pushed
  listed := inv.listed
  swept _ := ⟨closed, fun _ hc => List.mem_append_right _ hc⟩
  returned _ := rfl
  calls thread c hc := (inv.calls thread c hc).mono id (fun _ => rfl) id fun _ h => h

/-- A `_close` returns when the transports are closed, and with them every connection
attached; the other two operations when those present at their call are. -/
theorem LifeInv.leave {c : Call} (inv : LifeInv s) (ok : CallOk s c) (point : c.point = .leave) :
    LifeInv (s.leave thread c) := by
  have others : ∀ t : Server, t.closeCalled = s.closeCalled → t.swept = s.swept →
    t.closed = s.closed →
      t.transports = s.transports → ∀ u d, Function.update s.calls thread none u = some d →
      CallOk t d := by
    intro t called swept closed listed
    refine calls_update inv ?_ nofun
    intro d okd
    exact okd.mono (called ▸ id) (swept ▸ id) (closed ▸ id) fun _ h => listed ▸ h
  unfold Server.leave
  cases hop : c.op with
  | startServing =>
      exact ⟨⟨inv.law.notEarly, inv.law.clients, inv.law.accepting, inv.law.notLate,
        inv.law.reached⟩, inv.flight, inv.pushed, inv.listed, inv.swept, inv.returned,
        others _ rfl rfl rfl rfl⟩
  | close =>
      have swept := ok.leaving point hop
      refine ⟨⟨inv.law.notEarly, inv.law.clients, inv.law.accepting, inv.law.notLate, ?_⟩,
        inv.flight, inv.pushed, inv.listed, inv.swept, fun _ => swept, others _ rfl rfl rfl rfl⟩
      intro _ conn hc
      exact (inv.swept swept).2 conn (inv.listed conn hc)
  | streamsClose | streamsAbort =>
      obtain ⟨swept, present⟩ := ok.streams (by simp [hop])
      refine ⟨⟨inv.law.notEarly, ?_, inv.law.accepting, inv.law.notLate, inv.law.reached⟩,
        inv.flight, inv.pushed, inv.listed, inv.swept, inv.returned, others _ rfl rfl rfl rfl⟩
      intro those hthose conn hc
      rcases List.mem_append.mp hthose with old | fresh
      · exact inv.law.clients those old conn hc
      · rw [List.mem_singleton.mp fresh] at hc
        exact (inv.swept swept).2 conn (present conn hc)

theorem LifeInv.go {c : Call} (inv : LifeInv s) (hc : s.calls thread = some c)
    (settled : Settled s (.go thread)) : LifeInv (s.go thread c) := by
  have ok := inv.calls thread c hc
  obtain ⟨sweeps, exchanges, marks⟩ := settled c hc
  unfold Server.go
  cases hpoint : c.point with
  | spawn =>
      refine inv.spawn.goto ⟨ok.called, nofun, nofun, ok.streams, nofun, nofun, ?_⟩
      intro _ hop
      cases (ok.spawning hpoint).symm.trans hop
  | exchange =>
      dsimp only
      split_ifs with closed
      · exact inv.goto ⟨ok.called, nofun, nofun, ok.streams, nofun, nofun, fun _ _ =>
          exchanges hpoint closed⟩
      · have flagged : LifeInv { s with outerClosed := true } :=
          inv.flags true s.closed inv.law.accepting id
        exact flagged.goto ⟨ok.called, nofun, nofun, ok.streams, fun _ =>
          .inl (ok.exchanging hpoint), nofun, nofun⟩
  | mark =>
      dsimp only
      split_ifs with closed
      · exact inv.goto ⟨ok.called, nofun, nofun, ok.streams, nofun, nofun, fun _ _ =>
          marks hpoint closed⟩
      · have called : s.closeCalled = true := by
          rcases ok.marking hpoint with hop | swept
          · exact ok.called hop
          · exact absurd (inv.swept swept).1 closed
        have flagged : LifeInv { s with closed := true } :=
          inv.flags s.outerClosed true (fun _ => called) fun _ => rfl
        exact flagged.goto ⟨ok.called, nofun, nofun, ok.streams, nofun, fun _ => rfl, nofun⟩
  | sweep =>
      have all := inv.sweep (sweeps hpoint) (ok.sweeping hpoint)
      refine all.goto ⟨ok.called, nofun, nofun, ?_, nofun, nofun, fun _ _ => rfl⟩
      intro hop
      exact ⟨rfl, (ok.streams hop).2⟩
  | leave => exact inv.leave ok hpoint

end Calls

theorem LifeInv.step {s t : Server} {a : Action} (inv : LifeInv s) (settled : Settled s a)
    (h : step s a = some t) :
    LifeInv t := by
  cases a with
  | call thread op =>
      simp only [TokioServer.step] at h
      split at h <;> cases h
      exact inv.call op settled
  | go thread =>
      obtain ⟨c, hc, rfl⟩ := Option.map_eq_some_iff.mp h
      exact inv.go hc settled
  | check loop =>
      simp only [TokioServer.step] at h
      split at h <;> cases h
      exact inv.release (by split_ifs <;> rfl)
  | accept loop ok =>
      simp only [TokioServer.step] at h
      split at h <;> cases h
      cases ok with
      | true => exact inv.setLoop (s.conns + 1) (fun _ => settled) nofun
      | false => exact inv.release rfl
  | create loop ok =>
      simp only [TokioServer.step] at h
      split at h <;> cases h
      next conn here =>
        cases ok with
        | true =>
            exact inv.setLoop s.conns
              (fun _ => inv.flight _ (List.mem_of_getElem? here) nofun) nofun
        | false => exact inv.release rfl
  | push loop =>
      simp only [TokioServer.step] at h
      split at h <;> cases h
      next conn here => exact inv.push (List.mem_of_getElem? here)
  | attach loop =>
      simp only [TokioServer.step] at h
      split at h <;> cases h
      next conn here => exact inv.attach (List.mem_of_getElem? here)

/-- The lifecycle holds in every run whose steps are settled. -/
theorem server_lifecycle (actions : List Action) (s : Server)
    (h : Runs.run step tcpServer actions = some s)
    (settled : Runs.Guarded step Settled tcpServer actions) : Lifecycle s := by
  have inv : LifeInv s := Runs.run_preserves (fun _ _ _ inv good hstep => inv.step good hstep) h
    lifeInv_start settled
  exact inv.law

/-- A server is started, accepts one connection and is closed. -/
def servedOnce : List Action :=
  [.call 0 .startServing, .go 0, .go 0, .check 0, .accept 0 true, .create 0 true, .push 0,
      .attach 0, .check 0,
    .call 0 .close, .go 0, .go 0, .go 0, .go 0]

theorem server_lifecycle_once :
    ∃ s, Runs.run step tcpServer servedOnce = some s ∧ s.attached = [0] ∧ s.shut = [0] ∧
    s.closeReturned = true ∧
      Lifecycle s := by
  refine ⟨_, rfl, rfl, rfl, rfl, ?_⟩
  exact server_lifecycle servedOnce _ rfl (by decide)

/-- A new server attaches a connection before it is started; `close_clients` closes the
server; and a loop that waits in `accept` attaches a connection after `_close`. -/
theorem server_lifecycle_broken :
    (∃ s, Runs.run step tcpServer [.check 0, .accept 0 true, .create 0 true, .push 0,
      .attach 0] = some s ∧
        s.started = false ∧ ¬ Lifecycle s) ∧
      (∃ s, Runs.run step tcpServer [.call 0 .startServing, .go 0, .go 0, .call 0 .streamsClose,
        .go 0, .go 0, .go 0] = some s ∧ s.closeCalled = false ∧ ¬ Lifecycle s) ∧
      ∃ s, Runs.run step tcpServer [.call 0 .startServing, .go 0, .go 0, .check 0, .call 0 .close,
        .go 0, .go 0, .go 0, .go 0, .accept 0 true, .create 0 true, .push 0, .attach 0] = some s ∧
        s.closeReturned = true ∧ ¬ Lifecycle s := by
  refine ⟨⟨_, rfl, rfl, fun life => ?_⟩, ⟨_, rfl, rfl, fun life => ?_⟩,
    ⟨_, rfl, rfl, fun life => ?_⟩⟩
  · cases life.notEarly (by decide)
  · cases life.accepting rfl
  · cases life.notLate

end TokioLoop.TokioServer
