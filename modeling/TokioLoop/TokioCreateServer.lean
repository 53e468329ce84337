import TokioLoop.LoopCreateServer

/-!
`create_server` on TokioLoop. Up to the detached numbers it is the code of both loops.
`from_fd` makes a listener of a number, whatever its `listen` says, and `start_listening`
spawns an accept loop that keeps the listener alive; `_tcp_server` does both for every
socket, `_start_serving` spawns another loop for each.

Of an address, `register` says here that `set_nonblocking` and `from_std` succeed.
-/
namespace TokioLoop.CreateServer.Tokio

/-- The descriptors for which the call made the kernel listen and spawned accept loops. -/
structure Accepting where
  listening : List Nat
  loops : List Nat

abbrev Py (α : Type) := Raising (Call × Accepting) Err α

structure Args extends CreateServer.Args where
  backlog : Int

/-- The backlog is taken as an `i32`. -/
def Args.Fits (args : Args) : Prop := -2147483648 ≤ args.backlog ∧ args.backlog ≤ 2147483647

instance (args : Args) : Decidable args.Fits := inferInstanceAs (Decidable (_ ∧ _))

/-- `from_fd`; a socket that is made of the number and not converted is dropped. -/
def fromFd (backlog : Int) (s : Nat × Address) : Py Unit := do
  if !s.2.register then
    modify fun c => ({ c.1 with world := c.1.world.close s.1 }, c.2)
    throw .osError
  if backlog != 0 && s.2.listen then modify fun c =>
    (c.1, { c.2 with listening := c.2.listening ++ [s.1] })

def startListening (s : Nat × Address) : Py Unit :=
  modify fun c => (c.1, { c.2 with loops := c.2.loops ++ [s.1] })

def makeServers (backlog : Int) : List (Nat × Address) → Py Unit
  | [] => pure ()
  | s :: rsocks => do
      fromFd backlog s
      startListening s
      makeServers backlog rsocks

/-- `_tcp_server`, or `_tcp_server_ssl` with a context, which is not implemented. The
sockets are detached when the arguments are converted. -/
def tcpServer (args : Args) (rsocks : List (Nat × Address)) : Py Server := do
  if ¬ args.Fits then throw .overflowError
  if args.ssl.isSome then throw .sslError
  makeServers args.backlog rsocks
  return ⟨rsocks.map fun s => s.2.getsockname, rsocks⟩

/-- `_start_serving` -/
def startServing : List (Nat × Address) → Py Unit
  | [] => pure ()
  | s :: servers => do
      startListening s
      startServing servers

def createServer (k : Kernel) (args : Args) : Py Server := do
  Raising.onFst (bindSockets k args.infos)
  let server ← tcpServer args (← get).1.sockets
  if args.startServing then startServing server.servers
  return server

def Fair (args : Args) (base : World) : Except Err Server × Call × Accepting → Prop
  | (.error _, c, accepting) => Undone base c.world ∧ accepting.loops = []
  | (.ok server, _, accepting) =>
      if args.startServing then ∀ s ∈ server.servers, s.1 ∈ accepting.listening ∧
        s.1 ∈ accepting.loops
      else accepting.loops = []

/-- A call that raises leaves no socket and no accept loop behind; one that returns has all
of its sockets accepting if it was to start serving, and none if it was not. -/
def AllOrNothing (k : Kernel) (args : Args) (w : World) : Prop :=
  Fair args w (Raising.call (createServer k args) (⟨w, []⟩, ⟨[], []⟩))

/-- The call gives up before the sockets are detached; or it is without TLS and with a
backlog that fits, and all sockets are converted and listen and it is to serve, or the only
one is not converted. -/
def Args.Harmless (args : Args) : Prop :=
  GivesUp args.infos ∨ args.ssl = none ∧ args.Fits ∧
    ((args.startServing = true ∧ args.backlog ≠ 0 ∧
        ∀ a ∈ args.infos.filter Address.kept, a.register = true ∧ a.listen = true) ∨
      ∃ a, args.infos.filter Address.kept = [a] ∧ a.register = false)

variable {base w : World} {c : Call} {backlog : Int} {args : Args}
  {before rest servers : List (Nat × Address)} {s : Nat × Address}

/-- The sockets whose `listen` is called and succeeds. -/
def listeners (backlog : Int) (servers : List (Nat × Address)) : List Nat :=
  (servers.filter fun s => backlog != 0 && s.2.listen).map Prod.fst

/-- Sockets that are converted have a listener and a loop, and then it goes on. -/
theorem call_makeServers_append (backlog : Int) (rest servers : List (Nat × Address)) (c : Call)
    (accepting : Accepting) (converts : ∀ s ∈ servers, s.2.register = true) :
    Raising.call (makeServers backlog (servers ++ rest)) (c, accepting) =
      Raising.call (makeServers backlog rest) (c,
        ⟨accepting.listening ++ listeners backlog servers,
          accepting.loops ++ servers.map Prod.fst⟩) := by
  induction servers generalizing accepting with
  | nil => simp [listeners]
  | cons s servers ih =>
      have here := converts s List.mem_cons_self
      have later := fun accepting => ih accepting fun t there =>
        converts t (List.mem_cons_of_mem s there)
      rw [List.cons_append]
      by_cases listens : (backlog != 0 && s.2.listen) = true
      · simp [makeServers, fromFd, startListening, here, listens, later, listeners]
      · simp [makeServers, fromFd, startListening, here, listens, later, listeners]

theorem call_makeServers_ok (c : Call) (converts : ∀ s ∈ servers, s.2.register = true) :
    Raising.call (makeServers backlog servers) (c, ⟨[], []⟩) =
      (.ok (), c, ⟨listeners backlog servers, servers.map Prod.fst⟩) := by
  have run := call_makeServers_append backlog [] servers c ⟨[], []⟩ converts
  rw [List.append_nil] at run
  rw [run]
  simp [makeServers]

/-- It stops at the first socket that is not converted; the loops of those before it stay. -/
theorem call_makeServers_error (backlog : Int) (rest : List (Nat × Address)) (c : Call)
    (converts : ∀ t ∈ before, t.2.register = true) (cannot : s.2.register = false) :
    Raising.call (makeServers backlog (before ++ s :: rest)) (c, ⟨[], []⟩) =
      (.error .osError, { c with world := c.world.close s.1 },
        ⟨listeners backlog before, before.map Prod.fst⟩) := by
  rw [call_makeServers_append backlog (s :: rest) before c _ converts]
  simp [makeServers, fromFd, cannot]

theorem call_startServing (servers : List (Nat × Address)) (c : Call) (accepting : Accepting) :
    Raising.call (startServing servers) (c, accepting) =
      (.ok (), c, { accepting with loops := accepting.loops ++ servers.map Prod.fst }) := by
  induction servers generalizing accepting with
  | nil => simp [startServing]
  | cons s servers ih => simp [startServing, startListening, ih, List.append_assoc]

/-- All sockets are converted, or there is a first one that is not. -/
theorem first_unconverted (servers : List (Nat × Address)) :
    (∀ s ∈ servers, s.2.register = true) ∨ ∃ before s rest, servers = before ++ s :: rest ∧
      (∀ t ∈ before, t.2.register = true) ∧ s.2.register = false := by
  induction servers with
  | nil => simp
  | cons s servers ih =>
      cases converts : s.2.register with
      | false => exact .inr ⟨[], s, servers, rfl, by simp, converts⟩
      | true =>
          rcases ih with all | ⟨before, t, rest, split, can, cannot⟩
          · exact .inl (List.forall_mem_cons.mpr ⟨converts, all⟩)
          · refine .inr ⟨s :: before, t, rest, by rw [split]; rfl, ?_, cannot⟩
            exact List.forall_mem_cons.mpr ⟨converts, can⟩

/-- The part of the call after the first, on the sockets it has then. -/
def afterwards (args : Args) : Py Server := do
  let server ← tcpServer args (← get).1.sockets
  if args.startServing then startServing server.servers
  return server

/-- After a failed conversion all is undone just if there was only this socket. -/
theorem undone_iff_single (h : Holds base c) (split : c.sockets = before ++ s :: rest) :
    Undone base (c.world.close s.1) ∧ before.map Prod.fst = [] ↔ c.sockets = [s] := by
  constructor
  · rintro ⟨undone, none⟩
    have front : before = [] := List.map_eq_nil_iff.mp none
    subst front
    exact (h.undone_iff split).mp undone
  · intro single
    have front : before = [] := by
      have length := congrArg List.length (split.symm.trans single)
      simp only [List.length_append, List.length_cons, List.length_nil] at length
      exact List.length_eq_zero_iff.mp (by omega)
    subst front
    exact ⟨(h.undone_iff split).mpr single, rfl⟩

theorem mem_listeners (h : Holds base c) (there : s ∈ c.sockets) :
    s.1 ∈ listeners backlog c.sockets ↔ backlog ≠ 0 ∧ s.2.listen = true := by
  unfold listeners
  simp only [List.mem_map, List.mem_filter, Bool.and_eq_true, bne_iff_ne]
  constructor
  · rintro ⟨t, ⟨inside, listens⟩, same⟩
    cases List.inj_on_of_nodup_map h.nodup inside there same
    exact listens
  · intro listens
    exact ⟨s, ⟨there, listens⟩, rfl⟩

/-- Sockets that are all converted accept in any case. -/
theorem fair_converted (h : Holds base c) (some : c.sockets ≠ []) (plain : args.ssl = none)
    (fits : args.Fits) (converts : ∀ s ∈ c.sockets, s.2.register = true) :
    Fair args base (Raising.call (afterwards args) (c, ⟨[], []⟩)) ↔
      args.startServing = true ∧ args.backlog ≠ 0 ∧ ∀ s ∈ c.sockets, s.2.listen = true := by
  cases serving : args.startServing with
  | false =>
      have run : Raising.call (afterwards args) (c, ⟨[], []⟩) =
          (.ok ⟨c.sockets.map fun s => s.2.getsockname, c.sockets⟩, c,
            ⟨listeners args.backlog c.sockets, c.sockets.map Prod.fst⟩) := by
        simp [afterwards, tcpServer, plain, fits, serving, call_makeServers_ok c converts]
      rw [run]
      simp [Fair, serving, some]
  | true =>
      have run : Raising.call (afterwards args) (c, ⟨[], []⟩) =
          (.ok ⟨c.sockets.map fun s => s.2.getsockname, c.sockets⟩, c,
            ⟨listeners args.backlog c.sockets,
              c.sockets.map Prod.fst ++ c.sockets.map Prod.fst⟩) := by
        simp [afterwards, tcpServer, plain, fits, serving, call_makeServers_ok c converts,
          call_startServing]
      rw [run]
      simp only [Fair, serving, if_true, true_and]
      constructor
      · intro fair
        obtain ⟨s, there⟩ := List.exists_mem_of_ne_nil _ some
        have nonzero := ((mem_listeners h there).mp (fair s there).1).1
        exact ⟨nonzero, fun t inside => ((mem_listeners h inside).mp (fair t inside).1).2⟩
      · rintro ⟨nonzero, listens⟩ s there
        refine ⟨(mem_listeners h there).mpr ⟨nonzero, listens s there⟩, List.mem_append_left _ ?_⟩
        exact List.mem_map_of_mem there

/-- A call that raises with its sockets detached has lost their numbers. -/
theorem not_fair_lost (h : Holds base c) (some : c.sockets ≠ []) (e : Err) (accepting : Accepting) :
    ¬ Fair args base (.error e, c, accepting) := by
  obtain ⟨s, there⟩ := List.exists_mem_of_ne_nil _ some
  intro fair
  exact h.not_undone there (h.mem there) fair.1

/-- Without TLS the outcome is up to the sockets. -/
theorem fair_plain (h : Holds base c) (some : c.sockets ≠ []) (plain : args.ssl = none)
    (fits : args.Fits) : Fair args base (Raising.call (afterwards args) (c, ⟨[], []⟩)) ↔
      (args.startServing = true ∧ args.backlog ≠ 0 ∧
        ∀ s ∈ c.sockets, s.2.register = true ∧ s.2.listen = true) ∨
        ∃ s, c.sockets = [s] ∧ s.2.register = false := by
  rcases first_unconverted c.sockets with converts | ⟨before, s, rest, split, can, cannot⟩
  · rw [fair_converted h some plain fits converts]
    constructor
    · rintro ⟨serving, nonzero, listens⟩
      exact .inl ⟨serving, nonzero, fun s there => ⟨converts s there, listens s there⟩⟩
    · rintro (⟨serving, nonzero, both⟩ | ⟨s, single, cannot⟩)
      · exact ⟨serving, nonzero, fun s there => (both s there).2⟩
      · have can := converts s (by simp [single])
        cases cannot.symm.trans can
  · have run : Raising.call (afterwards args) (c, ⟨[], []⟩) = (.error .osError,
        { c with world := c.world.close s.1 },
        ⟨listeners args.backlog before, before.map Prod.fst⟩) := by
      have stop := call_makeServers_error args.backlog rest c can cannot
      rw [← split] at stop
      simp [afterwards, tcpServer, plain, fits, stop]
    rw [run]
    refine (undone_iff_single h split).trans ?_
    constructor
    · exact fun single => .inr ⟨s, single, cannot⟩
    · rintro (⟨-, -, both⟩ | ⟨t, single, -⟩)
      · have can := (both s (by simp [split])).1
        cases cannot.symm.trans can
      · have there : s ∈ [t] := by
          rw [← single, split]
          exact List.mem_append_right _ List.mem_cons_self
        rw [single, List.mem_singleton.mp there]

theorem fair_iff (h : Holds base c) (some : c.sockets ≠ []) (args : Args) :
    Fair args base (Raising.call (afterwards args) (c, ⟨[], []⟩)) ↔ args.ssl = none ∧ args.Fits ∧
      ((args.startServing = true ∧ args.backlog ≠ 0 ∧
        ∀ s ∈ c.sockets, s.2.register = true ∧ s.2.listen = true) ∨
        ∃ s, c.sockets = [s] ∧ s.2.register = false) := by
  by_cases fits : args.Fits
  · cases plain : args.ssl with
    | some ssl =>
        have run : Raising.call (afterwards args) (c, ⟨[], []⟩) = (.error .sslError, c,
            ⟨[], []⟩) := by
          simp [afterwards, tcpServer, plain, fits]
        rw [run]
        exact iff_of_false (not_fair_lost h some _ _) fun fine => by cases fine.1
    | none =>
        rw [fair_plain h some plain fits, eq_self, true_and]
        exact (and_iff_right fits).symm
  · have run : Raising.call (afterwards args) (c, ⟨[], []⟩) = (.error .overflowError, c,
        ⟨[], []⟩) := by
      simp [afterwards, tcpServer, fits]
    rw [run]
    exact iff_of_false (not_fair_lost h some _ _) fun fine => fits fine.2.1

theorem tokio_create_server_all_or_nothing_iff (k : Kernel) (args : Args) (w : World) :
    AllOrNothing k args w ↔ args.Harmless := by
  have whole : createServer k args = (Raising.onFst (bindSockets k args.infos) >>= fun _ =>
    afterwards args) := rfl
  rw [AllOrNothing, whole, Raising.call_bind, Raising.call_onFst]
  by_cases gives : GivesUp args.infos
  · obtain ⟨d, result, restored⟩ := call_bindSockets_error (k := k) (w := w) gives
    rw [result]
    exact iff_of_true ⟨restored.undone, rfl⟩ (.inl gives)
  · obtain ⟨d, result, holds, sockets⟩ := call_bindSockets_ok (k := k) (w := w) gives
    have some : d.sockets ≠ [] := by
      intro none
      rw [none] at sockets
      exact gives (.inr sockets.symm)
    rw [result, Raising.andThen_ok, fair_iff holds some args]
    unfold Args.Harmless
    rw [or_iff_right gives, ← sockets]
    -- the conditions on the sockets are conditions on their addresses
    have all : (∀ a ∈ d.sockets.map Prod.snd, a.register = true ∧ a.listen = true) ↔
        ∀ s ∈ d.sockets, s.2.register = true ∧ s.2.listen = true := List.forall_mem_map
    have single : (∃ a, d.sockets.map Prod.snd = [a] ∧ a.register = false) ↔
        ∃ s, d.sockets = [s] ∧ s.2.register = false := by
      simp only [List.map_eq_singleton_iff]
      grind
    rw [all, single]

end TokioLoop.CreateServer.Tokio
