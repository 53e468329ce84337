import Mathlib.Data.Finset.Lattice.Fold
import Mathlib.Data.Finset.Basic
import Mathlib.Data.List.Dedup
import TokioLoop.Lib.Raising

/-!
`create_server` on RLoop, from the resolved addresses to the listeners. Python sockets
are opened and bound, and closed again if that raises; then they are detached, and what
is left of them are the numbers that the Rust side makes into listeners one by one.

A descriptor is open or not in the process; the poller knows open descriptors only. An
address comes with what its system calls return.
-/
namespace TokioLoop.CreateServer

inductive Err where
  | osError
  | sslError
  | overflowError
  deriving DecidableEq, Repr

inductive Bind where
  | ok
  | addrNotAvail
  | fails
  deriving DecidableEq, Repr

/-- A resolved address: whether `socket`, all of the `setsockopt`, `getsockname`, `listen`
and the registration with the poller succeed for it, and how its `bind` ends. -/
structure Address where
  socket : Bool
  setsockopt : Bool
  bind : Bind
  getsockname : Bool
  listen : Bool
  register : Bool
  deriving DecidableEq

/-- `ssl` says whether the configuration can be built from the context, if there is one. -/
structure Args where
  infos : List Address
  ssl : Option Bool
  startServing : Bool

/-- The open descriptors, and the tables of the loop with its poller. -/
structure World where
  fds : Finset Nat
  listening : Finset Nat
  polled : Finset Nat
  handlesIo : Finset Nat
  tcpLstreams : Finset Nat
  polled_open : polled ⊆ fds

def World.socket (w : World) (fd : Nat) : World :=
  { w with fds := insert fd w.fds, polled_open :=
    w.polled_open.trans (Finset.subset_insert fd w.fds) }

/-- The kernel takes a descriptor out of the poller when it is closed. -/
def World.close (w : World) (fd : Nat) : World :=
  { w with
    fds := w.fds.erase fd
    listening := w.listening.erase fd
    polled := w.polled.erase fd
    polled_open := Finset.erase_subset_erase fd w.polled_open }

/-- `tcp_listener_add`, which drops the result of the registration. -/
def World.tcpListenerAdd (w : World) (fd : Nat) (register : Bool) : World :=
  { w with
    polled := if register then insert fd w.polled ∩ w.fds else w.polled
    handlesIo := insert fd w.handlesIo
    tcpLstreams := insert fd w.tcpLstreams
    polled_open := by
      split
      · exact Finset.inter_subset_right
      · exact w.polled_open }

def World.listen (w : World) (fd : Nat) : World := { w with listening := insert fd w.listening }

/-- `socket` gives a descriptor that is not open. -/
structure Kernel where
  alloc : Finset Nat → Nat
  fresh : ∀ fds, alloc fds ∉ fds

/-- The list `sockets` of the call is what it has opened and not closed itself. -/
structure Call where
  world : World
  sockets : List (Nat × Address)

abbrev Py (α : Type) := Raising Call Err α

/-- `sockets` has the wrappers of the detached sockets, `None` where `getsockname` raised,
and `servers` their numbers. -/
structure Server where
  sockets : List Bool
  servers : List (Nat × Address)

/-- The loop over the addresses. -/
def openSockets (k : Kernel) : List Address → Py Unit
  | [] => pure ()
  | a :: infos => do
      if a.socket then
        let fd := k.alloc (← get).world.fds
        modify fun s => ⟨s.world.socket fd, s.sockets ++ [(fd, a)]⟩
        if !a.setsockopt then throw .osError
        match a.bind with
        | .ok => openSockets k infos
        | .addrNotAvail =>
            modify fun s => ⟨s.world.close fd, s.sockets.dropLast⟩
            openSockets k infos
        | .fails => throw .osError
      else openSockets k infos

def closeAll (sockets : List (Nat × Address)) (w : World) : World :=
  sockets.foldl (fun w s => w.close s.1) w

/-- The first part, under its `finally`. -/
def bindSockets (k : Kernel) (infos : List Address) : Py Unit := do
  try
    openSockets k infos
    if (← get).sockets.isEmpty then throw .osError
  catch e =>
    modify fun s => { s with world := closeAll s.sockets s.world }
    throw e

/-- `_tcp_server`, or `_tcp_server_ssl` with a context. -/
def tcpServer (ssl : Option Bool) (rsocks : List (Nat × Address)) : Py Server := do
  if ssl = some false then throw .sslError
  return ⟨rsocks.map fun s => s.2.getsockname, rsocks⟩

/-- `TCPServer::listen`; the socket it has made of the number is dropped on an error. -/
def listen (s : Nat × Address) : Py Unit := do
  if !s.2.listen then
    modify fun c => { c with world := c.world.close s.1 }
    throw .osError
  modify fun c => { c with world := (c.world.listen s.1).tcpListenerAdd s.1 s.2.register }

/-- `_start_serving` -/
def startServing : List (Nat × Address) → Py Unit
  | [] => pure ()
  | s :: servers => do
      listen s
      startServing servers

def createServer (k : Kernel) (args : Args) : Py Server := do
  bindSockets k args.infos
  let server ← tcpServer args.ssl (← get).sockets
  if args.startServing then startServing server.servers
  return server

/-- What the call opened is closed, and no listener is left. -/
def Undone (base w : World) : Prop :=
  w.fds = base.fds ∧ w.handlesIo ⊆ base.handlesIo ∧ w.tcpLstreams ⊆ base.tcpLstreams ∧
    w.polled ⊆ base.polled

def Fair (args : Args) (base : World) : Except Err Server × Call → Prop
  | (.error _, c) => Undone base c.world
  | (.ok server, c) => args.startServing = true → ∀ s ∈ server.servers,
      s.1 ∈ c.world.listening ∧ s.1 ∈ c.world.handlesIo ∧ s.1 ∈ c.world.tcpLstreams ∧
      s.1 ∈ c.world.polled

/-- A call that raises has undone what it did; one that returns and was to start serving
leaves all of its sockets listening and registered. -/
def AllOrNothing (k : Kernel) (args : Args) (w : World) : Prop :=
  Fair args w (Raising.call (createServer k args) ⟨w, []⟩)

/-- The socket of the address raises where the call gives up. -/
def Address.raises (a : Address) : Bool := a.socket && (!a.setsockopt || a.bind == .fails)

/-- The socket of the address ends up in the server. -/
def Address.kept (a : Address) : Bool := a.socket && a.setsockopt && a.bind == .ok

/-- The call gives up before the sockets are detached; or its TLS configuration can be
built, and if it is to serve then all sockets can listen and be registered, or there is
only one and it cannot listen. -/
def Args.Harmless (args : Args) : Prop :=
  (∃ a ∈ args.infos, a.raises = true) ∨ args.infos.filter Address.kept = [] ∨
    (args.ssl ≠ some false ∧ (args.startServing = true →
      (∀ a ∈ args.infos.filter Address.kept, a.listen = true ∧ a.register = true) ∨
        ∃ a, args.infos.filter Address.kept = [a] ∧ a.listen = false))

/-- Beyond what was open before there are the sockets of the list, and no listener. -/
structure Holds (base : World) (c : Call) : Prop where
  fds : c.world.fds = base.fds ∪ (c.sockets.map Prod.fst).toFinset
  apart : ∀ s ∈ c.sockets, s.1 ∉ base.fds
  nodup : (c.sockets.map Prod.fst).Nodup
  polled : c.world.polled = base.polled
  handlesIo : c.world.handlesIo = base.handlesIo
  tcpLstreams : c.world.tcpLstreams = base.tcpLstreams

variable {base w : World} {c : Call} {k : Kernel}

theorem Holds.mem (h : Holds base c) {s : Nat × Address} (there : s ∈ c.sockets) :
    s.1 ∈ c.world.fds := by
  rw [h.fds]
  exact Finset.mem_union_right _ (List.mem_toFinset.mpr (List.mem_map_of_mem there))

theorem Holds.socket {fd : Nat} (h : Holds base c) (fresh : fd ∉ c.world.fds) (a : Address) :
    Holds base ⟨c.world.socket fd, c.sockets ++ [(fd, a)]⟩ where
  fds := by
    ext x
    simp only [World.socket, h.fds, Finset.mem_insert, Finset.mem_union, List.mem_toFinset,
      List.map_append, List.mem_append, List.map_cons, List.map_nil, List.mem_singleton]
    tauto
  apart := by
    intro s there
    rcases List.mem_append.mp there with old | new
    · exact h.apart s old
    · rw [List.mem_singleton.mp new]
      exact fun before => fresh (h.fds ▸ Finset.mem_union_left _ before)
  nodup := by
    rw [List.map_append, List.nodup_append]
    refine ⟨h.nodup, List.nodup_singleton fd, ?_⟩
    rintro x old y new rfl
    obtain ⟨s, there, rfl⟩ := List.mem_map.mp old
    cases List.mem_singleton.mp new
    exact fresh (h.mem there)
  polled := h.polled
  handlesIo := h.handlesIo
  tcpLstreams := h.tcpLstreams

theorem socket_close {fd : Nat} (fresh : fd ∉ w.fds) :
    ((w.socket fd).close fd).fds = w.fds ∧ ((w.socket fd).close fd).polled = w.polled := by
  refine ⟨Finset.erase_insert fresh, Finset.erase_eq_of_notMem ?_⟩
  exact fun polled => fresh (w.polled_open polled)

/-- A socket that was opened last is closed again. -/
theorem Holds.unavailable {fd : Nat} (h : Holds base c) (fresh : fd ∉ c.world.fds) (a : Address) :
    Holds base ⟨(c.world.socket fd).close fd, (c.sockets ++ [(fd, a)]).dropLast⟩ := by
  obtain ⟨fds, polled⟩ := socket_close fresh
  rw [List.dropLast_concat]
  exact ⟨fds.trans h.fds, h.apart, h.nodup, polled.trans h.polled, h.handlesIo, h.tcpLstreams⟩

/-- The loop over the addresses raises at the first one that makes it, and otherwise it has
a socket for each address it keeps. -/
theorem call_openSockets (k : Kernel) : ∀ (infos : List Address) (c : Call), Holds base c →
    ∃ r d, Raising.call (openSockets k infos) c = (r, d) ∧ Holds base d ∧
      ((∃ a ∈ infos, a.raises = true) → r = .error .osError) ∧
      ((∀ a ∈ infos, a.raises = false) → r = .ok () ∧
        d.sockets.map Prod.snd = c.sockets.map Prod.snd ++ infos.filter Address.kept) := by
  intro infos
  induction infos with
  | nil => exact fun c h => ⟨.ok (), c, rfl, h, by simp, by simp⟩
  | cons a infos ih =>
      intro c h
      -- an address that leaves no socket behind
      have skip : ∀ d : Call, Holds base d → d.sockets = c.sockets → a.raises = false →
        a.kept = false →
          Raising.call (openSockets k (a :: infos)) c = Raising.call (openSockets k infos) d →
          ∃ r e, Raising.call (openSockets k (a :: infos)) c = (r, e) ∧ Holds base e ∧
            ((∃ b ∈ a :: infos, b.raises = true) → r = .error .osError) ∧
            ((∀ b ∈ a :: infos, b.raises = false) → r = .ok () ∧
              e.sockets.map Prod.snd = c.sockets.map Prod.snd ++ (a :: infos).filter
              Address.kept) := by
        intro d hd same quiet gone next
        obtain ⟨r, e, result, he, raises, keeps⟩ := ih d hd
        refine ⟨r, e, next.trans result, he, ?_, ?_⟩
        · simpa [quiet] using raises
        · simpa [quiet, gone, same] using keeps
      have fresh := k.fresh c.world.fds
      cases made : a.socket with
      | false =>
          refine skip c h rfl (by simp [Address.raises, made]) (by simp [Address.kept, made]) ?_
          simp [openSockets, made]
      | true =>
          cases options : a.setsockopt with
          | false =>
              refine ⟨.error .osError,
                ⟨c.world.socket (k.alloc c.world.fds), c.sockets ++ [(k.alloc c.world.fds, a)]⟩,
                ?_, h.socket fresh a, fun _ => rfl, fun quiet => ?_⟩
              · simp [openSockets, made, options]
              · have here := quiet a List.mem_cons_self
                simp [Address.raises, made, options] at here
          | true =>
              cases bound : a.bind with
              | ok =>
                  obtain ⟨r, e, result, he, raises, keeps⟩ := ih _ (h.socket fresh a)
                  have quiet : a.raises = false := by simp [Address.raises, options, bound]
                  have kept : a.kept = true := by simp [Address.kept, made, options, bound]
                  refine ⟨r, e, ?_, he, ?_, ?_⟩
                  · simpa [openSockets, made, options, bound] using result
                  · simpa [quiet] using raises
                  · simpa [quiet, kept] using keeps
              | addrNotAvail =>
                  refine skip _ (h.unavailable fresh a) List.dropLast_concat
                    (by simp [Address.raises, options, bound]) (by simp [Address.kept, bound]) ?_
                  simp [openSockets, made, options, bound]
              | fails =>
                  refine ⟨.error .osError, ⟨c.world.socket (k.alloc c.world.fds),
                    c.sockets ++ [(k.alloc c.world.fds, a)]⟩, ?_, h.socket fresh a, fun _ => rfl,
                    fun quiet => ?_⟩
                  · simp [openSockets, made, options, bound]
                  · have here := quiet a List.mem_cons_self
                    simp [Address.raises, made, bound] at here

/-- Only the sockets of the list are closed, and none of the tables changes. -/
theorem closeAll_spec : ∀ (sockets : List (Nat × Address)) (w : World),
    (closeAll sockets w).fds = w.fds \ (sockets.map Prod.fst).toFinset ∧
      (closeAll sockets w).polled = w.polled \ (sockets.map Prod.fst).toFinset ∧
      (closeAll sockets w).handlesIo = w.handlesIo ∧
      (closeAll sockets w).tcpLstreams = w.tcpLstreams := by
  intro sockets
  induction sockets with
  | nil => intro w; simp [closeAll]
  | cons s sockets ih =>
      intro w
      obtain ⟨fds, polled, handles, listeners⟩ := ih (w.close s.1)
      have next : closeAll (s :: sockets) w = closeAll sockets (w.close s.1) := rfl
      rw [next]
      refine ⟨?_, ?_, handles, listeners⟩
      · rw [fds]
        ext x
        simp only [World.close, Finset.mem_sdiff, Finset.mem_erase, List.mem_toFinset,
          List.map_cons, List.mem_cons]
        tauto
      · rw [polled]
        ext x
        simp only [World.close, Finset.mem_sdiff, Finset.mem_erase, List.mem_toFinset,
          List.map_cons, List.mem_cons]
        tauto

/-- The sockets of the list are not open before the call. -/
theorem Holds.disjoint (h : Holds base c) :
    Disjoint base.fds (c.sockets.map Prod.fst).toFinset := by
  apply Finset.disjoint_right.mpr
  intro x new
  obtain ⟨s, there, rfl⟩ := List.mem_map.mp (List.mem_toFinset.mp new)
  exact h.apart s there

/-- The world before the call, as far as descriptors and tables go. -/
def Restored (base w : World) : Prop :=
  w.fds = base.fds ∧ w.handlesIo = base.handlesIo ∧ w.tcpLstreams = base.tcpLstreams ∧
    w.polled = base.polled

theorem Holds.closeAll (h : Holds base c) : Restored base (closeAll c.sockets c.world) := by
  obtain ⟨fds, polled, handles, listeners⟩ := closeAll_spec c.sockets c.world
  refine ⟨?_, handles.trans h.handlesIo, listeners.trans h.tcpLstreams, ?_⟩
  · rw [fds, h.fds, Finset.union_sdiff_cancel_right h.disjoint]
  · rw [polled, h.polled]
    exact Finset.sdiff_eq_self_of_disjoint
      (Finset.disjoint_of_subset_left base.polled_open h.disjoint)

/-- Nothing is open and nothing listens before the call. -/
theorem Holds.start (w : World) : Holds w ⟨w, []⟩ where
  fds := by simp
  apart := by simp
  nodup := List.nodup_nil
  polled := rfl
  handlesIo := rfl
  tcpLstreams := rfl

/-- The first part raises and restores, or returns with a socket at least. -/
def GivesUp (infos : List Address) : Prop := (∃ a ∈ infos, a.raises = true) ∨
    infos.filter Address.kept = []

theorem call_bindSockets_error {infos : List Address} (gives : GivesUp infos) :
    ∃ d, Raising.call (bindSockets k infos) ⟨w, []⟩ = (.error .osError, d) ∧
    Restored w d.world := by
  obtain ⟨r, d, result, holds, raises, keeps⟩ := call_openSockets k infos _ (Holds.start w)
  have failed : (r = .error .osError) ∨ (r = .ok () ∧ d.sockets = []) := by
    by_cases loud : ∃ a ∈ infos, a.raises = true
    · exact .inl (raises loud)
    · have quiet : ∀ a ∈ infos, a.raises = false := by
        intro a there
        exact Bool.eq_false_iff.mpr fun yes => loud ⟨a, there, yes⟩
      obtain ⟨done, sockets⟩ := keeps quiet
      rw [gives.resolve_left loud] at sockets
      exact .inr ⟨done, List.map_eq_nil_iff.mp sockets⟩
  refine ⟨{ d with world := closeAll d.sockets d.world }, ?_, holds.closeAll⟩
  rcases failed with rfl | ⟨rfl, none⟩
  · simp [bindSockets, result]
  · simp [bindSockets, result, none]

theorem call_bindSockets_ok {infos : List Address} (goes : ¬ GivesUp infos) :
    ∃ d, Raising.call (bindSockets k infos) ⟨w, []⟩ = (.ok (), d) ∧ Holds w d ∧
      d.sockets.map Prod.snd = infos.filter Address.kept := by
  obtain ⟨r, d, result, holds, -, keeps⟩ := call_openSockets k infos _ (Holds.start w)
  have quiet : ∀ a ∈ infos, a.raises = false := by
    intro a there
    exact Bool.eq_false_iff.mpr fun yes => goes (.inl ⟨a, there, yes⟩)
  obtain ⟨rfl, sockets⟩ := keeps quiet
  have some : d.sockets ≠ [] := by
    intro none
    rw [none] at sockets
    exact goes (.inr sockets.symm)
  exact ⟨d, by simp [bindSockets, result, some], holds, sockets⟩

/-- What a listener adds to the world. -/
def World.serve (w : World) (s : Nat × Address) : World :=
  (w.listen s.1).tcpListenerAdd s.1 s.2.register

def serveAll (servers : List (Nat × Address)) (w : World) : World := servers.foldl World.serve w

@[simp] theorem serveAll_cons (s : Nat × Address) (servers : List (Nat × Address)) (w : World) :
    serveAll (s :: servers) w = serveAll servers (w.serve s) := rfl

/-- Sockets that can listen are served, and then it goes on with the rest. -/
theorem call_startServing_append (rest : List (Nat × Address)) :
    ∀ (servers : List (Nat × Address)) (c : Call), (∀ s ∈ servers, s.2.listen = true) →
      Raising.call (startServing (servers ++ rest)) c =
        Raising.call (startServing rest) { c with world := serveAll servers c.world } := by
  intro servers
  induction servers with
  | nil => exact fun c _ => rfl
  | cons s servers ih =>
      intro c can
      have here := can s List.mem_cons_self
      have later := ih { c with world := c.world.serve s } fun t there =>
        can t (List.mem_cons_of_mem s there)
      rw [List.cons_append]
      simpa [startServing, listen, here, World.serve] using later

/-- It stops at the first socket that cannot listen, and closes that one. -/
theorem call_startServing_error {servers : List (Nat × Address)} (rest : List (Nat × Address))
    {s : Nat × Address} (c : Call) (can : ∀ t ∈ servers, t.2.listen = true)
    (cannot : s.2.listen = false) : Raising.call (startServing (servers ++ s :: rest)) c =
      (.error .osError, { c with world := (serveAll servers c.world).close s.1 }) := by
  rw [call_startServing_append (s :: rest) servers c can]
  simp [startServing, listen, cannot]

theorem call_startServing_ok {servers : List (Nat × Address)} (c : Call)
    (can : ∀ s ∈ servers, s.2.listen = true) : Raising.call
    (startServing servers) c = (.ok (), { c with world := serveAll servers c.world }) := by
  have run := call_startServing_append [] servers c can
  rw [List.append_nil] at run
  simpa [startServing] using run

/-- Serving opens and closes nothing. -/
theorem serveAll_fds : ∀ (servers : List (Nat × Address)) (w : World),
    (serveAll servers w).fds = w.fds := by
  intro servers
  induction servers with
  | nil => exact fun w => rfl
  | cons s servers ih => exact fun w => ih (w.serve s)

/-- What a descriptor is after serving it was before, or it is one of the served. -/
theorem mem_serveAll (x : Nat) : ∀ (servers : List (Nat × Address)) (w : World),
    (x ∈ (serveAll servers w).listening ↔ x ∈ w.listening ∨ ∃ s ∈ servers, s.1 = x) ∧
      (x ∈ (serveAll servers w).handlesIo ↔ x ∈ w.handlesIo ∨ ∃ s ∈ servers, s.1 = x) ∧
      (x ∈ (serveAll servers w).tcpLstreams ↔ x ∈ w.tcpLstreams ∨ ∃ s ∈ servers, s.1 = x) ∧
      (x ∈ (serveAll servers w).polled ↔
        x ∈ w.polled ∨ (x ∈ w.fds ∧ ∃ s ∈ servers, s.1 = x ∧ s.2.register = true)) := by
  intro servers
  induction servers with
  | nil => intro w; simp [serveAll]
  | cons s servers ih =>
      intro w
      obtain ⟨listening, handles, listeners, polled⟩ := ih (w.serve s)
      rw [serveAll_cons, listening, handles, listeners, polled]
      refine ⟨?_, ?_, ?_, ?_⟩
      · simp only [World.serve, World.tcpListenerAdd, World.listen, Finset.mem_insert,
          List.exists_mem_cons_iff]
        grind
      · simp only [World.serve, World.tcpListenerAdd, World.listen, Finset.mem_insert,
          List.exists_mem_cons_iff]
        grind
      · simp only [World.serve, World.tcpListenerAdd, World.listen, Finset.mem_insert,
          List.exists_mem_cons_iff]
        grind
      · have known := @w.polled_open x
        simp only [World.serve, World.tcpListenerAdd, World.listen, List.exists_mem_cons_iff]
        cases registers : s.2.register with
        | true => simp only [if_true, Finset.mem_inter, Finset.mem_insert]; grind
        | false => simp

/-- All sockets can listen, or there is a first one that cannot. -/
theorem first_failure (servers : List (Nat × Address)) :
    (∀ s ∈ servers, s.2.listen = true) ∨ ∃ before s rest, servers = before ++ s :: rest ∧
      (∀ t ∈ before, t.2.listen = true) ∧ s.2.listen = false := by
  cases found : servers.find? fun s => !s.2.listen with
  | none =>
      left
      intro s there
      simpa using List.find?_eq_none.mp found s there
  | some s =>
      right
      obtain ⟨cannot, before, rest, split, can⟩ := List.find?_eq_some_iff_append.mp found
      exact ⟨before, s, rest, split, by simpa using can, by simpa using cannot⟩

theorem Restored.undone {v : World} (h : Restored base v) : Undone base v :=
  ⟨h.1, h.2.1.le, h.2.2.1.le, h.2.2.2.le⟩

/-- A socket that is still open is not undone. -/
theorem Holds.not_undone {v : World} (h : Holds base c) {s : Nat × Address} (there : s ∈ c.sockets)
    (remains : s.1 ∈ v.fds) : ¬ Undone base v := by
  intro undone
  rw [undone.1] at remains
  exact h.apart s there remains

/-- After a failed `listen` all is undone just if there was only this socket. -/
theorem Holds.undone_iff (h : Holds base c) {before rest : List (Nat × Address)} {s : Nat × Address}
    (split : c.sockets = before ++ s :: rest) :
    Undone base ((serveAll before c.world).close s.1) ↔ c.sockets = [s] := by
  have open_of (t : Nat × Address) (there : t ∈ c.sockets) (other : t.1 ≠ s.1) :
      t.1 ∈ ((serveAll before c.world).close s.1).fds := by
    apply Finset.mem_erase.mpr
    rw [serveAll_fds]
    exact ⟨other, h.mem there⟩
  have apart := h.nodup
  rw [split, List.map_append, List.map_cons] at apart
  constructor
  · intro undone
    have none_before : before = [] := by
      apply List.eq_nil_iff_forall_not_mem.mpr
      intro t early
      have there : t ∈ c.sockets := split ▸ List.mem_append_left _ early
      refine h.not_undone there (open_of t there ?_) undone
      exact (List.nodup_append.mp apart).2.2 t.1 (List.mem_map_of_mem early) s.1 List.mem_cons_self
    have none_after : rest = [] := by
      apply List.eq_nil_iff_forall_not_mem.mpr
      intro t late
      have there : t ∈ c.sockets := split ▸ List.mem_append_right _ (List.mem_cons_of_mem s late)
      refine h.not_undone there (open_of t there ?_) undone
      intro same
      have once := (List.nodup_cons.mp (List.nodup_append.mp apart).2.1).1
      exact once (same ▸ List.mem_map_of_mem late)
    rw [split, none_before, none_after, List.nil_append]
  · intro single
    have none_before : before = [] := by
      have length := congrArg List.length (split.symm.trans single)
      simp only [List.length_append, List.length_cons, List.length_nil] at length
      exact List.length_eq_zero_iff.mp (by omega)
    subst none_before
    have new : s.1 ∉ base.fds := h.apart s (by simp [single])
    refine ⟨?_, h.handlesIo.le, h.tcpLstreams.le, ?_⟩
    · change c.world.fds.erase s.1 = base.fds
      rw [h.fds, single]
      ext x
      simp only [List.map_cons, List.map_nil, Finset.mem_erase, Finset.mem_union, List.mem_toFinset,
        List.mem_singleton]
      grind
    · exact (Finset.erase_subset _ _).trans h.polled.le

/-- The part of the call after the first, on the sockets it has then. -/
def afterwards (args : Args) : Py Server := do
  let server ← tcpServer args.ssl (← get).sockets
  if args.startServing then startServing server.servers
  return server

theorem allOrNothing_iff_fair (args : Args) : AllOrNothing k args w ↔
    Fair args w (Raising.andThen (fun _ => afterwards args)
      (Raising.call (bindSockets k args.infos) ⟨w, []⟩)) := by
  have whole : createServer k args = (bindSockets k args.infos >>= fun _ => afterwards args) := rfl
  rw [AllOrNothing, whole, Raising.call_bind]

/-- Serving all sockets of the call registers those whose registration goes through. -/
theorem Holds.fair_serving (h : Holds base c) {args : Args} (serving : args.startServing = true)
    {names : List Bool} : Fair args base
    (.ok ⟨names, c.sockets⟩, { c with world := serveAll c.sockets c.world }) ↔
      ∀ s ∈ c.sockets, s.2.register = true := by
  have facts := fun x => mem_serveAll x c.sockets c.world
  constructor
  · intro fair s there
    rcases (facts s.1).2.2.2.mp (fair serving s there).2.2.2 with
      old | ⟨-, t, there', same, registers⟩
    · rw [h.polled] at old
      exact absurd (base.polled_open old) (h.apart s there)
    · have equal := List.inj_on_of_nodup_map h.nodup there' there same
      exact equal ▸ registers
  · intro registers _ s there
    obtain ⟨listening, handles, listeners, polled⟩ := facts s.1
    refine ⟨listening.mpr (.inr ⟨s, there, rfl⟩), handles.mpr (.inr ⟨s, there, rfl⟩),
      listeners.mpr (.inr ⟨s, there, rfl⟩), polled.mpr (.inr ?_)⟩
    exact ⟨h.mem there, s, there, rfl, registers s there⟩

theorem Holds.fair_iff (h : Holds base c) (some : c.sockets ≠ []) (args : Args) :
    Fair args base (Raising.call (afterwards args) c) ↔ args.ssl ≠ .some false ∧
    (args.startServing = true →
      (∀ s ∈ c.sockets, s.2.listen = true ∧ s.2.register = true) ∨
      ∃ s, c.sockets = [s] ∧ s.2.listen = false) := by
  by_cases ssl : args.ssl = .some false
  · -- the configuration is not built, and the numbers are lost
    have run : Raising.call (afterwards args) c = (.error .sslError, c) := by
      simp [afterwards, tcpServer, ssl]
    obtain ⟨s, there⟩ := List.exists_mem_of_ne_nil _ some
    rw [run]
    exact iff_of_false (h.not_undone there (h.mem there)) fun fine => fine.1 ssl
  · cases serving : args.startServing with
    | false =>
        have run : Raising.call (afterwards args) c =
            (.ok ⟨c.sockets.map fun s => s.2.getsockname, c.sockets⟩, c) := by
          simp [afterwards, tcpServer, ssl, serving]
        rw [run]
        refine iff_of_true (fun yes => ?_) ⟨ssl, fun yes => ?_⟩
        · rw [serving] at yes
          cases yes
        · cases yes
    | true =>
        rcases first_failure c.sockets with can | ⟨before, s, rest, split, can, cannot⟩
        · have run : Raising.call (afterwards args) c =
              (.ok ⟨c.sockets.map fun s => s.2.getsockname, c.sockets⟩,
                { c with world := serveAll c.sockets c.world }) := by
            simp [afterwards, tcpServer, ssl, serving, call_startServing_ok c can]
          rw [run, h.fair_serving serving]
          constructor
          · exact fun registers => ⟨ssl, fun _ => .inl fun s there =>
              ⟨can s there, registers s there⟩⟩
          · rintro ⟨-, fine⟩ s there
            rcases fine rfl with both | ⟨t, single, cannot⟩
            · exact (both s there).2
            · have listens := can t (by simp [single])
              rw [cannot] at listens
              cases listens
        · have run : Raising.call (afterwards args) c =
              (.error .osError, { c with world := (serveAll before c.world).close s.1 }) := by
            have stop := call_startServing_error rest c can cannot
            rw [← split] at stop
            simp [afterwards, tcpServer, ssl, serving, stop]
          rw [run]
          refine (h.undone_iff split).trans ⟨fun single => ⟨ssl, fun _ => .inr ⟨s, single, cannot⟩⟩,
            ?_⟩
          rintro ⟨-, fine⟩
          rcases fine rfl with both | ⟨t, single, -⟩
          · have listens := (both s (by simp [split])).1
            rw [cannot] at listens
            cases listens
          · have there : s ∈ [t] := by
              rw [← single, split]
              exact List.mem_append_right _ List.mem_cons_self
            rw [single, List.mem_singleton.mp there]

theorem create_server_all_or_nothing_iff (k : Kernel) (args : Args) (w : World) :
    AllOrNothing k args w ↔ args.Harmless := by
  rw [allOrNothing_iff_fair]
  by_cases gives : GivesUp args.infos
  · obtain ⟨d, result, restored⟩ := call_bindSockets_error (k := k) (w := w) gives
    rw [result]
    refine iff_of_true restored.undone ?_
    rcases gives with loud | none
    · exact .inl loud
    · exact .inr (.inl none)
  · obtain ⟨d, result, holds, sockets⟩ := call_bindSockets_ok (k := k) (w := w) gives
    have some : d.sockets ≠ [] := by
      intro none
      rw [none] at sockets
      exact gives (.inr sockets.symm)
    rw [result, Raising.andThen_ok, holds.fair_iff some args]
    unfold GivesUp at gives
    unfold Args.Harmless
    rw [← or_assoc, or_iff_right gives, ← sockets]
    -- the conditions on the sockets are conditions on their addresses
    have all : (∀ a ∈ d.sockets.map Prod.snd, a.listen = true ∧ a.register = true) ↔
        ∀ s ∈ d.sockets, s.2.listen = true ∧ s.2.register = true := List.forall_mem_map
    have single : (∃ a, d.sockets.map Prod.snd = [a] ∧ a.listen = false) ↔
        ∃ s, d.sockets = [s] ∧ s.2.listen = false := by
      simp only [List.map_eq_singleton_iff]
      grind
    rw [all, single]

/-- Addresses that go through, but for the `listen` of the second. -/
def twoAddresses : Args :=
  ⟨[⟨true, true, .ok, true, true, true⟩, ⟨true, true, .ok, true, false, true⟩], none, true⟩

/-- The first socket stays open and listens, although the call has raised. -/
theorem second_listen_leaves_first : ¬ ∀ (k : Kernel) (args : Args) (w : World),
    AllOrNothing k args w := by
  intro always
  have undone := always
    { alloc := fun fds => fds.sup id + 1
      fresh := fun _ there => Nat.not_succ_le_self _ (Finset.le_sup (f := id) there) }
    twoAddresses ⟨∅, ∅, ∅, ∅, ∅, Finset.empty_subset ∅⟩
  exact absurd undone.1 (by decide)

end TokioLoop.CreateServer
