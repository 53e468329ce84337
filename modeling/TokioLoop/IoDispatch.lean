import TokioLoop.IoTable
import TokioLoop.LoopSignals

/-!
The dispatch of poll events on RLoop, for entries of every kind. An event carries a token
only: of a registered descriptor its number, and of the loop's waker `Token(0)`. The
specification looks at the source of the event instead.

A callback handle knows its descriptor and direction. The registry calls succeed; the
calls come from running callbacks and from other threads, so at any point.
-/
namespace TokioLoop.Io.Dispatch

open Runs Tcp

/-- The `CBHandle` of one `add_reader` or `add_writer`. -/
structure Callback where
  id : Nat
  fd : Nat
  dir : Dir
  deriving DecidableEq

inductive Source where
  | waker
  | fd (n : Nat)
  deriving DecidableEq

/-- `Waker::new(poll.registry(), Token(0))`, and `Token(fd)` everywhere else. -/
def Source.token : Source → Nat
  | .waker => 0
  | .fd n => n

structure Event where
  source : Source
  readable : Bool
  writable : Bool
  deriving DecidableEq

def Event.has (e : Event) : Dir → Bool
  | .readable => e.readable
  | .writable => e.writable

/-- What the system calls of one dispatch return: the descriptors `accept` gives up to
its first error, and the bytes that wait at the self-socket. -/
structure Answers where
  accepts : List Nat
  bytes : List UInt8

/-- A handle of the batch; `task` is one of the ready queue or of the timers. -/
inductive Queued where
  | io (cb : Callback)
  | connection (fd : Nat)
  | tcpRead (fd : Nat)
  | tcpWrite (fd : Nat)
  | udpRead (fd : Nat)
  | udpWrite (fd : Nat)
  | signal (obj : Nat)
  | task
  deriving DecidableEq

/-- What the dispatch works on. -/
structure Core where
  table : Table Callback
  cancelled : Nat → Bool
  sigHandlers : UInt8 → Option (Loop.SigHandler Unit)
  sigListening : Bool
  ssock : Bool

variable {κ : Type}

def tcpListenerAdd (t : Table κ) (fd : Nat) : Table κ :=
  t.set fd (some .tcpListener) (some (.only .readable))

def tcpListenerRem (t : Table κ) (fd : Nat) : Option (Table κ) :=
  match t.handlesIo fd with
  | none => some t
  | some .tcpListener => some (t.set fd none none)
  | some _ => none

/-- `tcp_stream_add` and `udp_socket_add`: `own` reads the entries of the kind that `mk`
makes, and an entry of another kind is unreachable. -/
def streamAdd (mk : Interest → IOHandle κ) (own : IOHandle κ → Option Interest) (t : Table κ)
    (fd : Nat) (d : Dir) : Option (Table κ) :=
  match t.handlesIo fd with
  | none => some (t.set fd (some (mk (.only d))) (some (.only d)))
  | some entry =>
      (own entry).map fun prev =>
        if prev = .only d then t else t.set fd (some (mk (prev.add d))) (some (prev.add d))

/-- `tcp_stream_rem` and `udp_socket_rem` -/
def streamRem (mk : Interest → IOHandle κ) (own : IOHandle κ → Option Interest) (t : Table κ)
    (fd : Nat) (d : Dir) : Option (Table κ) :=
  match t.handlesIo fd with
  | none => some t
  | some entry => (own entry).map fun prev => t.set fd ((prev.remove d).map mk) (prev.remove d)

def IOHandle.tcp : IOHandle κ → Option Interest
  | .tcpStream interest => some interest
  | _ => none

def IOHandle.udp : IOHandle κ → Option Interest
  | .udpSocket interest => some interest
  | _ => none

def tcpStreamAdd (t : Table κ) (fd : Nat) (d : Dir) : Option (Table κ) :=
  streamAdd .tcpStream IOHandle.tcp t fd d

def tcpStreamRem (t : Table κ) (fd : Nat) (d : Dir) : Option (Table κ) :=
  streamRem .tcpStream IOHandle.tcp t fd d

def udpSocketAdd (t : Table κ) (fd : Nat) (d : Dir) : Option (Table κ) :=
  streamAdd .udpSocket IOHandle.udp t fd d

def udpSocketRem (t : Table κ) (fd : Nat) (d : Dir) : Option (Table κ) :=
  streamRem .udpSocket IOHandle.udp t fd d

def ssockSet (t : Table κ) (fdR : Nat) : Table κ :=
  t.set fdR (some .signals) (some (.only .readable))

/-- The entry is taken out whatever it is, the descriptor deregistered for `Signals` only. -/
def ssockDel (t : Table κ) (fdR : Nat) : Table κ :=
  match t.handlesIo fdR with
  | some .signals => t.set fdR none none
  | _ => t.set fdR none (t.registered fdR)

/-- A call of the loop's own code or of a transport on the table. -/
inductive OwnCall where
  | tcpListenerAdd (fd : Nat)
  | tcpListenerRem (fd : Nat)
  | tcpStreamAdd (fd : Nat) (d : Dir)
  | tcpStreamRem (fd : Nat) (d : Dir)
  | udpSocketAdd (fd : Nat) (d : Dir)
  | udpSocketRem (fd : Nat) (d : Dir)

def OwnCall.exec (t : Table κ) : OwnCall → Option (Table κ)
  | .tcpListenerAdd fd => some (Dispatch.tcpListenerAdd t fd)
  | .tcpListenerRem fd => Dispatch.tcpListenerRem t fd
  | .tcpStreamAdd fd d => Dispatch.tcpStreamAdd t fd d
  | .tcpStreamRem fd d => Dispatch.tcpStreamRem t fd d
  | .udpSocketAdd fd d => Dispatch.udpSocketAdd t fd d
  | .udpSocketRem fd d => Dispatch.udpSocketRem t fd d

def handleIoPy (data : PyHandleData κ) (readable writable : Bool) : List κ :=
  (if readable then data.cbr.toList else []) ++ if writable then data.cbw.toList else []

/-- The loop over `accept`: each connection gets an entry and a handle. -/
def handleIoTcpl (t : Table κ) (accepts : List Nat) : Table κ × List Queued :=
  (accepts.foldl (fun t fd => t.set fd (some (.tcpStream (.only .readable)))
      (some (.only .readable))) t,
    accepts.map .connection)

def handleIoTcps (fd : Nat) (readable writable : Bool) : List Queued :=
  if readable then [.tcpRead fd] else if writable then [.tcpWrite fd] else []

def handleIoUdp (fd : Nat) (readable writable : Bool) : List Queued :=
  if readable then [.udpRead fd] else if writable then [.udpWrite fd] else []

def handleIoSignals (s : Core) (bytes : List UInt8) : Core × List Queued :=
  if s.ssock && s.sigListening then
    let d := bytes.foldl (Loop.sigHandle s.cancelled) ⟨s.sigHandlers, [], false⟩
    ({ s with sigHandlers := d.sigHandlers }, d.handles.filterMap fun handle =>
      handle.obj.map .signal)
  else (s, [])

/-- The dispatch of one event by its token. -/
def dispatch (s : Core) (token : Nat) (readable writable : Bool)
    (a : Answers) : Core × List Queued :=
  match s.table.handlesIo token with
  | none => (s, [])
  | some (.py data) => (s, (handleIoPy data readable writable).map .io)
  | some .tcpListener =>
      let r := handleIoTcpl s.table a.accepts
      ({ s with table := r.1 }, r.2)
  | some (.tcpStream _) => (s, handleIoTcps token readable writable)
  | some (.udpSocket _) => (s, handleIoUdp token readable writable)
  | some .signals => handleIoSignals s a.bytes

/-- `events` are the events of the current step that have been dispatched. -/
structure Loop where
  core : Core
  next : Nat
  dispatching : Bool
  events : List Event
  cbHandles : List Queued

inductive Action where
  | poll (ready : Nat)
  | event (e : Event) (a : Answers)
  | timers (due : Nat)
  | pop
  | call (c : Call Unit)
  | own (c : OwnCall)
  | ssockSet (fdR : Nat)
  | ssockDel (fdR : Nat)
  | sigAdd (sig : UInt8) (obj : Nat)
  | sigRem (sig : UInt8)
  | sigClear
  | setListening (on : Bool)
  | cancel (id : Nat)

/-- The call with the handle it makes. -/
def named (id : Nat) : Call Unit → Call Callback
  | .addReader fd _ => .addReader fd ⟨id, fd, .readable⟩
  | .addWriter fd _ => .addWriter fd ⟨id, fd, .writable⟩
  | .removeReader fd => .removeReader fd
  | .removeWriter fd => .removeWriter fd

def Core.sig (s : Core) (sigHandlers : UInt8 → Option (Loop.SigHandler Unit)) : Core :=
  { s with sigHandlers }

def step (s : Loop) : Action → Option Loop
  | .poll ready =>
      if s.dispatching = false ∧ s.cbHandles = [] then
        some { s with dispatching := true, events := [], cbHandles := List.replicate ready .task }
      else none
  | .event e a =>
      if s.dispatching then
        let r := dispatch s.core e.source.token e.readable e.writable a
        some { s with core := r.1, events := s.events ++ [e], cbHandles := s.cbHandles ++ r.2 }
      else none
  | .timers due =>
      if s.dispatching then
        some { s with dispatching := false, cbHandles := s.cbHandles ++ List.replicate due .task }
      else none
  | .pop =>
      match s.cbHandles with
      | [] => none
      | _ :: rest => if s.dispatching then none else some { s with cbHandles := rest }
  | .call c =>
      (Io.step s.core.table (named s.next c)).map fun table =>
        { s with core := { s.core with table }, next := s.next + 1 }
  | .own c => (c.exec s.core.table).map fun table => { s with core := { s.core with table } }
  | .ssockSet fdR =>
      some { s with core := { s.core with
        table := Dispatch.ssockSet s.core.table fdR, ssock := true } }
  | .ssockDel fdR =>
      some { s with core := { s.core with
        table := Dispatch.ssockDel s.core.table fdR, ssock := false } }
  | .sigAdd sig obj =>
      some { s with core := s.core.sig (Function.update s.core.sigHandlers sig (some ⟨obj, ()⟩)) }
  | .sigRem sig => some { s with core := s.core.sig (Function.update s.core.sigHandlers sig none) }
  | .sigClear => some { s with core := s.core.sig fun _ => none }
  | .setListening on => some { s with core := { s.core with sigListening := on } }
  | .cancel id =>
      some { s with core := { s.core with cancelled := Function.update s.core.cancelled id true } }

/-- The handles that the source of an event is owed: none for the waker; for a descriptor,
what its own entry has in each direction that is reported ready. -/
inductive Owes (s : Core) (e : Event) (a : Answers) : Queued → Prop where
  | py (n : Nat) (data : PyHandleData Callback) (d : Dir) (cb : Callback) : e.source = .fd n →
      s.table.handlesIo n = some (.py data) → e.has d = true → data.slot d = some cb →
      Owes s e a (.io cb)
  | connection (n fd : Nat) : e.source = .fd n → s.table.handlesIo n = some .tcpListener →
      fd ∈ a.accepts → Owes s e a (.connection fd)
  | tcpRead (n : Nat) (i : Interest) : e.source = .fd n →
      s.table.handlesIo n = some (.tcpStream i) → e.readable = true → Owes s e a (.tcpRead n)
  | tcpWrite (n : Nat) (i : Interest) : e.source = .fd n →
      s.table.handlesIo n = some (.tcpStream i) → e.writable = true → Owes s e a (.tcpWrite n)
  | udpRead (n : Nat) (i : Interest) : e.source = .fd n →
      s.table.handlesIo n = some (.udpSocket i) → e.readable = true → Owes s e a (.udpRead n)
  | udpWrite (n : Nat) (i : Interest) : e.source = .fd n →
      s.table.handlesIo n = some (.udpSocket i) → e.writable = true → Owes s e a (.udpWrite n)
  | signal (n : Nat) (sig : UInt8) (h : Loop.SigHandler Unit) : e.source = .fd n →
      s.table.handlesIo n = some .signals → s.ssock = true → s.sigListening = true → sig ∈ a.bytes →
      s.sigHandlers sig = some h → s.cancelled h.obj = false → Owes s e a (.signal h.obj)

/-- The dispatch of an event appends the handles it is owed and no others; a callback that
runs has had its own descriptor reported ready in this step. -/
def Faithful (s : Loop) : Action → Prop
  | .event e a => ∃ more, (∀ t, step s (.event e a) = some t → t.cbHandles = s.cbHandles ++ more) ∧
      ∀ handle, handle ∈ more ↔ Owes s.core e a handle
  | .pop => ∀ cb rest, s.cbHandles = .io cb :: rest → s.core.cancelled cb.id = false →
      ∃ e ∈ s.events, e.source = .fd cb.fd ∧ e.has cb.dir = true
  | _ => True

/-- The entry of descriptor 0, if there is one, has nothing for the event. -/
def Core.SilentAtZero (s : Core) (e : Event) (a : Answers) : Prop :=
  match s.table.handlesIo 0 with
  | none => True
  | some (.py data) => ∀ d, e.has d = true → data.slot d = none
  | some .tcpListener => a.accepts = []
  | some (.tcpStream _) | some (.udpSocket _) => e.readable = false ∧ e.writable = false
  | some .signals => s.ssock = true → s.sigListening = true →
      ∀ sig ∈ a.bytes, ∀ h, s.sigHandlers sig = some h → s.cancelled h.obj = true

/-- A stream or UDP socket is not reported ready in both directions. -/
def Core.OneWay (s : Core) (n : Nat) (e : Event) : Prop :=
  match s.table.handlesIo n with
  | some (.tcpStream _) | some (.udpSocket _) => e.readable = false ∨ e.writable = false
  | _ => True

/-- A notification of the waker meets no entry of descriptor 0 that answers it, and the
event of a stream or UDP socket reports one direction. -/
def Plain (s : Loop) : Action → Prop
  | .event e a =>
      match e.source with
      | .waker => s.core.SilentAtZero e a
      | .fd n => s.core.OneWay n e
  | _ => True

/-- A loop before its first step and its first callback. -/
structure Started (s : Loop) : Prop where
  entries : ∀ fd data, s.core.table.handlesIo fd ≠ some (.py data)
  batch : s.cbHandles = []

theorem mem_handleIoPy {data : PyHandleData κ} {e : Event} {cb : κ} :
    cb ∈ handleIoPy data e.readable e.writable ↔ ∃ d, e.has d = true ∧ data.slot d = some cb := by
  simp only [handleIoPy, List.mem_append]
  constructor
  · rintro (reader | writer)
    · obtain ⟨ready, there⟩ := List.mem_ite_nil_right.mp reader
      exact ⟨.readable, ready, Option.mem_toList.mp there⟩
    · obtain ⟨ready, there⟩ := List.mem_ite_nil_right.mp writer
      exact ⟨.writable, ready, Option.mem_toList.mp there⟩
  · rintro ⟨d, ready, there⟩
    cases d with
    | readable => exact .inl (List.mem_ite_nil_right.mpr ⟨ready, Option.mem_toList.mpr there⟩)
    | writable => exact .inr (List.mem_ite_nil_right.mpr ⟨ready, Option.mem_toList.mpr there⟩)

/-- A lookup takes no handler out of the table that is not cancelled. -/
theorem live_sigHandle {flags : Nat → Bool} {d : Loop.Dispatch Unit} {sig x : UInt8}
    {h : Loop.SigHandler Unit} (live : flags h.obj = false) :
    (Loop.sigHandle flags d sig).sigHandlers x = some h ↔ d.sigHandlers x = some h := by
  unfold Loop.sigHandle
  cases found : d.sigHandlers sig with
  | none => exact Iff.rfl
  | some other =>
      simp only
      split
      next off =>
        simp only [Function.update_apply]
        split
        next same =>
          subst same
          rw [found]
          refine iff_of_false (by simp) fun equal => ?_
          rw [Option.some.inj equal, live] at off
          cases off
        next => exact Iff.rfl
      next => exact Iff.rfl

/-- What a run over the bytes adds: the handles that are not cancelled. -/
theorem mem_fold_sigHandle {flags : Nat → Bool} {bytes : List UInt8} {d : Loop.Dispatch Unit}
    {obj : Nat} : (∃ handle ∈ (bytes.foldl (Loop.sigHandle flags) d).handles,
      handle.obj = some obj) ↔ (∃ handle ∈ d.handles, handle.obj = some obj) ∨
        ∃ sig ∈ bytes, ∃ h, d.sigHandlers sig = some h ∧ flags h.obj = false ∧ h.obj = obj := by
  induction bytes generalizing d with
  | nil => simp
  | cons sig bytes ih =>
      have first : (∃ handle ∈ (Loop.sigHandle flags d sig).handles, handle.obj = some obj) ↔
          (∃ handle ∈ d.handles, handle.obj = some obj) ∨
            ∃ h, d.sigHandlers sig = some h ∧ flags h.obj = false ∧ h.obj = obj := by
        unfold Loop.sigHandle
        cases found : d.sigHandlers sig with
        | none => simp
        | some h =>
            cases off : flags h.obj with
            | true => simp [off]
            | false => simp [off, Loop.SigHandler.entry, or_and_right, exists_or]
      have later : (∃ x ∈ bytes, ∃ h, (Loop.sigHandle flags d sig).sigHandlers x = some h ∧
          flags h.obj = false ∧ h.obj = obj) ↔
          ∃ x ∈ bytes, ∃ h, d.sigHandlers x = some h ∧ flags h.obj = false ∧ h.obj = obj := by
        refine exists_congr fun x => and_congr_right fun _ => exists_congr fun h => ?_
        exact and_congr_left fun live => live_sigHandle live.1
      rw [List.foldl_cons, ih, first, later, List.exists_mem_cons_iff, or_assoc]

theorem mem_handleIoSignals {s : Core} {bytes : List UInt8} {handle : Queued} :
    handle ∈ (handleIoSignals s bytes).2 ↔ s.ssock = true ∧ s.sigListening = true ∧
      ∃ sig ∈ bytes, ∃ h, s.sigHandlers sig = some h ∧ s.cancelled h.obj = false ∧
      .signal h.obj = handle := by
  simp only [handleIoSignals]
  split
  next on =>
    obtain ⟨ssock, listening⟩ := Bool.and_eq_true_iff.mp on
    simp only [List.mem_filterMap, Option.map_eq_some_iff, ssock, listening, true_and]
    constructor
    · rintro ⟨entry, there, obj, named, rfl⟩
      rcases mem_fold_sigHandle.mp ⟨entry, there, named⟩ with
        ⟨_, empty, -⟩ | ⟨sig, read, h, found, live, rfl⟩
      · cases empty
      · exact ⟨sig, read, h, found, live, rfl⟩
    · rintro ⟨sig, read, h, found, live, rfl⟩
      obtain ⟨entry, there, named⟩ := (mem_fold_sigHandle (d := ⟨s.sigHandlers, [], false⟩)).mpr
        (.inr ⟨sig, read, h, found, live, rfl⟩)
      exact ⟨entry, there, h.obj, named, rfl⟩
  next off =>
    refine iff_of_false List.not_mem_nil ?_
    rintro ⟨ssock, listening, -⟩
    exact off (Bool.and_eq_true_iff.mpr ⟨ssock, listening⟩)

theorem mem_handleIoTcps {fd : Nat} {readable writable : Bool} {handle : Queued} :
    handle ∈ handleIoTcps fd readable writable ↔
      (readable = true ∧ handle = .tcpRead fd) ∨
      (readable = false ∧ writable = true ∧ handle = .tcpWrite fd) := by
  cases readable <;> cases writable <;> simp [handleIoTcps]

theorem mem_handleIoUdp {fd : Nat} {readable writable : Bool} {handle : Queued} :
    handle ∈ handleIoUdp fd readable writable ↔
      (readable = true ∧ handle = .udpRead fd) ∨
      (readable = false ∧ writable = true ∧ handle = .udpWrite fd) := by
  cases readable <;> cases writable <;> simp [handleIoUdp]

/-- The dispatch by the token of a descriptor appends only what an event of that descriptor
is owed. -/
theorem owes_of_mem_dispatch {s : Core} {n : Nat} {r w : Bool} {a : Answers} {handle : Queued}
    (h : handle ∈ (dispatch s n r w a).2) : Owes s ⟨.fd n, r, w⟩ a handle := by
  unfold dispatch at h
  split at h
  next => cases h
  next data there =>
    obtain ⟨cb, mem, rfl⟩ := List.mem_map.mp h
    obtain ⟨d, ready, slot⟩ := (mem_handleIoPy (e := ⟨.fd n, r, w⟩)).mp mem
    exact .py n data d cb rfl there ready slot
  next there =>
    obtain ⟨fd, accepted, rfl⟩ := List.mem_map.mp h
    exact .connection n fd rfl there accepted
  next i there =>
    rcases mem_handleIoTcps.mp h with ⟨ready, rfl⟩ | ⟨-, ready, rfl⟩
    · exact .tcpRead n i rfl there ready
    · exact .tcpWrite n i rfl there ready
  next i there =>
    rcases mem_handleIoUdp.mp h with ⟨ready, rfl⟩ | ⟨-, ready, rfl⟩
    · exact .udpRead n i rfl there ready
    · exact .udpWrite n i rfl there ready
  next there =>
    obtain ⟨ssock, listening, sig, read, handler, found, live, rfl⟩ := mem_handleIoSignals.mp h
    exact .signal n sig handler rfl there ssock listening read found live

theorem mem_dispatch_of_owes {s : Core} {n : Nat} {r w : Bool} {a : Answers} {handle : Queued}
    (oneWay : s.OneWay n ⟨.fd n, r, w⟩) (owes : Owes s ⟨.fd n, r, w⟩ a handle) :
    handle ∈ (dispatch s n r w a).2 := by
  unfold dispatch
  cases owes with
  | py m data d cb source there ready slot =>
      cases source
      simp only [there]
      exact List.mem_map_of_mem ((mem_handleIoPy (e := ⟨.fd n, r, w⟩)).mpr ⟨d, ready, slot⟩)
  | connection m fd source there accepted =>
      cases source
      simp only [there]
      exact List.mem_map_of_mem accepted
  | tcpRead m i source there ready =>
      cases source
      simp only [there]
      exact mem_handleIoTcps.mpr (.inl ⟨ready, rfl⟩)
  | tcpWrite m i source there ready =>
      cases source
      simp only [Core.OneWay, there] at oneWay
      simp only [there]
      exact mem_handleIoTcps.mpr (.inr
        ⟨oneWay.resolve_right (ne_of_eq_of_ne ready Bool.noConfusion), ready, rfl⟩)
  | udpRead m i source there ready =>
      cases source
      simp only [there]
      exact mem_handleIoUdp.mpr (.inl ⟨ready, rfl⟩)
  | udpWrite m i source there ready =>
      cases source
      simp only [Core.OneWay, there] at oneWay
      simp only [there]
      exact mem_handleIoUdp.mpr (.inr ⟨oneWay.resolve_right (ne_of_eq_of_ne ready Bool.noConfusion),
        ready, rfl⟩)
  | signal m sig h source there ssock listening read found live =>
      cases source
      simp only [there]
      exact mem_handleIoSignals.mpr ⟨ssock, listening, sig, read, h, found, live, rfl⟩

/-- A stream or UDP socket that is ready in both directions is owed a write handle, and
the dispatch appends the read handle alone. -/
theorem oneWay_of_served {s : Core} {n : Nat} {r w : Bool} {a : Answers}
    (served : ∀ handle, Owes s ⟨.fd n, r, w⟩ a handle → handle ∈ (dispatch s n r w a).2) :
    s.OneWay n ⟨.fd n, r, w⟩ := by
  simp only [Core.OneWay]
  unfold dispatch at served
  split
  next i there =>
    simp only [there] at served
    by_cases ready : w = true
    · rcases mem_handleIoTcps.mp (served _ (.tcpWrite n i rfl there ready)) with
        ⟨-, other⟩ | ⟨still, -⟩
      · cases other
      · exact .inl still
    · exact .inr (Bool.eq_false_of_not_eq_true ready)
  next i there =>
    simp only [there] at served
    by_cases ready : w = true
    · rcases mem_handleIoUdp.mp (served _ (.udpWrite n i rfl there ready)) with
        ⟨-, other⟩ | ⟨still, -⟩
      · cases other
      · exact .inl still
    · exact .inr (Bool.eq_false_of_not_eq_true ready)
  next => trivial

theorem not_owes_waker {s : Core} {r w : Bool} {a : Answers} {handle : Queued} :
    ¬ Owes s ⟨.waker, r, w⟩ a handle := by
  intro owes
  cases owes <;> contradiction

/-- The entry of descriptor 0 is silent exactly if its dispatch appends nothing. -/
theorem silentAtZero_iff {s : Core} {e : Event} {a : Answers} :
    s.SilentAtZero e a ↔ ∀ handle, handle ∉ (dispatch s 0 e.readable e.writable a).2 := by
  obtain ⟨source, r, w⟩ := e
  simp only [Core.SilentAtZero]
  unfold dispatch
  split
  next => simp
  next data there =>
    simp only [List.mem_map, not_exists, not_and]
    constructor
    · rintro silent handle cb mem -
      obtain ⟨d, ready, slot⟩ := (mem_handleIoPy (e := ⟨source, r, w⟩)).mp mem
      rw [silent d ready] at slot
      cases slot
    · intro none d ready
      refine Option.eq_none_iff_forall_ne_some.mpr fun cb slot => ?_
      exact none (.io cb) cb ((mem_handleIoPy (e := ⟨source, r, w⟩)).mpr ⟨d, ready, slot⟩) rfl
  next => simp [handleIoTcpl, List.eq_nil_iff_forall_not_mem]
  next => cases r <;> cases w <;> simp [handleIoTcps]
  next => cases r <;> cases w <;> simp [handleIoUdp]
  next =>
    simp only [mem_handleIoSignals]
    constructor
    · rintro silent handle ⟨ssock, listening, sig, read, h, found, live, -⟩
      rw [silent ssock listening sig read h found] at live
      cases live
    · intro none ssock listening sig read h found
      by_contra live
      exact none _ ⟨ssock, listening, sig, read, h, found, Bool.eq_false_of_not_eq_true live, rfl⟩

/-- A callback stands in the slot it was made for. -/
structure Housed (t : Table Callback) : Prop where
  matched : t.Matches
  home : ∀ fd d cb, t.slots fd d = some cb → cb.fd = fd ∧ cb.dir = d

variable {t u : Table Callback}

/-- A table without an entry of the user's. -/
theorem housed_of_foreign {t : Table Callback}
    (entries : ∀ fd data, t.handlesIo fd ≠ some (.py data)) : Housed t := by
  refine ⟨fun fd data there => absurd there (entries fd data), fun fd d cb there => ?_⟩
  obtain ⟨entry, found, slot⟩ := Option.bind_eq_some_iff.mp there
  cases entry with
  | py data => exact absurd found (entries fd data)
  | _ => cases slot

theorem Housed.set {fd : Nat} {entry : Option (IOHandle Callback)} {interest : Option Interest}
    (h : Housed t) (foreign : ∀ data, entry ≠ some (.py data)) : Housed
    (t.set fd entry interest) := by
  refine ⟨matches_set h.matched fun data there => absurd there (foreign data),
    fun gd d cb there => ?_⟩
  simp only [Table.slots, handlesIo_set] at there
  split at there
  next =>
    obtain ⟨found, rfl, slot⟩ := Option.bind_eq_some_iff.mp there
    cases found with
    | py data => exact absurd rfl (foreign data)
    | _ => cases slot
  next => exact h.home gd d cb there

theorem Housed.streamAdd {mk : Interest → IOHandle Callback}
    {own : IOHandle Callback → Option Interest} {fd : Nat} {d : Dir} (h : Housed t)
    (foreign : ∀ i data, mk i ≠ .py data) (run : streamAdd mk own t fd d = some u) :
    Housed u := by
  have apart : ∀ i data, some (mk i) ≠ some (.py data) :=
    fun i data same => foreign i data (Option.some.inj same)
  unfold Dispatch.streamAdd at run
  split at run
  next =>
    cases run
    exact h.set (apart _)
  next entry there =>
    obtain ⟨prev, -, rfl⟩ := Option.map_eq_some_iff.mp run
    split
    next => exact h
    next => exact h.set (apart _)

theorem Housed.streamRem {mk : Interest → IOHandle Callback}
    {own : IOHandle Callback → Option Interest} {fd : Nat} {d : Dir} (h : Housed t)
    (foreign : ∀ i data, mk i ≠ .py data) (run : streamRem mk own t fd d = some u) :
    Housed u := by
  unfold Dispatch.streamRem at run
  split at run
  next =>
    cases run
    exact h
  next entry there =>
    obtain ⟨prev, -, rfl⟩ := Option.map_eq_some_iff.mp run
    refine h.set fun data same => ?_
    obtain ⟨rest, -, made⟩ := Option.map_eq_some_iff.mp same
    exact foreign rest data made

theorem Housed.own {c : OwnCall} (h : Housed t) (run : c.exec t = some u) : Housed u := by
  cases c with
  | tcpListenerAdd fd =>
      cases run
      exact h.set fun data same => by cases same
  | tcpListenerRem fd =>
      simp only [OwnCall.exec, tcpListenerRem] at run
      split at run
      · cases run
        exact h
      · cases run
        exact h.set fun data same => by cases same
      · cases run
  | tcpStreamAdd fd d => exact h.streamAdd (fun i data same => by cases same) run
  | tcpStreamRem fd d => exact h.streamRem (fun i data same => by cases same) run
  | udpSocketAdd fd d => exact h.streamAdd (fun i data same => by cases same) run
  | udpSocketRem fd d => exact h.streamRem (fun i data same => by cases same) run

theorem Housed.ssockDel {fdR : Nat} (h : Housed t) : Housed (ssockDel t fdR) := by
  unfold Dispatch.ssockDel
  split
  · exact h.set fun data same => by cases same
  · exact h.set fun data same => by cases same

theorem Housed.accepted {accepts : List Nat}
    (h : Housed t) : Housed (handleIoTcpl t accepts).1 := by
  simp only [handleIoTcpl]
  induction accepts generalizing t with
  | nil => exact h
  | cons fd accepts ih => exact ih (h.set fun data same => by cases same)

theorem Housed.call {c : Call Unit} {id : Nat} (h : Housed t)
    (run : Io.step t (named id c) = some u) : Housed u := by
  obtain ⟨r, executed⟩ := step_executed run
  refine ⟨executed_matches executed h.matched, fun fd d cb there => ?_⟩
  rw [executed_slots executed h.matched] at there
  simp only [Call.spec] at there
  split at there
  next here =>
    obtain ⟨rfl, rfl⟩ := here
    cases c <;> cases there <;> exact ⟨rfl, rfl⟩
  next => exact h.home fd d cb there

theorem Housed.dispatch {s : Core} {token : Nat} {r w : Bool} {a : Answers} (h : Housed s.table) :
    Housed (dispatch s token r w a).1.table := by
  unfold Dispatch.dispatch
  split
  · exact h
  · exact h
  · exact h.accepted
  · exact h
  · exact h
  · simp only [handleIoSignals]
    split
    · exact h
    · exact h

/-- A callback in the batch is one whose descriptor was reported ready in this step. -/
structure Inv (s : Loop) : Prop where
  housed : Housed s.core.table
  reported : ∀ cb, Queued.io cb ∈ s.cbHandles → ∃ e ∈ s.events, e.source = .fd cb.fd ∧
      e.has cb.dir = true

theorem started_inv {s : Loop} (start : Started s) : Inv s := by
  refine ⟨housed_of_foreign start.entries, fun cb queued => ?_⟩
  rw [start.batch] at queued
  cases queued

theorem owes_io {s : Core} {e : Event} {a : Answers} {cb : Callback} (h : Housed s.table)
    (owes : Owes s e a (.io cb)) : e.source = .fd cb.fd ∧ e.has cb.dir = true := by
  cases owes with
  | py n data d _ source there ready slot =>
      obtain ⟨rfl, rfl⟩ := h.home n d cb ((slots_of_entry there d).trans slot)
      exact ⟨source, ready⟩

/-- A dispatch is faithful unless the waker is taken for descriptor 0 or a write handle is
dropped. -/
theorem mem_dispatch_owes_iff {s : Loop} {e : Event} {a : Answers} :
    (∀ handle, handle ∈ (dispatch s.core e.source.token e.readable e.writable a).2 ↔
      Owes s.core e a handle) ↔ Plain s (.event e a) := by
  obtain ⟨source, r, w⟩ := e
  cases source with
  | waker =>
      refine Iff.trans (forall_congr' fun handle => ?_) silentAtZero_iff.symm
      exact iff_false_right not_owes_waker
  | fd n =>
      constructor
      · intro exactly
        exact oneWay_of_served fun handle => (exactly handle).mpr
      · intro oneWay handle
        exact ⟨owes_of_mem_dispatch, mem_dispatch_of_owes oneWay⟩

theorem step_inv (s : Loop) (a : Action) (t : Loop) (inv : Inv s) (good : Plain s a)
    (h : step s a = some t) :
    Inv t := by
  have tasks : ∀ n cb, Queued.io cb ∉ List.replicate n Queued.task := fun n cb mem => by
    cases List.eq_of_mem_replicate mem
  cases a with
  | poll ready =>
      obtain ⟨-, rfl⟩ := Option.ite_none_right_eq_some.mp h |>.imp_right Option.some.inj
      exact ⟨inv.housed, fun cb queued => absurd queued (tasks ready cb)⟩
  | event e answers =>
      obtain ⟨-, rfl⟩ := Option.ite_none_right_eq_some.mp h |>.imp_right Option.some.inj
      refine ⟨inv.housed.dispatch, fun cb queued => ?_⟩
      rcases List.mem_append.mp queued with old | new
      · obtain ⟨before, there, own⟩ := inv.reported cb old
        exact ⟨before, List.mem_append_left [e] there, own⟩
      · have owes := (mem_dispatch_owes_iff.mpr good (.io cb)).mp new
        exact ⟨e, List.mem_append_right _ (List.mem_singleton_self e), owes_io inv.housed owes⟩
  | timers due =>
      obtain ⟨-, rfl⟩ := Option.ite_none_right_eq_some.mp h |>.imp_right Option.some.inj
      refine ⟨inv.housed, fun cb queued => inv.reported cb ?_⟩
      exact (List.mem_append.mp queued).resolve_right (tasks due cb)
  | pop =>
      simp only [step] at h
      split at h
      · cases h
      next handle rest batch =>
        obtain ⟨-, rfl⟩ := Option.ite_none_left_eq_some.mp h |>.imp_right Option.some.inj
        refine ⟨inv.housed, fun cb queued => inv.reported cb ?_⟩
        rw [batch]
        exact List.mem_cons_of_mem handle queued
  | call c =>
      obtain ⟨table, run, rfl⟩ := Option.map_eq_some_iff.mp h
      exact ⟨inv.housed.call run, inv.reported⟩
  | own c =>
      obtain ⟨table, run, rfl⟩ := Option.map_eq_some_iff.mp h
      exact ⟨inv.housed.own run, inv.reported⟩
  | ssockSet fdR =>
      cases h
      exact ⟨inv.housed.set fun data same => (by cases same), inv.reported⟩
  | ssockDel fdR =>
      cases h
      exact ⟨inv.housed.ssockDel, inv.reported⟩
  | sigAdd _ _ | sigRem _ | sigClear | setListening _ | cancel _ =>
      cases h
      exact ⟨inv.housed, inv.reported⟩

theorem step_faithful_iff (s : Loop) (a : Action) (t : Loop) (inv : Inv s) (h : step s a = some t) :
    Plain s a ↔ Faithful s a := by
  cases a with
  | event e answers =>
      obtain ⟨-, rfl⟩ := Option.ite_none_right_eq_some.mp h |>.imp_right Option.some.inj
      refine mem_dispatch_owes_iff.symm.trans ⟨fun exactly => ⟨_, fun t ht => ?_, exactly⟩, ?_⟩
      · exact congrArg Loop.cbHandles (Option.some.inj (ht.symm.trans h))
      · rintro ⟨more, appended, owed⟩
        have same := appended _ h
        rw [List.append_cancel_left same]
        exact owed
  | pop =>
      refine iff_of_true trivial fun cb rest batch _ => inv.reported cb ?_
      rw [batch]
      exact List.mem_cons_self
  | _ => exact Iff.rfl

/-- Every step of a run appends the handles its events are owed, and runs a reader or writer
only if its descriptor was reported ready in that step, exactly when no notification of
the waker meets an entry of descriptor 0 that answers it and no stream or UDP socket is
reported ready in both directions at once. -/
theorem dispatch_faithful_iff {s t : Loop} {actions : List Action} (start : Started s)
    (h : run step s actions = some t) : Guarded step Faithful s actions ↔
    Guarded step Plain s actions :=
  (guarded_congr_kept step_inv step_faithful_iff h (started_inv start)).symm

def fresh : Loop := ⟨⟨Table.empty, fun _ => false, fun _ => none, false, false⟩, 0, false, [], []⟩

theorem fresh_started : Started fresh := by
  refine ⟨fun fd data there => ?_, rfl⟩
  cases there

/-- A reader of descriptor 3 and a notification of the waker in one poll. -/
theorem dispatch_faithful_woken :
    Guarded step Faithful fresh
      [.call (.addReader 3 ()), .poll 0, .event ⟨.waker, true, false⟩ ⟨[], []⟩,
        .event ⟨.fd 3, true, false⟩ ⟨[], []⟩, .timers 0, .pop] := by
  refine (dispatch_faithful_iff fresh_started rfl).mpr ?_
  refine guarded_cons rfl trivial (guarded_cons rfl trivial
    (guarded_cons rfl ?_ (guarded_cons rfl ?_
      (guarded_cons rfl trivial (guarded_cons rfl trivial trivial)))))
  · trivial
  · trivial

/-- `add_reader(0, callback)` and a notification of the waker: the callback runs while
its descriptor is not ready. -/
theorem waker_runs_reader_of_zero :
    ¬ ∀ (s t : Loop) (actions : List Action), Started s → run step s actions = some t →
      Guarded step Faithful s actions := by
  intro claim
  have whole : Guarded step Faithful fresh
    ([.call (.addReader 0 ()), .poll 0, .event ⟨.waker, true, false⟩ ⟨[], []⟩,
      .timers 0] ++ [.pop]) := claim _ _ _ fresh_started rfl
  have last := whole.next rfl
  obtain ⟨e, there, own, -⟩ := last ⟨0, 0, .readable⟩ [] rfl rfl
  cases List.mem_singleton.mp there
  cases own

end TokioLoop.Io.Dispatch
