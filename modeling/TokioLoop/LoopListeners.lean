import TokioLoop.Lib.Runs
import Mathlib.Data.List.Lemmas
import Mathlib.Logic.Function.Basic

/-!
The loop's tables for listening sockets: `handles_io`, the set of streams that
`tcp_lstreams` holds for each listener, and `tcp_transports`. Server operations run as
programs over these tables, since `connection_lost` may call anything in the middle of one.
-/
namespace TokioLoop.Listeners

/-- The entries of `handles_io` that matter here. -/
inductive IoHandle where
  | tcpListener
  | tcpStream
  deriving DecidableEq, Repr

/-- What is left to do of a Server operation. `abort` stands at the `tcp_stream_close` of
a transport whose `connection_lost` has been called. -/
inductive Instr where
  | streamsClose (l : Nat)
  | streamsAbort (l : Nat)
  | close (fd : Nat)
  | abort (fd : Nat)
  | listenerRem (l : Nat)
  deriving DecidableEq, Repr

/-- Descriptors are numbers; a transport is kept with its `lfd`. `closed` is the flag of
each `Server`, `calls` the operations in progress, the innermost first. -/
structure Cfg where
  handlesIo : Nat → Option IoHandle
  tcpLstreams : Nat → Option (List Nat)
  tcpTransports : Nat → Option (Option Nat)
  closed : Nat → Bool
  calls : List (List Instr)
  panicked : Bool

/-- The transports `streams_close` and `streams_abort` collect. -/
def Cfg.reached (c : Cfg) (l : Nat) : List Nat :=
  match c.tcpLstreams l with
  | none => []
  | some set => set.filter fun fd => (c.tcpTransports fd).isSome

/-- `tcp_listener_add` -/
def tcpListenerAdd (c : Cfg) (l : Nat) : Cfg :=
  { c with
    tcpLstreams := Function.update c.tcpLstreams l (some [])
    handlesIo := Function.update c.handlesIo l (some .tcpListener) }

/-- `listen` on each of the listeners. -/
def listen (c : Cfg) (ls : List Nat) : Cfg := ls.foldl tcpListenerAdd c

/-- `tcp_listener_rem` -/
def tcpListenerRem (c : Cfg) (l : Nat) : Cfg :=
  match c.handlesIo l with
  | none => c
  | some .tcpListener =>
      { c with
        handlesIo := Function.update c.handlesIo l none
        tcpLstreams := Function.update c.tcpLstreams l none }
  | some .tcpStream => { c with handlesIo := Function.update c.handlesIo l none, panicked := true }

/-- `tcp_stream_add` -/
def tcpStreamAdd (c : Cfg) (fd : Nat) : Cfg :=
  match c.handlesIo fd with
  | some .tcpListener => { c with panicked := true }
  | _ => { c with handlesIo := Function.update c.handlesIo fd (some .tcpStream) }

/-- `tcp_stream_rem`; `last` says that no interest is left. -/
def tcpStreamRem (c : Cfg) (fd : Nat) (last : Bool) : Cfg :=
  match c.handlesIo fd with
  | none => c
  | some .tcpStream =>
      if last then { c with handlesIo := Function.update c.handlesIo fd none } else c
  | some .tcpListener => { c with panicked := true }

/-- `tcp_stream_close` on the tables. Between its two updates it asks the transport
`is_tls()`, which borrows its state, and calls `close()` of a TLS one: both belong to the
machine of a transport, and neither touches `tcp_transports` or the sets. -/
def tcpStreamClose (c : Cfg) (fd : Nat) : Cfg :=
  match c.tcpTransports fd with
  | none => c
  | some lfd =>
      let c := { c with tcpTransports := Function.update c.tcpTransports fd none }
      match lfd.bind fun l => (c.tcpLstreams l).map fun set => (l, set) with
      | none => c
      | some (l, set) =>
          { c with tcpLstreams := Function.update c.tcpLstreams l (some (set.filter (· != fd))) }

/-- One turn of the loop of `handle_io_tcpl`, whose first lines unwrap the set. -/
def handleIoTcpl (c : Cfg) (l fd : Nat) : Cfg :=
  match c.tcpLstreams l with
  | none => { c with panicked := true }
  | some set =>
      { c with
        tcpTransports := Function.update c.tcpTransports fd (some (some l))
        tcpLstreams := Function.update c.tcpLstreams l (some (set.insert fd))
        handlesIo := Function.update c.handlesIo fd (some .tcpStream) }

/-- `_tcp_conn`: a transport without a listener. -/
def tcpConn (c : Cfg) (fd : Nat) : Cfg :=
  tcpStreamAdd { c with tcpTransports := Function.update c.tcpTransports fd (some none) } fd

/-- `Server._close` -/
def close (c : Cfg) (s : Nat) (ls : List Nat) : Cfg :=
  if c.closed s then c
  else
    { c with
      closed := Function.update c.closed s true
      calls := (ls.flatMap fun l => [.streamsAbort l, .listenerRem l]) :: c.calls }

/-- One instruction; `rest` and `calls` are what follows it. -/
def Instr.run (c : Cfg) (rest : List Instr) (calls : List (List Instr)) : Instr → Cfg
  | .streamsClose l => { c with calls := ((c.reached l).map .close ++ rest) :: calls }
  | .streamsAbort l => { c with calls := ((c.reached l).map .abort ++ rest) :: calls }
  | .close _ => { c with calls := rest :: calls }
  | .abort fd => tcpStreamClose { c with calls := rest :: calls } fd
  | .listenerRem l => tcpListenerRem { c with calls := rest :: calls } l

/-- `startServing` says how many of the server's `listen` calls succeeded. -/
inductive Act where
  | startServing (s k : Nat)
  | close (s : Nat)
  | streamsClose (s : Nat)
  | streamsAbort (s : Nat)
  | tick
  | accept (l fd : Nat)
  | connect (fd : Nat)
  | streamClose (fd : Nat)
  | streamAdd (fd : Nat)
  | streamRem (fd : Nat) (last : Bool)
  deriving DecidableEq, Repr

/-- `servers` gives the listeners of each `Server`. The loop accepts between handles only;
the kernel gives no descriptor that a transport in the table still owns. -/
def step (servers : Nat → List Nat) (c : Cfg) (a : Act) : Option Cfg :=
  if c.panicked then none
  else
    match a with
    | .startServing s k => some (listen c ((servers s).take k))
    | .close s => some (Listeners.close c s (servers s))
    | .streamsClose s => some { c with calls := (servers s).map .streamsClose :: c.calls }
    | .streamsAbort s => some { c with calls := (servers s).map .streamsAbort :: c.calls }
    | .tick =>
        match c.calls with
        | [] => none
        | [] :: calls => some { c with calls := calls }
        | (i :: rest) :: calls => some (i.run c rest calls)
    | .accept l fd =>
        if c.calls = [] ∧ c.handlesIo l = some .tcpListener ∧ c.tcpTransports fd = none then
          some (handleIoTcpl c l fd)
        else none
    | .connect fd => if c.tcpTransports fd = none then some (tcpConn c fd) else none
    | .streamClose fd => some (tcpStreamClose c fd)
    | .streamAdd fd => some (tcpStreamAdd c fd)
    | .streamRem fd last => some (tcpStreamRem c fd last)

/-- A new loop. -/
def empty : Cfg where
  handlesIo _ := none
  tcpLstreams _ := none
  tcpTransports _ := none
  closed _ := false
  calls := []
  panicked := false

/-- The set of a listener holds the transports it accepted, and these are the ones that
`streams_close` and `streams_abort` collect. -/
structure Indexed (c : Cfg) : Prop where
  found : ∀ l, c.handlesIo l = some .tcpListener →
    ∃ set, c.tcpLstreams l = some set ∧ ∀ fd, fd ∈ set ↔ c.tcpTransports fd = some (some l)
  reached : ∀ l fd, c.tcpTransports fd = some (some l) → fd ∈ c.reached l

/-- The condition on a step: no listener listens again while a transport it accepted is
in the table. -/
def KeepsIndex (servers : Nat → List Nat) (c : Cfg) : Act → Prop
  | .startServing s k => ∀ l ∈ (servers s).take k, ∀ fd, c.tcpTransports fd ≠ some (some l)
  | _ => True

theorem listen_spec (c : Cfg) (ls : List Nat) (l : Nat) :
    (listen c ls).handlesIo l = (if l ∈ ls then some .tcpListener else c.handlesIo l) ∧
      (listen c ls).tcpLstreams l = (if l ∈ ls then some [] else c.tcpLstreams l) := by
  induction ls generalizing c with
  | nil => exact ⟨rfl, rfl⟩
  | cons m ls ih =>
      obtain ⟨handles, streams⟩ := ih (tcpListenerAdd c m)
      change (listen (tcpListenerAdd c m) ls).handlesIo l = _ ∧
        (listen (tcpListenerAdd c m) ls).tcpLstreams l = _
      rw [handles, streams]
      simp only [tcpListenerAdd, Function.update_apply, List.mem_cons]
      by_cases later : l ∈ ls
      · simp [later]
      · by_cases now : l = m <;> simp [later, now]

theorem listen_rest (c : Cfg) (ls : List Nat) :
    (listen c ls).tcpTransports = c.tcpTransports ∧ (listen c ls).calls = c.calls := by
  induction ls generalizing c with
  | nil => exact ⟨rfl, rfl⟩
  | cons m ls ih => exact ih (tcpListenerAdd c m)

theorem mem_reached {c : Cfg} {l fd : Nat} {set : List Nat} (h : c.tcpLstreams l = some set) :
    fd ∈ c.reached l ↔ fd ∈ set ∧ (c.tcpTransports fd).isSome = true := by
  unfold Cfg.reached
  rw [h]
  exact List.mem_filter

theorem set_of_reached {c : Cfg} {l fd : Nat} (h : fd ∈ c.reached l) :
    ∃ set, c.tcpLstreams l = some set ∧ fd ∈ set := by
  cases hset : c.tcpLstreams l with
  | none =>
      unfold Cfg.reached at h
      rw [hset] at h
      cases h
  | some set => exact ⟨set, rfl, ((mem_reached hset).mp h).1⟩

theorem reached_kept {c d : Cfg} {l fd : Nat} (streams : d.tcpLstreams l = c.tcpLstreams l)
    (transports : d.tcpTransports = c.tcpTransports) (h : fd ∈ c.reached l) : fd ∈ d.reached l := by
  unfold Cfg.reached at h ⊢
  rwa [streams, transports]

theorem listener_of_update {handles : Nat → Option IoHandle} {fd l : Nat} {e : Option IoHandle}
    (other : e ≠ some .tcpListener) (h : Function.update handles fd e l = some .tcpListener) :
    l ≠ fd ∧ handles l = some .tcpListener := by
  rw [Function.update_apply] at h
  by_cases same : l = fd
  · rw [if_pos same] at h
    exact absurd h other
  · rw [if_neg same] at h
    exact ⟨same, h⟩

/-- A listener that listens starts with an empty set. -/
theorem listen_indexed {c : Cfg} (h : Indexed c) (ls : List Nat) :
    Indexed (listen c ls) ↔ ∀ l ∈ ls, ∀ fd, c.tcpTransports fd ≠ some (some l) := by
  obtain ⟨transports, -⟩ := listen_rest c ls
  constructor
  · intro indexed l there fd live
    obtain ⟨handles, streams⟩ := listen_spec c ls l
    rw [if_pos there] at handles streams
    obtain ⟨set, hset, members⟩ := indexed.found l handles
    rw [← transports] at live
    obtain rfl := Option.some.inj (streams.symm.trans hset)
    cases (members fd).mpr live
  · intro free
    refine ⟨fun l handles => ?_, fun l fd live => ?_⟩
    · obtain ⟨before, streams⟩ := listen_spec c ls l
      rw [transports]
      by_cases there : l ∈ ls
      · rw [if_pos there] at streams
        exact ⟨[], streams, fun fd => iff_of_false List.not_mem_nil (free l there fd)⟩
      · rw [if_neg there] at before streams
        rw [streams]
        exact h.found l (before.symm.trans handles)
    · rw [transports] at live
      have other : l ∉ ls := fun there => free l there fd live
      have streams := (listen_spec c ls l).2
      rw [if_neg other] at streams
      exact reached_kept streams transports (h.reached l fd live)

/-- Whoever removes a listener has come past every transport of it, or is going to. -/
def ClearsFirst (c : Cfg) (frame : List Instr) : Prop :=
  ∀ before l after fd, frame = before ++ .listenerRem l ::
      after → c.tcpTransports fd = some (some l) →
    .streamsAbort l ∈ before ∨ .abort fd ∈ before

def Clearing (c : Cfg) : Prop := ∀ frame ∈ c.calls, ClearsFirst c frame

/-- No transport of a listener is new. -/
def Shrinks (c d : Cfg) : Prop :=
  ∀ fd l, d.tcpTransports fd = some (some l) → c.tcpTransports fd = some (some l)

theorem ClearsFirst.mono {c d : Cfg} {frame : List Instr} (h : ClearsFirst c frame)
    (shrinks : Shrinks c d) : ClearsFirst d frame :=
  fun before l after fd split live => h before l after fd split (shrinks fd l live)

theorem Clearing.mono {c d : Cfg} (h : Clearing c) (shrinks : Shrinks c d)
    (calls : d.calls = c.calls) :
    Clearing d := by
  intro frame there
  rw [calls] at there
  exact (h frame there).mono shrinks

theorem Clearing.push {c : Cfg} (h : Clearing c) {frame : List Instr}
    (first : ClearsFirst c frame) : Clearing { c with calls := frame :: c.calls } := by
  intro other there
  rcases List.mem_cons.mp there with rfl | below
  · exact first
  · exact h other below

/-- A program without a removal. -/
theorem clearsFirst_of_not_mem {c : Cfg} {frame : List Instr} (h : ∀ l, .listenerRem l ∉ frame) :
    ClearsFirst c frame := by
  intro before l after fd split _
  exact absurd (split ▸ List.mem_append_right before List.mem_cons_self) (h l)

/-- `before` lies behind a program part without a removal. -/
theorem split_after {part rest before after : List Instr} {l : Nat} (none : .listenerRem l ∉ part)
    (h : part ++ rest = before ++ .listenerRem l :: after) :
    ∃ later, before = part ++ later ∧ rest = later ++ .listenerRem l :: after := by
  rcases List.append_eq_append_iff.mp h with ⟨later, hbefore, hrest⟩ | ⟨later, hpart, hrest⟩
  · exact ⟨later, hbefore, hrest⟩
  · cases later with
    | nil => exact ⟨[], by rw [hpart, List.append_nil, List.append_nil], hrest.symm⟩
    | cons i later =>
        have here : i = .listenerRem l := (List.cons.inj hrest).1.symm
        rw [hpart, here] at none
        exact absurd (List.mem_append_right before List.mem_cons_self) none

theorem clearsFirst_close {c : Cfg} (ls : List Nat) :
    ClearsFirst c (ls.flatMap fun l => [.streamsAbort l, .listenerRem l]) := by
  induction ls with
  | nil => exact clearsFirst_of_not_mem fun l => List.not_mem_nil
  | cons m ls ih =>
      intro before l after fd split live
      rw [List.flatMap_cons] at split
      cases before with
      | nil => cases split
      | cons i before =>
          obtain ⟨rfl, more⟩ := List.cons.inj split
          cases before with
          | nil =>
              obtain rfl : m = l := Instr.listenerRem.inj (List.cons.inj more).1
              exact .inl List.mem_cons_self
          | cons j before =>
              obtain ⟨rfl, later⟩ := List.cons.inj more
              rcases ih before l after fd later live with there | there
              · exact .inl (List.mem_cons_of_mem _ (List.mem_cons_of_mem _ there))
              · exact .inr (List.mem_cons_of_mem _ (List.mem_cons_of_mem _ there))

theorem tcpStreamClose_shrinks (c : Cfg) (fd : Nat) : Shrinks c (tcpStreamClose c fd) := by
  intro other l live
  unfold tcpStreamClose at live
  split at live
  · exact live
  · dsimp only at live
    split at live <;>
    · dsimp only at live
      rw [Function.update_apply] at live
      split_ifs at live
      exact live

theorem tcpStreamClose_calls (c : Cfg) (fd : Nat) : (tcpStreamClose c fd).calls = c.calls := by
  unfold tcpStreamClose
  split
  · rfl
  · dsimp only
    split <;> rfl

/-- The transport is gone. -/
theorem tcpStreamClose_gone (c : Cfg)
    (fd : Nat) : (tcpStreamClose c fd).tcpTransports fd = none := by
  unfold tcpStreamClose
  split
  next h => exact h
  · dsimp only
    split <;> exact Function.update_self _ _ _

theorem tcpStreamClose_spec {c : Cfg} {fd : Nat} {lfd : Option Nat}
    (h : c.tcpTransports fd = some lfd) :
    (tcpStreamClose c fd).tcpTransports = Function.update c.tcpTransports fd none ∧
      (tcpStreamClose c fd).handlesIo = c.handlesIo ∧
      ∀ l, (tcpStreamClose c fd).tcpLstreams l =
        if lfd = some l then (c.tcpLstreams l).map (·.filter (· != fd)) else c.tcpLstreams l := by
  unfold tcpStreamClose
  rw [h]
  dsimp only
  cases lfd with
  | none => exact ⟨rfl, rfl, fun l => (if_neg (Option.some_ne_none l).symm).symm⟩
  | some m =>
      rw [Option.bind_some]
      cases hset : c.tcpLstreams m with
      | none =>
          refine ⟨rfl, rfl, fun l => ?_⟩
          split_ifs with same
          · obtain rfl := Option.some.inj same
            rw [hset]
            exact hset
          · rfl
      | some set =>
          refine ⟨rfl, rfl, fun l => ?_⟩
          change Function.update c.tcpLstreams m _ l = _
          rw [Function.update_apply]
          by_cases same : l = m
          · rw [if_pos same, if_pos (congrArg some same.symm), same, hset]
            rfl
          · rw [if_neg same, if_neg fun other => same (Option.some.inj other).symm]

theorem tcpStreamClose_indexed {c : Cfg} (h : Indexed c)
    (fd : Nat) : Indexed (tcpStreamClose c fd) := by
  cases there : c.tcpTransports fd with
  | none =>
      have same : tcpStreamClose c fd = c := by
        unfold tcpStreamClose
        rw [there]
      rw [same]
      exact h
  | some lfd =>
      obtain ⟨transports, handles, streams⟩ := tcpStreamClose_spec there
      constructor
      · intro l listens
        rw [handles] at listens
        obtain ⟨set, hset, members⟩ := h.found l listens
        have now : ∀ other, (tcpStreamClose c fd).tcpTransports other = some (some l) ↔
            other ∈ set ∧ other ≠ fd := by
          intro other
          rw [members, transports, Function.update_apply]
          by_cases same : other = fd
          · rw [if_pos same]
            exact iff_of_false (Option.some_ne_none _).symm fun both => both.2 same
          · rw [if_neg same]
            exact (and_iff_left same).symm
        by_cases own : lfd = some l
        · refine ⟨set.filter (· != fd), by rw [streams l, if_pos own, hset]; rfl, fun other => ?_⟩
          rw [now, List.mem_filter, bne_iff_ne]
        · have outside : fd ∉ set := fun inside =>
            own (Option.some.inj (there.symm.trans ((members fd).mp inside)))
          refine ⟨set, by rw [streams l, if_neg own, hset], fun other => ?_⟩
          rw [now]
          refine (and_iff_left_of_imp fun inside same => outside ?_).symm
          rw [← same]
          exact inside
      · intro l other live
        rw [transports, Function.update_apply] at live
        split_ifs at live with same
        obtain ⟨set, hset, inside⟩ := set_of_reached (h.reached l other live)
        by_cases own : lfd = some l
        · have hset' : (tcpStreamClose c fd).tcpLstreams l = some (set.filter (· != fd)) := by
            rw [streams l, if_pos own, hset]
            rfl
          rw [mem_reached hset', transports, Function.update_apply, if_neg same, live]
          exact ⟨List.mem_filter.mpr ⟨inside, bne_iff_ne.mpr same⟩, rfl⟩
        · have hset' : (tcpStreamClose c fd).tcpLstreams l = some set := by
            rw [streams l, if_neg own, hset]
          rw [mem_reached hset', transports, Function.update_apply, if_neg same, live]
          exact ⟨inside, rfl⟩

theorem tcpListenerRem_indexed {c : Cfg} (h : Indexed c) {l : Nat}
    (free : ∀ fd, c.tcpTransports fd ≠ some (some l)) : Indexed (tcpListenerRem c l) := by
  unfold tcpListenerRem
  split
  · exact h
  · refine ⟨fun m listens => ?_, fun m fd live => ?_⟩
    · obtain ⟨apart, before⟩ := listener_of_update (Option.some_ne_none _).symm listens
      dsimp only
      rw [Function.update_of_ne apart]
      exact h.found m before
    · have apart : m ≠ l := fun same => free fd (same ▸ live)
      exact reached_kept (Function.update_of_ne apart _ _) rfl (h.reached m fd live)
  · refine ⟨fun m listens => ?_, h.reached⟩
    exact h.found m (listener_of_update (Option.some_ne_none _).symm listens).2

theorem handleIoTcpl_indexed {c : Cfg} (h : Indexed c) {l fd : Nat}
    (listens : c.handlesIo l = some .tcpListener) (fresh : c.tcpTransports fd = none) : Indexed
    (handleIoTcpl c l fd) := by
  obtain ⟨set, hset, members⟩ := h.found l listens
  have accepts : handleIoTcpl c l fd =
      { c with
        tcpTransports := Function.update c.tcpTransports fd (some (some l))
        tcpLstreams := Function.update c.tcpLstreams l (some (set.insert fd))
        handlesIo := Function.update c.handlesIo fd (some .tcpStream) } := by
    unfold handleIoTcpl
    rw [hset]
  have live : ∀ m other, (handleIoTcpl c l fd).tcpTransports other = some (some m) ↔
      c.tcpTransports other = some (some m) ∨ other = fd ∧ m = l := by
    intro m other
    rw [accepts]
    dsimp only
    rw [Function.update_apply]
    by_cases now : other = fd
    · rw [if_pos now, now, fresh]
      simp [eq_comm]
    · rw [if_neg now]
      simp [now]
  have own : (handleIoTcpl c l fd).tcpLstreams l = some (set.insert fd) := by
    rw [accepts]
    exact Function.update_self _ _ _
  have others : ∀ {m}, m ≠ l → (handleIoTcpl c l fd).tcpLstreams m = c.tcpLstreams m := by
    intro m apart
    rw [accepts]
    exact Function.update_of_ne apart _ _
  constructor
  · intro m there
    have before : c.handlesIo m = some .tcpListener := by
      rw [accepts] at there
      exact (listener_of_update (by decide) there).2
    by_cases same : m = l
    · subst same
      refine ⟨set.insert fd, own, fun other => ?_⟩
      rw [live, List.mem_insert_iff, members, or_comm, and_iff_left rfl]
    · obtain ⟨set', hset', members'⟩ := h.found m before
      refine ⟨set', (others same).trans hset', fun other => ?_⟩
      rw [live, members']
      exact (or_iff_left fun now => same now.2).symm
  · intro m other now
    have kept : ((handleIoTcpl c l fd).tcpTransports other).isSome = true := by rw [now]; rfl
    by_cases same : m = l
    · subst same
      rw [mem_reached own, List.mem_insert_iff, members]
      exact ⟨((live m other).mp now).symm.imp And.left id, kept⟩
    · have before := h.reached m other (((live m other).mp now).resolve_right fun new => same new.2)
      obtain ⟨set', hset', inside⟩ := set_of_reached before
      rw [mem_reached ((others same).trans hset')]
      exact ⟨inside, kept⟩

theorem tcpStreamAdd_spec (c : Cfg) (fd : Nat) :
    (tcpStreamAdd c fd).tcpLstreams = c.tcpLstreams ∧
    (tcpStreamAdd c fd).tcpTransports = c.tcpTransports ∧
      (tcpStreamAdd c fd).calls = c.calls ∧
      ∀ l, (tcpStreamAdd c fd).handlesIo l = some .tcpListener →
      c.handlesIo l = some .tcpListener := by
  unfold tcpStreamAdd
  split
  · exact ⟨rfl, rfl, rfl, fun l => id⟩
  · exact ⟨rfl, rfl, rfl, fun l there => (listener_of_update (by decide) there).2⟩

theorem tcpStreamRem_spec (c : Cfg) (fd : Nat) (last : Bool) :
    (tcpStreamRem c fd last).tcpLstreams = c.tcpLstreams ∧
    (tcpStreamRem c fd last).tcpTransports = c.tcpTransports ∧
      (tcpStreamRem c fd last).calls = c.calls ∧
      ∀ l, (tcpStreamRem c fd last).handlesIo l = some .tcpListener →
      c.handlesIo l = some .tcpListener := by
  unfold tcpStreamRem
  split
  · exact ⟨rfl, rfl, rfl, fun l => id⟩
  · split
    · exact ⟨rfl, rfl, rfl, fun l there =>
        (listener_of_update (Option.some_ne_none _).symm there).2⟩
    · exact ⟨rfl, rfl, rfl, fun l => id⟩
  · exact ⟨rfl, rfl, rfl, fun l => id⟩

/-- Code that keeps the sets and the accepted transports, and makes no listener. -/
theorem Indexed.same {c d : Cfg} (h : Indexed c) (streams : d.tcpLstreams = c.tcpLstreams)
    (handles : ∀ l, d.handlesIo l = some .tcpListener → c.handlesIo l = some .tcpListener)
    (live : ∀ fd l, d.tcpTransports fd = some (some l) ↔ c.tcpTransports fd = some (some l)) :
    Indexed d := by
  constructor
  · intro l there
    obtain ⟨set, hset, members⟩ := h.found l (handles l there)
    refine ⟨set, by rw [streams, hset], fun fd => ?_⟩
    rw [members, live]
  · intro l fd there
    obtain ⟨set, hset, inside⟩ := set_of_reached (h.reached l fd ((live fd l).mp there))
    rw [mem_reached (streams ▸ hset), there]
    exact ⟨inside, rfl⟩

theorem tcpConn_indexed {c : Cfg} (h : Indexed c) {fd : Nat} (fresh : c.tcpTransports fd = none) :
    Indexed (tcpConn c fd) ∧ Shrinks c (tcpConn c fd) ∧ (tcpConn c fd).calls = c.calls := by
  obtain ⟨streams, transports, calls, handles⟩ :=
    tcpStreamAdd_spec { c with tcpTransports := Function.update c.tcpTransports fd (some none) } fd
  have live : ∀ other l,
      (tcpConn c fd).tcpTransports other = some (some l) ↔
      c.tcpTransports other = some (some l) := by
    intro other l
    unfold tcpConn
    rw [transports]
    dsimp only
    rw [Function.update_apply]
    by_cases same : other = fd
    · rw [if_pos same, same, fresh]
      simp
    · rw [if_neg same]
  exact ⟨h.same streams handles live, fun other l => (live other l).mp, calls⟩

theorem Indexed.calls {c : Cfg} (h : Indexed c) (calls : List (List Instr)) :
    Indexed { c with calls := calls } :=
  h.same rfl (fun _ => id) fun _ _ => Iff.rfl

theorem tcpListenerRem_rest (c : Cfg) (l : Nat) :
    (tcpListenerRem c l).tcpTransports = c.tcpTransports ∧
    (tcpListenerRem c l).calls = c.calls := by
  unfold tcpListenerRem
  split <;> exact ⟨rfl, rfl⟩

/-- What remains of an operation after its first instruction; `part` replaces it. -/
theorem ClearsFirst.advance {c d : Cfg} {i : Instr} {rest : List Instr}
    (h : ClearsFirst c (i :: rest)) (part : List Instr) (shrinks : Shrinks c d)
    (none : ∀ l, .listenerRem l ∉ part)
    (aborts : ∀ l fd, i = .streamsAbort l → d.tcpTransports fd = some (some l) → .abort fd ∈ part)
    (gone : ∀ fd, i = .abort fd → d.tcpTransports fd = Option.none) : ClearsFirst d
    (part ++ rest) := by
  intro before l after fd split live
  obtain ⟨later, rfl, hrest⟩ := split_after (none l) split
  rcases h (i :: later) l after fd (by rw [hrest]; rfl) (shrinks fd l live) with there | there
  · rcases List.mem_cons.mp there with now | next
    · exact .inr (List.mem_append_left _ (aborts l fd now.symm live))
    · exact .inl (List.mem_append_right _ next)
  · rcases List.mem_cons.mp there with now | next
    · cases (gone fd now.symm).symm.trans live
    · exact .inr (List.mem_append_right _ next)

/-- The same after an instruction that neither collects nor ends a transport. -/
theorem ClearsFirst.skip {c d : Cfg} {i : Instr} {rest : List Instr} (h : ClearsFirst c (i :: rest))
    (part : List Instr) (shrinks : Shrinks c d) (none : ∀ l, .listenerRem l ∉ part)
    (collects : ∀ l, i ≠ .streamsAbort l) (ends : ∀ fd, i ≠ .abort fd) : ClearsFirst d
    (part ++ rest) :=
  h.advance part shrinks none (fun l _ same => absurd same (collects l)) fun fd same =>
    absurd same (ends fd)

theorem run_indexed {c : Cfg} (h : Indexed c) (clearing : Clearing c) {i : Instr}
    {rest : List Instr} {calls : List (List Instr)} (hcalls : c.calls = (i :: rest) :: calls) :
    Indexed (i.run c rest calls) ∧ Clearing (i.run c rest calls) := by
  have top : ClearsFirst c (i :: rest) := clearing _ (hcalls ▸ List.mem_cons_self)
  have below : ∀ {d : Cfg}, Shrinks c d → ∀ frame ∈ calls, ClearsFirst d frame :=
    fun shrinks frame there => (clearing frame (hcalls ▸ List.mem_cons_of_mem _ there)).mono shrinks
  have pushed : ∀ {d : Cfg} {frame : List Instr}, Shrinks c d → d.calls = frame ::
    calls → ClearsFirst d frame →
      Clearing d := by
    intro d frame shrinks hd first other there
    rw [hd] at there
    rcases List.mem_cons.mp there with rfl | later
    · exact first
    · exact below shrinks other later
  have collected : ∀ (f : Nat → Instr) (l : Nat), (∀ fd m, f fd ≠ .listenerRem m) →
      ∀ m, Instr.listenerRem m ∉ (c.reached l).map f := by
    intro f l apart m there
    obtain ⟨fd, -, same⟩ := List.mem_map.mp there
    exact apart fd m same
  cases i with
  | streamsClose l =>
      refine ⟨h.calls _, pushed (fun _ _ => id) rfl (top.skip _ (fun _ _ => id) ?_ ?_ ?_)⟩
      · exact collected .close l fun _ _ => Instr.noConfusion
      · exact fun _ => Instr.noConfusion
      · exact fun _ => Instr.noConfusion
  | streamsAbort l =>
      refine ⟨h.calls _, pushed (fun _ _ => id) rfl (top.advance _ (fun _ _ => id) ?_ ?_ ?_)⟩
      · exact collected .abort l fun _ _ => Instr.noConfusion
      · intro m fd same live
        obtain rfl := Instr.streamsAbort.inj same
        exact List.mem_map_of_mem (h.reached l fd live)
      · exact fun fd same => Instr.noConfusion same
  | close fd =>
      refine ⟨h.calls _, pushed (fun _ _ => id) rfl
        (top.skip [] (fun _ _ => id) (fun _ => List.not_mem_nil) ?_ ?_)⟩
      · exact fun _ => Instr.noConfusion
      · exact fun _ => Instr.noConfusion
  | abort fd =>
      have shrinks : Shrinks c (tcpStreamClose { c with calls := rest :: calls } fd) :=
        tcpStreamClose_shrinks { c with calls := rest :: calls } fd
      refine ⟨tcpStreamClose_indexed (h.calls _) fd,
        pushed shrinks (tcpStreamClose_calls _ fd)
        (top.advance [] shrinks (fun _ => List.not_mem_nil) ?_ ?_)⟩
      · exact fun m fd same => Instr.noConfusion same
      · intro other same
        obtain rfl := Instr.abort.inj same
        exact tcpStreamClose_gone _ _
  | listenerRem l =>
      have free : ∀ fd, c.tcpTransports fd ≠ some (some l) := by
        intro fd live
        rcases top [] l rest fd rfl live with there | there <;> cases there
      obtain ⟨transports, same⟩ := tcpListenerRem_rest { c with calls := rest :: calls } l
      have shrinks : Shrinks c (tcpListenerRem { c with calls := rest :: calls } l) := by
        intro fd m live
        rw [transports] at live
        exact live
      refine ⟨tcpListenerRem_indexed (h.calls _) free,
        pushed shrinks same (top.skip [] shrinks (fun _ => List.not_mem_nil) ?_ ?_)⟩
      · exact fun _ => Instr.noConfusion
      · exact fun _ => Instr.noConfusion

/-- One instruction, not a removal, for each listener. -/
theorem Clearing.each {c : Cfg} (h : Clearing c) {f : Nat → Instr} (listeners : List Nat)
    (other : ∀ l m, f l ≠ .listenerRem m) : Clearing
    { c with calls := listeners.map f :: c.calls } := by
  apply h.push
  apply clearsFirst_of_not_mem
  intro m there
  obtain ⟨l, -, same⟩ := List.mem_map.mp there
  exact other l m same

/-- A change of other tables. -/
theorem Indexed.elsewhere {c d : Cfg} (h : Indexed c) (clearing : Clearing c)
    (streams : d.tcpLstreams = c.tcpLstreams) (transports : d.tcpTransports = c.tcpTransports)
    (calls : d.calls = c.calls) (handles :
      ∀ l, d.handlesIo l = some .tcpListener → c.handlesIo l = some .tcpListener) :
    Indexed d ∧ Clearing d := by
  constructor
  · exact h.same streams handles fun other l => by rw [transports]
  · exact clearing.mono (fun other l live => transports ▸ live) calls

variable {servers : Nat → List Nat}

theorem step_indexed {c d : Cfg} {a : Act} (h : Indexed c) (clearing : Clearing c)
    (hstep : step servers c a = some d) : (Indexed d ↔ KeepsIndex servers c a) ∧ Clearing d := by
  rw [step.eq_def] at hstep
  by_cases panicked : c.panicked = true
  · rw [if_pos panicked] at hstep
    cases hstep
  rw [if_neg panicked] at hstep
  cases a with
  | startServing s k =>
      cases hstep
      obtain ⟨transports, calls⟩ := listen_rest c ((servers s).take k)
      refine ⟨listen_indexed h _, clearing.mono (fun fd l live => ?_) calls⟩
      rw [transports] at live
      exact live
  | close s =>
      cases hstep
      unfold close
      split_ifs
      · exact ⟨iff_of_true h trivial, clearing⟩
      · refine ⟨iff_of_true (h.same rfl (fun _ => id) fun _ _ => Iff.rfl) trivial, ?_⟩
        exact clearing.push (clearsFirst_close (servers s))
  | streamsClose s =>
      cases hstep
      exact ⟨iff_of_true (h.calls _) trivial, clearing.each (servers s) fun _ _ =>
        Instr.noConfusion⟩
  | streamsAbort s =>
      cases hstep
      exact ⟨iff_of_true (h.calls _) trivial, clearing.each (servers s) fun _ _ =>
        Instr.noConfusion⟩
  | tick =>
      simp only at hstep
      split at hstep
      · cases hstep
      next calls hcalls =>
        cases hstep
        refine ⟨iff_of_true (h.calls _) trivial, fun frame there => ?_⟩
        exact clearing frame (hcalls ▸ List.mem_cons_of_mem _ there)
      next i rest calls hcalls =>
        cases hstep
        obtain ⟨indexed, clears⟩ := run_indexed h clearing hcalls
        exact ⟨iff_of_true indexed trivial, clears⟩
  | accept l fd =>
      obtain ⟨⟨idle, listens, fresh⟩, hd⟩ := Option.ite_none_right_eq_some.mp hstep
      cases hd
      refine ⟨iff_of_true (handleIoTcpl_indexed h listens fresh) trivial, fun frame there => ?_⟩
      have same : (handleIoTcpl c l fd).calls = c.calls := by
        unfold handleIoTcpl
        split <;> rfl
      rw [same, idle] at there
      cases there
  | connect fd =>
      obtain ⟨fresh, hd⟩ := Option.ite_none_right_eq_some.mp hstep
      cases hd
      obtain ⟨indexed, shrinks, calls⟩ := tcpConn_indexed h fresh
      exact ⟨iff_of_true indexed trivial, clearing.mono shrinks calls⟩
  | streamClose fd =>
      cases hstep
      exact ⟨iff_of_true (tcpStreamClose_indexed h fd) trivial,
        clearing.mono (tcpStreamClose_shrinks c fd) (tcpStreamClose_calls c fd)⟩
  | streamAdd fd =>
      cases hstep
      obtain ⟨streams, transports, calls, handles⟩ := tcpStreamAdd_spec c fd
      obtain ⟨indexed, clears⟩ := h.elsewhere clearing streams transports calls handles
      exact ⟨iff_of_true indexed trivial, clears⟩
  | streamRem fd last =>
      cases hstep
      obtain ⟨streams, transports, calls, handles⟩ := tcpStreamRem_spec c fd last
      obtain ⟨indexed, clears⟩ := h.elsewhere clearing streams transports calls handles
      exact ⟨iff_of_true indexed trivial, clears⟩

/-- From any loop with its tables in agreement and no operation in progress, they agree
in every state of a run exactly when no step of it listens again too early. -/
theorem listeners_indexed {c d : Cfg} {actions : List Act} (start : Indexed c) (idle : c.calls = [])
    (h : Runs.run (step servers) c actions = some d) :
    Runs.Always (step servers) Indexed c actions ↔
    Runs.Guarded (step servers) (KeepsIndex servers) c actions := by
  have clearing : Clearing c := by
    intro frame there
    rw [idle] at there
    cases there
  have rule := Runs.always_iff_guarded_settled (I := Clearing) (P := Indexed) (D := fun _ => False)
    (G := KeepsIndex servers) (fun _ _ _ clears indexed first _ =>
      (step_indexed indexed clears first).2)
    (fun _ _ _ clears indexed _ first => by
      rw [← (step_indexed indexed clears first).1]
      exact and_iff_left id)
    (fun _ _ _ _ _ hd _ _ => hd) h clearing start id
  exact ⟨rule.2 id, rule.1⟩

/-- One server with one listener, descriptor 3. -/
def alone : Nat → List Nat := fun _ => [3]

theorem empty_indexed : Indexed empty where
  found _ h := by cases h
  reached _ _ h := by cases h

/-- A client comes and leaves with the server; the server listened twice before. -/
theorem listeners_indexed_closed :
    Runs.Always (step alone) Indexed empty
      [.startServing 0 1, .startServing 0 1, .accept 3 7, .close 0, .tick, .tick, .tick,
        .tick] := by
  apply (listeners_indexed empty_indexed rfl rfl).mpr
  apply Runs.guarded_cons rfl
  · intro l _ fd live
    cases live
  apply Runs.guarded_cons rfl
  · intro l _ fd live
    cases live
  repeat
    apply Runs.guarded_cons rfl
    · trivial
  trivial

/-- `start_serving`, a client, `serve_forever`: the client is in `tcp_transports` with its
listener, but no longer in the set, so `_close` does not reach it. -/
theorem later_listen_loses_client :
    ((Runs.run (step alone) empty [.startServing 0 1, .accept 3 7, .startServing 0 1]).map fun c =>
        (c.handlesIo 3, c.tcpLstreams 3, c.tcpTransports 7, c.reached 3)) =
      some (some .tcpListener, some [], some (some 3), []) ∧
    ((Runs.run (step alone) empty
        [.startServing 0 1, .accept 3 7, .startServing 0 1, .close 0, .tick, .tick, .tick]).map
        fun c =>
        (c.tcpTransports 7, c.handlesIo 3, c.calls)) = some (some (some 3), none, []) ∧
    ¬ Runs.Always (step alone) Indexed empty [.startServing 0 1, .accept 3 7,
      .startServing 0 1] := by
  refine ⟨rfl, rfl, fun always => ?_⟩
  -- the set is empty, the client is in the table
  have last : Indexed _ := (((always.2 _ rfl).2 _ rfl).2 _ rfl)
  cases last.reached 3 7 rfl

end TokioLoop.Listeners
