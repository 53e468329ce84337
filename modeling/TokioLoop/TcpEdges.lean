import TokioLoop.TcpBorrow

/-!
A transport over an edge-triggered poller. `handle_io_tcps` makes one handle for an
event, so that a writable edge reported together with a readable one is gone; it comes
back with new readiness or when the descriptor is registered again.

`Net` adds to the transport what the kernel knows: whether the socket takes bytes, and
whether a writable edge waits to be reported. A step that changes the registration, or
the first bytes in the buffer, arm the edge; other calls of `reregister` are left to the
run (`rearm`).
-/
namespace TokioLoop.Tcp

open Runs ByteLedger

variable {σ : Type} {R : Rustls σ}

structure Net (σ : Type) where
  cfg : Cfg σ
  room : Bool
  edge : Bool

/-- The handles `handle_io_tcps` puts into the batch for an event. -/
def handleIoTcps (readable writable : Bool) : List Dir :=
  if readable then [.readable] else if writable then [.writable] else []

/-- The `write(2)` of what `write_tls` gave, if there is one. -/
def offered (out : Option Bytes) (r : WriteResult) : Option (Nat × WriteResult) :=
  if out.getD [] = [] then none else some ((out.getD []).length, r)

/-- A `write(2)`: the number of bytes and the result. -/
def Obs.offers : Obs → Option (Nat × WriteResult)
  | .write data r => some (data.length, r)
  | .flushed _ out _ r => offered out r
  | _ => none

/-- Whether the socket takes more bytes after a call; `full` decides it where the call
itself does not. -/
def roomAfter (full room : Bool) : Option (Nat × WriteResult) → Bool
  | none => room
  | some (len, .ok n) => if n < len then false else !full
  | some (_, .wouldBlock) => false
  | some (_, .interrupted) | some (_, .fatal _) => room

def roomAfterAll (full room : Bool) (obs : List Obs) : Bool :=
  obs.foldl (fun room o => roomAfter full room o.offers) room

/-- The step calls `register` or `reregister` for the interest it leaves; `tcp_stream_add`
does nothing if its direction is all that is registered. -/
def reregisters (c d : Cfg σ) : Bool :=
  decide (d.tables.interest ≠ c.tables.interest) ||
    decide (c.tr.state.writeBufDsize = 0 ∧ 0 < d.tr.state.writeBufDsize ∧
      c.tables.interest ≠ some (.only .writable))

/-- A step of the code, seen from the kernel. -/
def Net.advance (n : Net σ) (d : Cfg σ) (full rearm : Bool) : Net σ :=
  let room := roomAfterAll full n.room (d.log.drop n.cfg.log.length)
  { cfg := d
    room := room
    edge := d.watches .writable && (n.edge || room && (rearm || reregisters n.cfg d)) }

inductive NetAct where
  | code (a : Act) (env : Env) (full rearm : Bool)
  | space
  | report (readable writable : Bool)
  deriving DecidableEq, Repr

def Act.isPoll : Act → Bool
  | .poll _ => true
  | _ => false

/-- `space` is new room in the socket's buffer, `report` one event of a poll; it reports
directions that are registered, and a writable edge once. -/
def netStep (R : Rustls σ) (n : Net σ) : NetAct → Option (Net σ)
  | .code a env full rearm =>
      if a.isPoll then none else (step R n.cfg (a, env)).map fun d => n.advance d full rearm
  | .space =>
      if n.room then none else some { n with
        room := true, edge := n.edge || n.cfg.watches .writable }
  | .report readable writable =>
      if (readable → n.cfg.watches .readable) ∧ (writable → n.cfg.watches .writable ∧ n.edge) then
        (handleIoTcps readable writable).head?.bind fun dir =>
          (step R n.cfg (.poll dir, ⟨[], [], 0⟩)).map fun d =>
            { n with cfg := d, edge := n.edge && !writable }
      else none

/-- Each direction of a reported event has its handle in the batch of that step. -/
def EdgeServed (R : Rustls σ) (n : Net σ) (a : NetAct) : Prop :=
  ∀ readable writable t, a = .report readable writable → netStep R n a = some t →
    (readable = true → t.cfg.tables.event = some .readable) ∧
      (writable = true → t.cfg.tables.event = some .writable)

/-- Bytes wait, the socket would take them, and nothing is on its way to write them. -/
structure Net.Stalled (n : Net σ) : Prop where
  running : n.cfg.panicked = false
  quiescent : n.cfg.stack = []
  bound : n.cfg.tables.bound = true
  waiting : n.cfg.tr.state.writeBuf ≠ []
  room : n.room = true
  noEdge : n.edge = false
  noHandle : n.cfg.tables.event ≠ some .writable

/-- The first bytes of the buffer arm the edge, or the socket is known to be full. -/
def WriteArmed (n : Net σ) (data : Bytes) (env : Env) : Prop :=
  n.cfg.tr.weof = false → data ≠ [] → n.cfg.borrowed = false → n.cfg.tr.state.writeBufDsize = 0 →
    n.cfg.tables.interest = some (.only .writable) → n.room = true → n.edge = false →
    n.cfg.tr.state.tlsConn = none ∧ env.nextWrite ≠ .interrupted

/-- A write handle of a TLS transport empties the buffer, ends the connection or fills
the socket. -/
def FlushArmed (R : Rustls σ) (n : Net σ) (env : Env) (full : Bool) : Prop :=
  ∀ conn, n.cfg.tr.state.tlsConn = some conn → n.cfg.tr.state.writeBuf ≠ [] →
    closeTimedOut n.cfg.tr.state env.now = false →
    roomAfter full n.room (offered (R.writeTls conn).2 env.nextWrite) = false ∨
      match flushOutcome (R.writeTls conn).2 env.nextWrite with
      | .sent => n.cfg.tr.state.handshakeComplete = true ∧
          ((encryptLoop R (R.writeTls conn).1 n.cfg.tr.state.writeBuf).2.2.2.1 = true ∨
            n.cfg.tr.closing = true)
      | _ => n.cfg.tr.closing = true

/-- The condition on a step. -/
def EdgeSafe (R : Rustls σ) (n : Net σ) : NetAct → Prop
  | .report readable writable => ¬ (readable = true ∧ writable = true)
  | .code (.call (.write data)) env _ _ => WriteArmed n data env
  | .code (.call (.writelines data)) env _ _ => WriteArmed n data.flatten env
  | .code .fire env full _ =>
      n.cfg.tables.event = some .writable → n.cfg.tables.bound = true → FlushArmed R n env full
  | .code (.ret r) _ _ _ =>
      n.cfg.stack.head? = some .attach → r ≠ .raised → n.cfg.tr.state.writeBuf ≠ [] →
      n.cfg.watches .writable = true
  | _ => True

/-- An event that is reported puts its handle into the batch. -/
theorem report_stepped {n t : Net σ} {readable writable : Bool}
    (h : netStep R n (.report readable writable) = some t) :
    ∃ dir, (handleIoTcps readable writable).head? = some dir ∧ t.cfg.tables.event = some dir ∧
      n.cfg.tables.event = none ∧ t = { n with
        cfg := { n.cfg with tables := { n.cfg.tables with event := some dir } }
        edge := n.edge && !writable } := by
  obtain ⟨-, h⟩ := Option.ite_none_right_eq_some.mp h
  obtain ⟨dir, hdir, h⟩ := Option.bind_eq_some_iff.mp h
  obtain ⟨d, hstep, rfl⟩ := Option.map_eq_some_iff.mp h
  cases (step_stepped hstep).2 with
  | poll dir free event interest => exact ⟨dir, hdir, rfl, event, rfl⟩

/-- A reported event is served exactly if it does not report both directions. -/
theorem edgeServed_iff {n t : Net σ} {readable writable : Bool}
    (h : netStep R n (.report readable writable) = some t) :
    EdgeServed R n (.report readable writable) ↔ ¬ (readable = true ∧ writable = true) := by
  obtain ⟨dir, hdir, event, -⟩ := report_stepped h
  constructor
  · rintro served ⟨rfl, rfl⟩
    obtain ⟨first, second⟩ := served true true t rfl h
    rw [first rfl] at second
    cases second rfl
  · intro apart r w u same hu
    cases same
    cases h.symm.trans hu
    rw [event]
    cases readable with
    | true =>
        cases hdir
        exact ⟨fun _ => rfl, fun writable => absurd ⟨rfl, writable⟩ apart⟩
    | false =>
        cases writable with
        | true =>
            cases hdir
            exact ⟨Bool.noConfusion, fun _ => rfl⟩
        | false => exact ⟨Bool.noConfusion, Bool.noConfusion⟩

/-- The invariant: what waits in the buffer waits for an edge that will come. -/
structure Flowing (n : Net σ) : Prop where
  size : n.cfg.tr.state.writeBufDsize = held n.cfg.tr.state.writeBuf
  chunks : ∀ chunk ∈ n.cfg.tr.state.writeBuf, chunk ≠ []
  armed : n.cfg.tables.bound = true ∨ Frame.attach ∈ n.cfg.stack → n.cfg.tr.state.writeBuf ≠ [] →
    n.cfg.watches .writable = true → n.room = true →
    n.edge = true ∨ n.cfg.tables.event = some .writable ∨ Frame.lost .writeHandle ∈ n.cfg.stack
  kept : n.cfg.tables.bound = true → n.cfg.tr.state.writeBuf ≠ [] →
    n.cfg.watches .writable = true ∨ ∃ k, Frame.lost k ∈ n.cfg.stack

theorem Flowing.not_stalled {n : Net σ} (h : Flowing n) : ¬ n.Stalled := by
  intro stalled
  have watched : n.cfg.watches .writable = true := by
    refine (h.kept stalled.bound stalled.waiting).resolve_right fun ⟨k, hk⟩ => ?_
    rw [stalled.quiescent] at hk
    cases hk
  rcases h.armed (.inl stalled.bound) stalled.waiting watched stalled.room with
    edge | handle | frame
  · rw [stalled.noEdge] at edge
    cases edge
  · exact stalled.noHandle handle
  · rw [stalled.quiescent] at frame
    cases frame

structure Steady (c d : Cfg σ) : Prop where
  buf : d.tr.state.writeBuf = c.tr.state.writeBuf
  size : d.tr.state.writeBufDsize = c.tr.state.writeBufDsize
  event : c.tables.event = some .writable → d.tables.event = some .writable
  log : ∃ obs, d.log = c.log ++ obs ∧ (c.tr.state.writeBuf ≠ [] → ∀ o ∈ obs, o.offers = none)
  bound : d.tables.bound = true → c.tables.bound = true
  attach : Frame.attach ∈ d.stack → Frame.attach ∈ c.stack
  watches : c.tr.state.writeBuf ≠ [] → d.tables.bound = true → c.watches .writable = true →
    d.watches .writable = true ∨ ∃ k, Frame.lost k ∈ d.stack
  lost : d.tables.bound = true → (∃ k, Frame.lost k ∈ c.stack) → ∃ k, Frame.lost k ∈ d.stack
  handle : d.tables.bound = true ∨ Frame.attach ∈ d.stack → Frame.lost .writeHandle ∈ c.stack →
    Frame.lost .writeHandle ∈ d.stack

theorem Steady.trans {b c d : Cfg σ} (first : Steady b c) (second : Steady c d) : Steady b d := by
  obtain ⟨obs, hobs, quiet⟩ := first.log
  obtain ⟨more, hmore, steady⟩ := second.log
  refine
    { buf := second.buf.trans first.buf
      size := second.size.trans first.size
      event := fun h => second.event (first.event h)
      log := ⟨obs ++ more, by rw [hmore, hobs, List.append_assoc], fun waiting o ho => ?_⟩
      bound := fun h => first.bound (second.bound h)
      attach := fun h => first.attach (second.attach h)
      watches := fun waiting there watched => ?_
      lost := fun there h => second.lost there (first.lost (second.bound there) h)
      handle := fun there h => second.handle there
          (first.handle (there.imp second.bound second.attach) h) }
  · exact (List.mem_append.mp ho).elim (quiet waiting o) (steady (first.buf ▸ waiting) o)
  · rcases first.watches waiting (second.bound there) watched with still | lost
    · exact second.watches (first.buf ▸ waiting) there still
    · exact .inr (second.lost there lost)

/-- Nothing the poller or the buffer depends on. -/
theorem Steady.same {c d : Cfg σ} (buf : d.tr.state.writeBuf = c.tr.state.writeBuf)
    (size : d.tr.state.writeBufDsize = c.tr.state.writeBufDsize)
    (event : d.tables.event = c.tables.event)
    (bound : d.tables.bound = true → c.tables.bound = true) (log : d.log = c.log)
    (stack : d.stack = c.stack)
    (watches : d.tables.bound = true → c.tr.state.writeBuf ≠ [] → c.watches .writable = true →
      d.watches .writable = true) :
    Steady c d where
  buf := buf
  size := size
  event := event.trans
  log := ⟨[], log.trans (List.append_nil _).symm, fun _ => List.forall_mem_nil _⟩
  bound := bound
  attach := stack ▸ id
  watches waiting there h := .inl (watches there waiting h)
  lost _ := stack ▸ id
  handle _ := stack ▸ id

theorem Steady.refl (c : Cfg σ) : Steady c c := .same rfl rfl rfl id rfl rfl fun _ _ => id

theorem Steady.emit (c : Cfg σ) {o : Obs} (silent : o.offers = none) : Steady c (c.emit o) :=
  { Steady.refl c with log := ⟨[o], rfl, fun _ => List.forall_mem_singleton.mpr silent⟩ }

theorem Steady.call (c : Cfg σ) (e : Callback) {frame : Frame} (other : frame ≠ .attach) :
    Steady c (c.call e frame) :=
  { Steady.refl c with
    log := ⟨[.callback e c.tr.state.writeBuf], rfl, fun _ => List.forall_mem_singleton.mpr rfl⟩
    attach := fun h => (List.mem_cons.mp h).resolve_left other.symm
    watches := fun _ _ => .inl
    lost := fun _ ⟨k, hk⟩ => ⟨k, List.mem_cons_of_mem _ hk⟩
    handle := fun _ => List.mem_cons_of_mem _ }

/-- A call of `connection_lost`: the registration does not matter any more. -/
theorem Steady.lostCall {c d : Cfg σ} (err : Option String) (k : AfterLost)
    (state : d.tr.state = c.tr.state) (event : d.tables.event = c.tables.event)
    (bound : d.tables.bound = c.tables.bound) (log : d.log = c.log)
    (stack : d.stack = c.stack) : Steady c (callConnLost d err k) where
  buf := congrArg (·.writeBuf) state
  size := congrArg (·.writeBufDsize) state
  event := event.trans
  log := ⟨[_], congrArg (· ++ [_]) log, fun _ => List.forall_mem_singleton.mpr rfl⟩
  bound := bound ▸ id
  attach h := stack ▸ (List.mem_cons.mp h).resolve_left Frame.noConfusion
  watches _ _ _ := .inr ⟨k, List.mem_cons_self⟩
  lost _ _ := ⟨k, List.mem_cons_self⟩
  handle _ h := List.mem_cons_of_mem _ (stack ▸ h)

theorem roomAfterAll_silent (full room : Bool) {obs : List Obs}
    (silent : ∀ o ∈ obs, o.offers = none) : roomAfterAll full room obs = room := by
  induction obs with
  | nil => rfl
  | cons o obs ih =>
      obtain ⟨first, rest⟩ := List.forall_mem_cons.mp silent
      rw [roomAfterAll, List.foldl_cons, first]
      exact ih rest

theorem Flowing.steady {n : Net σ} {d : Cfg σ} (h : Flowing n) (steady : Steady n.cfg d)
    (full rearm : Bool) : Flowing (n.advance d full rearm) := by
  obtain ⟨obs, log, silent⟩ := steady.log
  refine ⟨?_, ?_, fun there waiting watched room => ?_, fun there waiting => ?_⟩
  · exact steady.size.trans (h.size.trans (congrArg held steady.buf.symm))
  · exact steady.buf ▸ h.chunks
  · have waiting : n.cfg.tr.state.writeBuf ≠ [] := steady.buf ▸ waiting
    have same : (n.advance d full rearm).room = n.room := by
      simp only [Net.advance, log, List.drop_left]
      exact roomAfterAll_silent full n.room (silent waiting)
    have there' : n.cfg.tables.bound = true ∨ Frame.attach ∈ n.cfg.stack :=
      there.imp steady.bound steady.attach
    by_cases before : n.cfg.watches .writable = true
    · rcases h.armed there' waiting before (same ▸ room) with edge | handle | frame
      · refine .inl ?_
        simp only [Net.advance, edge, Bool.true_or, Bool.and_true]
        exact watched
      · exact .inr (.inl (steady.event handle))
      · exact .inr (.inr (steady.handle there frame))
    · have changed : reregisters n.cfg d = true := by
        refine Bool.or_eq_true_iff.mpr (.inl (decide_eq_true fun interest => before ?_))
        rw [Cfg.watches, ← interest]
        exact watched
      refine .inl (Bool.and_eq_true_iff.mpr ⟨watched, Bool.or_eq_true_iff.mpr (.inr ?_)⟩)
      rw [changed, Bool.or_true, Bool.and_true]
      exact room
  · have waiting : n.cfg.tr.state.writeBuf ≠ [] := steady.buf ▸ waiting
    rcases h.kept (steady.bound there) waiting with watched | lost
    · exact steady.watches waiting there watched
    · exact .inr (steady.lost there lost)

theorem Steady.stopReading (c : Cfg σ) : Steady c (c.streamRem .readable) := by
  refine .same rfl rfl rfl id rfl rfl fun _ _ watched => ?_
  rwa [watches_streamRem_other (by simp)]

/-- With an empty buffer `WRITABLE` may go. -/
theorem Steady.stopWriting {c : Cfg σ} (empty : c.tr.state.writeBuf = []) :
    Steady c (c.streamRem .writable) :=
  .same rfl rfl rfl id rfl rfl fun _ waiting => absurd empty waiting

theorem closeAlert_steady {c : Cfg σ} (empty : c.tr.state.writeBuf = []) (conn : σ) (env : Env) :
    Steady c (closeAlert R c conn env) :=
  { Steady.refl c with
    log := ⟨[_], rfl, fun waiting => absurd empty waiting⟩
    buf := rfl
    size := rfl }

theorem close_steady (c : Cfg σ) (env : Env) :
    Steady c (close R c env) := by
  have closed : Steady c c.setClosing := .same rfl rfl rfl id rfl rfl fun _ _ => id
  simp only [close]
  split_ifs
  · exact .refl c
  · exact .same rfl rfl rfl id rfl rfl fun _ _ => id
  · split
    next conn hconn =>
      have stopped : c.setClosing.tr.state.writeBuf = [] →
          Steady c ((closeAlert R c.setClosing conn env).streamRem .writable) :=
        fun empty => closed.trans ((closeAlert_steady empty conn env).trans (.stopWriting empty))
      simp only [closeTls]
      split_ifs with waiting bound
      · exact .same rfl rfl rfl id rfl rfl fun _ _ => id
      · exact stopped (not_not.mp waiting)
      · exact (stopped (not_not.mp waiting)).trans (.same rfl rfl rfl id rfl rfl fun _ _ => id)
    · simp only [closePlain]
      split_ifs with zero
      · exact .lostCall none .callConnLost rfl rfl rfl rfl rfl
      · exact closed.trans (.stopReading _)

theorem unlist_steady (c : Cfg σ) : Steady c c.unlist := by
  unfold Cfg.unlist
  split_ifs
  · exact .same rfl rfl rfl id rfl rfl fun _ _ => id
  · exact .refl c

theorem tcpStreamClose_steady (c : Cfg σ) (held : Bool)
    (env : Env) : Steady c (tcpStreamClose R c held env) := by
  have unbound : Steady c c.unbind := .same rfl rfl rfl Bool.noConfusion rfl rfl fun _ _ => id
  have closed : Steady c (close R c.unbind env) := unbound.trans (close_steady _ env)
  simp only [tcpStreamClose]
  split_ifs
  · exact unbound.trans (.same rfl rfl rfl id rfl rfl fun _ _ => id)
  · exact closed
  · exact closed.trans (unlist_steady _)
  · exact unbound
  · exact unbound.trans (unlist_steady _)
  · exact .refl c

theorem tcpStreamClose_unbinds (c : Cfg σ) (held : Bool) (env : Env) :
    (tcpStreamClose R c held env).tables.bound = false := by
  have closed : (close R c.unbind env).tables.bound = false := method_bound c.unbind env .close
  simp only [tcpStreamClose]
  split_ifs with bound
  · rfl
  · exact closed
  · rw [unlist_bound]
    exact closed
  · rfl
  · exact unlist_bound _
  · exact Bool.eq_false_iff.mpr bound

theorem abort_steady (c : Cfg σ) : Steady c (abort c) := by
  simp only [abort]
  split_ifs
  · exact .same rfl rfl rfl id rfl rfl fun _ _ => id
  all_goals exact .lostCall none .callConnLost rfl rfl rfl rfl rfl

/-- A method that writes no data. -/
theorem Tuned.steady {c d : Cfg σ} (h : Tuned c d) : Steady c d := by
  cases h with
  | unchanged => exact .refl c
  | set | borrowed => exact .same rfl rfl rfl id rfl rfl fun _ _ => id
  | raised => exact .emit c rfl
  | shutdown =>
      exact Steady.trans (c := { c with tr := { c.tr with weof := true } })
        (.same rfl rfl rfl id rfl rfl fun _ _ => id) (.emit _ rfl)
  | pauseReading =>
      exact Steady.trans (c := { c with tr := { c.tr with paused := true } })
        (.same rfl rfl rfl id rfl rfl fun _ _ => id) (.stopReading _)
  | resumeReading =>
      refine .same rfl rfl rfl id rfl rfl fun _ _ watched => ?_
      exact (watches_streamAdd (c := { c with tr := { c.tr with paused := false } })
        (by simp)).trans watched
  | pauseWriting waterHi waterLo =>
      exact Steady.trans (c := { c with tr := { c.tr with
        waterHi := waterHi
        waterLo := waterLo
        protoPaused := true } }) (.same rfl rfl rfl id rfl rfl fun _ _ => id)
            (.call _ _ Frame.noConfusion)

theorem method_steady (c : Cfg σ) (env : Env) {m : Method}
    (other : ∀ data, m ≠ .write data) (others : ∀ data, m ≠ .writelines data) : Steady c
    (m.run R c env) := by
  cases m with
  | write data => exact absurd rfl (other data)
  | writelines data => exact absurd rfl (others data)
  | close => exact close_steady c env
  | abort => exact abort_steady c
  | callConnectionLost => exact .lostCall none .callConnLost rfl rfl rfl rfl rfl
  | writeEof | pauseReading | resumeReading | setWriteBufferLimits | isTls | getWriteBufferSize =>
      exact (Method.tuned rfl c env).steady

theorem received_steady {c : Cfg σ} (r : Cfg σ × Option Bytes × Bool) (h : Steady c r.1) :
    Steady c (received r) := by
  obtain ⟨d, data, eof⟩ := r
  cases data with
  | some data => exact h.trans (.call d _ Frame.noConfusion)
  | none =>
      cases eof with
      | true => exact h.trans ((Steady.stopReading d).trans (.call _ _ Frame.noConfusion))
      | false => exact h

theorem recvPlaintext_steady (c : Cfg σ) (conn : σ) : Steady c (recvPlaintext R c conn).1 := by
  have shaken : Steady c (checkHandshake R (c.setConn conn) conn) := by
    simp only [checkHandshake]
    split_ifs <;> exact .same rfl rfl rfl id rfl rfl fun _ _ => id
  have registered : Steady c (if R.wantsWrite conn = true
      then (checkHandshake R (c.setConn conn) conn).streamAdd .writable
      else checkHandshake R (c.setConn conn) conn) := by
    split_ifs
    · exact shaken.trans (.same rfl rfl rfl id rfl rfl fun _ _ => watches_streamAdd_mono)
    · exact shaken
  have read : ∀ {d : Cfg σ} (conn' : σ), Steady c d → Steady c (d.setConn conn') := fun conn' h =>
    h.trans (.same rfl rfl rfl id rfl rfl fun _ _ => id)
  simp only [recvPlaintext]
  generalize (if R.wantsWrite conn = true
    then (checkHandshake R (c.setConn conn) conn).streamAdd .writable
    else checkHandshake R (c.setConn conn) conn) = d at registered ⊢
  split_ifs
  · exact read _ registered
  · exact read _ registered
  · exact registered

theorem recvDirect_steady (c : Cfg σ) (env : Env) : Steady c (recvDirect R c env).1 := by
  have set : ∀ {d : Cfg σ} (conn : σ) (received : Bool), Steady c d →
      Steady c (d.setState { d.tr.state with
        tlsConn := some conn, tlsCloseReceived := received }) :=
    fun conn received h => h.trans (.same rfl rfl rfl id rfl rfl fun _ _ => id)
  simp only [recvDirect]
  split
  next conn hconn =>
    have heard : Steady c (c.emit (.recvTls (readInto readBufSize env.reads).1)) := .emit c rfl
    split_ifs
    · exact heard
    · simp only [feedTls]
      split
      · exact (set _ _ heard).trans (.emit _ rfl)
      next conn' n hread =>
        have fed := heard.trans (Steady.emit _ (o := .fed (readInto readBufSize env.reads).1 n) rfl)
        split
        · exact (set _ _ fed).trans (.emit _ rfl)
        · exact (set _ _ fed).trans (.emit _ rfl)
        · exact fed.trans (recvPlaintext_steady _ _)
  · exact .emit c rfl

theorem readRound_steady (c : Cfg σ) (env : Env) : Steady c (readRound R c env) := by
  simp only [readRound]
  split_ifs
  · exact .call c _ Frame.noConfusion
  · exact received_steady _ (recvDirect_steady c env)

theorem eofReceived_steady (c : Cfg σ) (truthy : Bool)
    (env : Env) : Steady c (eofReceived R c truthy env) := by
  have closed : Steady c c.setClosing := .same rfl rfl rfl id rfl rfl fun _ _ => id
  simp only [eofReceived, closeFromReadHandle]
  split_ifs with _ _ _ tls waiting
  · exact .refl c
  · exact .lostCall none .recvEof rfl rfl rfl rfl rfl
  · exact .refl c
  · have shut : Steady c (close R c.setClosing env) := closed.trans (close_steady _ env)
    exact shut.trans (tcpStreamClose_steady _ _ env)
  · exact closed
  · exact .lostCall (d := c.setClosing.streamRem .writable) none .readHandle rfl rfl rfl rfl rfl

theorem finishWrite_steady (c : Cfg σ) (streamClose : Option Bool) (env : Env) :
    Steady c (finishWrite R c streamClose env) := by
  have drained : Steady c (if c.tr.state.writeBuf = [] then c.streamRem .writable else c) := by
    split_ifs with empty
    · exact .stopWriting empty
    · exact .refl c
  simp only [finishWrite]
  split
  · exact drained.trans (tcpStreamClose_steady _ _ env)
  · exact drained.trans (.emit _ rfl)
  · exact drained

theorem closeFromWriteHandle_steady (c : Cfg σ) (errored : Bool) (env : Env) :
    Steady c (closeFromWriteHandle R c errored env) := by
  simp only [closeFromWriteHandle]
  split
  · exact .lostCall _ .writeHandle rfl rfl rfl rfl rfl
  · exact finishWrite_steady c _ env

theorem afterWrite_steady (c : Cfg σ) (env : Env) :
    Steady c (afterWrite R c env) := by
  simp only [afterWrite]
  split_ifs with empty pending
  · split
    next conn hconn =>
      have alerted : Steady c ((closeAlert R c conn env).setState
          { (closeAlert R c conn env).tr.state with tlsPendingClose := false }) :=
        (closeAlert_steady empty conn env).trans (.same rfl rfl rfl id rfl rfl fun _ _ => id)
      exact alerted.trans (finishWrite_steady _ _ _)
    · exact finishWrite_steady c _ env
  · exact closeFromWriteHandle_steady c _ env
  · exact finishWrite_steady c _ env

theorem written_steady (c : Cfg σ) (n : Nat) (env : Env) :
    Steady c (written R c n env) := by
  simp only [written]
  split_ifs
  · exact Steady.trans (c := { c with tr := { c.tr with protoPaused := false } })
      (.same rfl rfl rfl id rfl rfl fun _ _ => id) (.call _ _ Frame.noConfusion)
  · exact afterWrite_steady c env

/-- After a step the buffer is empty, the connection is over, or the edge will come. -/
theorem Flowing.wrote {n : Net σ} {d : Cfg σ} {full rearm : Bool}
    (size : d.tr.state.writeBufDsize = held d.tr.state.writeBuf)
    (chunks : ∀ chunk ∈ d.tr.state.writeBuf, chunk ≠ [])
    (armed : d.tables.bound = true ∨ Frame.attach ∈ d.stack → d.tr.state.writeBuf ≠ [] →
    d.watches .writable = true →
      (n.advance d full rearm).room = true → n.edge = true ∨ reregisters n.cfg d = true ∨
        d.tables.event = some .writable ∨ Frame.lost .writeHandle ∈ d.stack)
    (kept : d.tables.bound = true → d.tr.state.writeBuf ≠ [] →
      d.watches .writable = true ∨ ∃ k, Frame.lost k ∈ d.stack) :
    Flowing (n.advance d full rearm) := by
  refine ⟨size, chunks, fun there waiting watched room => ?_, kept⟩
  rcases armed there waiting watched room with edge | rearmed | handle
  · exact .inl (Bool.and_eq_true_iff.mpr ⟨watched, Bool.or_eq_true_iff.mpr (.inl edge)⟩)
  · refine .inl (Bool.and_eq_true_iff.mpr ⟨watched, Bool.or_eq_true_iff.mpr (.inr ?_)⟩)
    rw [rearmed, Bool.or_true, Bool.and_true]
    exact room
  · exact .inr handle

/-- With an empty buffer nothing has to come. -/
theorem Flowing.emptied {n : Net σ} {d : Cfg σ} {full rearm : Bool}
    (empty : d.tr.state.writeBuf = []) (size : d.tr.state.writeBufDsize = 0) : Flowing
    (n.advance d full rearm) := by
  refine .wrote ?_ ?_ (fun _ waiting => absurd empty waiting) fun _ waiting => absurd empty waiting
  · rw [empty, size]
    rfl
  · rw [empty]
    exact List.forall_mem_nil _

/-- What `push_back` of a chunk leaves. -/
structure Pushed (c d : Cfg σ) (data : Bytes) : Prop where
  buf : d.tr.state.writeBuf = c.tr.state.writeBuf ++ [data]
  size : d.tr.state.writeBufDsize = c.tr.state.writeBufDsize + data.length
  tables : d.tables = if c.tr.state.writeBufDsize = 0 then (c.streamAdd .writable).tables
      else c.tables
  log : ∃ obs, d.log = c.log ++ obs ∧ ∀ o ∈ obs, o.offers = none
  lost : ∀ k, Frame.lost k ∈ c.stack → Frame.lost k ∈ d.stack
  attach : Frame.attach ∈ d.stack → Frame.attach ∈ c.stack

theorem Pushed.steady {c d e : Cfg σ} {data : Bytes} (h : Pushed c d data)
    (state : e.tr.state = d.tr.state) (tables : e.tables = d.tables) (obs : List Obs)
    (log : e.log = d.log ++ obs) (silent : ∀ o ∈ obs, o.offers = none)
    (lost : ∀ k, Frame.lost k ∈ d.stack → Frame.lost k ∈ e.stack)
    (attach : Frame.attach ∈ e.stack → Frame.attach ∈ d.stack) :
    Pushed c e data := by
  obtain ⟨before, hbefore, quiet⟩ := h.log
  exact
    { buf := state ▸ h.buf
      size := state ▸ h.size
      tables := tables.trans h.tables
      log := ⟨before ++ obs, by rw [log, hbefore, List.append_assoc], fun o ho =>
        (List.mem_append.mp ho).elim (quiet o) (silent o)⟩
      lost := fun k hk => lost k (h.lost k hk)
      attach := fun h' => h.attach (attach h') }

theorem pushBack_pushed (c : Cfg σ) (data : Bytes) : Pushed c (pushBack c data) data := by
  have grown : Pushed c (grow (c.setState
    { c.tr.state with writeBuf := c.tr.state.writeBuf ++ [data] }) data.length)
      data := by
    simp only [grow]
    split_ifs with zero
    · exact ⟨rfl, rfl, (if_pos zero).symm, ⟨[], (List.append_nil _).symm, List.forall_mem_nil _⟩,
        fun _ => id, id⟩
    · exact ⟨rfl, rfl, (if_neg zero).symm, ⟨[], (List.append_nil _).symm, List.forall_mem_nil _⟩,
        fun _ => id, id⟩
  simp only [pushBack, bufAdded]
  split_ifs
  · exact grown.steady rfl rfl [.callback .pauseWriting _] rfl (List.forall_mem_singleton.mpr rfl)
      (fun k hk => List.mem_cons_of_mem _ hk) fun h =>
      (List.mem_cons.mp h).resolve_left Frame.noConfusion
  · exact grown

theorem roomAfterAll_append (full room : Bool) (obs more : List Obs) :
    roomAfterAll full room (obs ++ more) = roomAfterAll full (roomAfterAll full room obs) more :=
  List.foldl_append

theorem Flowing.empty_iff {n : Net σ} (h : Flowing n) :
    n.cfg.tr.state.writeBufDsize = 0 ↔ n.cfg.tr.state.writeBuf = [] := by
  rw [h.size]
  exact held_eq_zero_iff h.chunks

section Push

variable {n : Net σ} {data : Bytes} {obs : List Obs} (full rearm : Bool)

theorem Flowing.push_held (h : Flowing n) (more : data ≠ []) {d : Cfg σ}
    (pushed : Pushed { n.cfg with log := n.cfg.log ++ obs } d data) :
    d.tr.state.writeBufDsize = held d.tr.state.writeBuf ∧
    ∀ chunk ∈ d.tr.state.writeBuf, chunk ≠ [] := by
  have size := pushed.size
  have buf := pushed.buf
  constructor
  · rw [size, buf, held_append, h.size]
    simp
  · rw [buf]
    exact List.forall_mem_append.mpr ⟨h.chunks, List.forall_mem_singleton.mpr more⟩

theorem push_room :
    (n.advance (pushBack { n.cfg with log := n.cfg.log ++ obs } data) full rearm).room =
      roomAfterAll full n.room obs := by
  obtain ⟨after, hafter, silent⟩ := (pushBack_pushed { n.cfg with log := n.cfg.log ++ obs }
    data).log
  simp only [Net.advance, hafter, List.append_assoc, List.drop_left, roomAfterAll_append]
  exact roomAfterAll_silent full _ silent

/-- The first chunk calls `tcp_stream_add`, and only an interest in nothing but
`WRITABLE` keeps it from arming the edge. -/
theorem Flowing.push_first (h : Flowing n) (zero : n.cfg.tr.state.writeBufDsize = 0)
    (more : data ≠ []) (first : n.cfg.tables.interest = some (.only .writable) →
      roomAfterAll full n.room obs = true → n.edge = true) :
    Flowing (n.advance (pushBack { n.cfg with log := n.cfg.log ++ obs } data) full rearm) := by
  have pushed := pushBack_pushed { n.cfg with log := n.cfg.log ++ obs } data
  obtain ⟨size, chunks⟩ := h.push_held more pushed
  refine .wrote size chunks (fun _ _ _ up => ?_) fun _ _ => .inl ?_
  · rw [push_room] at up
    by_cases only : n.cfg.tables.interest = some (.only .writable)
    · exact .inl (first only up)
    · refine .inr (.inl (Bool.or_eq_true_iff.mpr (.inr (decide_eq_true ⟨zero, ?_, only⟩))))
      rw [pushed.size]
      exact Nat.add_pos_right _ (List.length_pos_of_ne_nil more)
  · rw [Cfg.watches, pushed.tables, if_pos zero]
    exact watches_streamAdd_same n.cfg .writable

/-- A further chunk waits for the edge the buffer waits for. -/
theorem Flowing.push_next (h : Flowing n) (filled : n.cfg.tr.state.writeBufDsize ≠ 0)
    (more : data ≠ []) (silent : ∀ o ∈ obs, o.offers = none) :
    Flowing (n.advance (pushBack { n.cfg with log := n.cfg.log ++ obs } data) full rearm) := by
  have pushed := pushBack_pushed { n.cfg with log := n.cfg.log ++ obs } data
  obtain ⟨size, chunks⟩ := h.push_held more pushed
  have tables : (pushBack { n.cfg with log := n.cfg.log ++ obs } data).tables = n.cfg.tables :=
    pushed.tables.trans (if_neg filled)
  have waiting : n.cfg.tr.state.writeBuf ≠ [] := fun empty => filled (h.empty_iff.mpr empty)
  refine .wrote size chunks (fun there _ watched up => ?_) fun there _ => ?_
  · rw [push_room, roomAfterAll_silent full n.room silent] at up
    rw [Cfg.watches, tables] at watched
    rcases h.armed (there.imp (tables ▸ ·) pushed.attach) waiting watched up with
      edge | handle | frame
    · exact .inl edge
    · exact .inr (.inr (.inl (tables ▸ handle)))
    · exact .inr (.inr (.inr (pushed.lost _ frame)))
  · rcases h.kept (tables ▸ there) waiting with watched | ⟨k, hk⟩
    · refine .inl ?_
      rw [Cfg.watches, tables]
      exact watched
    · exact .inr ⟨k, pushed.lost k hk⟩

end Push

/-- The direct write of `try_write`. -/
theorem directWrite_flowing {n : Net σ} (h : Flowing n) {data : Bytes} (more : data ≠ [])
    (zero : n.cfg.tr.state.writeBufDsize = 0) {r : WriteResult} (full rearm : Bool)
    (good : n.cfg.tables.interest = some (.only .writable) → n.room = true → n.edge = false →
      r ≠ .interrupted) :
    Flowing (n.advance (directWrite (n.cfg.emit (.accepted data)) data r) full rearm) := by
  have empty := h.empty_iff.mp zero
  have buffered : ∀ rest : Bytes, rest ≠ [] → (n.cfg.tables.interest = some (.only .writable) →
      roomAfter full n.room (some (data.length, r)) = true → n.edge = true) →
      Flowing (n.advance (pushBack ((n.cfg.emit (.accepted data)).emit (.write data r)) rest) full
        rearm) := by
    intro rest some room
    have logged : (n.cfg.emit (.accepted data)).emit (.write data r) =
        { n.cfg with log := n.cfg.log ++ [.accepted data, .write data r] } := by
      simp only [Cfg.emit, List.append_assoc]
      rfl
    rw [logged]
    exact h.push_first full rearm zero some room
  cases r with
  | ok taken =>
      simp only [directWrite]
      split_ifs with whole
      · exact .emptied empty zero
      · refine buffered _ (fun gone => whole (List.drop_eq_nil_iff.mp gone)) fun _ up => ?_
        rw [roomAfter, if_pos (Nat.not_le.mp whole)] at up
        cases up
  | wouldBlock => exact buffered data more fun _ up => by cases up
  | interrupted =>
      refine buffered data more fun only up => ?_
      by_contra edge
      exact good only up (Bool.eq_false_iff.mpr edge) rfl
  | fatal text =>
      simp only [directWrite]
      split_ifs
      · exact .emptied empty zero
      · exact .emptied empty zero

theorem tryWrite_flowing {n : Net σ} (h : Flowing n) {data : Bytes} {env : Env}
    (good : WriteArmed n data env) (full rearm : Bool) : Flowing
    (n.advance (tryWrite n.cfg data env) full rearm) := by
  have good := fun weof more held =>
    good (Bool.eq_false_iff.mpr weof) more (Bool.eq_false_iff.mpr held)
  simp only [tryWrite]
  split_ifs with weof empty held tls zero
  · exact h.steady (.emit _ rfl) full rearm
  · exact h.steady (.refl _) full rearm
  · exact h.steady (d := n.cfg.panic) (.same rfl rfl rfl id rfl rfl fun _ _ => id) full rearm
  · by_cases zero : n.cfg.tr.state.writeBufDsize = 0
    · refine h.push_first full rearm zero empty fun only room => ?_
      by_contra edge
      have plain := (good weof empty held zero only room (Bool.eq_false_iff.mpr edge)).1
      rw [Cfg.emit, plain] at tls
      cases tls
    · exact h.push_next full rearm zero empty (List.forall_mem_singleton.mpr rfl)
  · exact directWrite_flowing h empty zero full rearm fun only room edge =>
      (good weof empty held zero only room edge).2
  · exact h.push_next full rearm zero empty (List.forall_mem_singleton.mpr rfl)

/-- The handle writes, which leads to `c`, and then goes on without writing. -/
theorem Flowing.handled {n : Net σ} (h : Flowing n) {c d : Cfg σ} (obs : List Obs)
    (log : c.log = n.cfg.log ++ obs)
    (untouched : Untouched { n.cfg with tables := { n.cfg.tables with event := none } } c)
    (size : c.tr.state.writeBufDsize = held c.tr.state.writeBuf)
    (chunks : ∀ chunk ∈ c.tr.state.writeBuf, chunk ≠ []) (full rearm : Bool)
    (blocked : c.tr.state.writeBuf ≠ [] → roomAfterAll full n.room obs = false ∨
      Frame.lost .writeHandle ∈ d.stack ∨ d.watches .writable = false)
    (steady : Steady c d) : Flowing (n.advance d full rearm) := by
  obtain ⟨after, hafter, silent⟩ := steady.log
  have watches : c.watches .writable = n.cfg.watches .writable := by
    rw [Cfg.watches, untouched.tables]
    rfl
  refine .wrote ?_ ?_ (fun there waiting watched room => ?_) fun there waiting => ?_
  · exact steady.size.trans (size.trans (congrArg held steady.buf.symm))
  · exact steady.buf ▸ chunks
  · have waiting : c.tr.state.writeBuf ≠ [] := steady.buf ▸ waiting
    rcases blocked waiting with full | frame | unwatched
    · simp only [Net.advance, hafter, log, List.append_assoc, List.drop_left, roomAfterAll_append,
        full] at room
      rw [roomAfterAll_silent _ _ (silent waiting)] at room
      cases room
    · exact .inr (.inr (.inr frame))
    · rw [unwatched] at watched
      cases watched
  · have waiting : c.tr.state.writeBuf ≠ [] := steady.buf ▸ waiting
    have before : n.cfg.tr.state.writeBuf ≠ [] := fun empty => waiting (untouched.empty empty)
    have bound : n.cfg.tables.bound = true := by
      have there := steady.bound there
      rw [untouched.tables] at there
      exact there
    rcases h.kept bound before with watched | lost
    · exact steady.watches waiting there (watches.trans watched)
    · exact .inr (steady.lost there (untouched.stack ▸ lost))

/-- The plain loop leaves bytes only if the socket took no more. -/
theorem writeLoop_room (full room : Bool) (results : List WriteResult) (buf : List Bytes)
    (waiting : (writeLoop results buf).1 ≠ []) : roomAfterAll full room
    (writeLoop results buf).2.2 = false := by
  fun_induction writeLoop results buf generalizing room with
  | case1 | case7 => exact absurd rfl waiting
  | case2 | case6 => rfl
  | case3 n results data buf part =>
      change roomAfter full room (some (data.length, .ok n)) = false
      rw [roomAfter, if_pos part]
  | case4 n results data buf whole left ret obs hloop ih =>
      rw [hloop] at ih
      exact ih _ waiting
  | case5 results data buf left ret obs hloop ih =>
      rw [hloop] at ih
      exact ih _ waiting

theorem writePlain_flowing {n : Net σ} (h : Flowing n) (env : Env) {d : Cfg σ} (full rearm : Bool)
    (steady : Steady (writePlain { n.cfg with tables := { n.cfg.tables with event := none } } env).1
      d) :
    Flowing (n.advance d full rearm) := by
  obtain ⟨failed, counted⟩ := writeLoop_held env.writes n.cfg.tr.state.writeBuf
  refine h.handled (writeLoop env.writes n.cfg.tr.state.writeBuf).2.2 rfl
    (writePlain_untouched _ env) ?_ (writeLoop_chunks env.writes h.chunks) full rearm
    (fun waiting => .inl (writeLoop_room full n.room _ _ waiting))
      steady
  simp only [writePlain, Cfg.setState]
  cases hret : (writeLoop env.writes n.cfg.tr.state.writeBuf).2.1 with
  | none =>
      rw [failed hret]
      rfl
  | some taken =>
      have total := counted taken hret
      have size := h.size
      simp only [Option.elim_some]
      omega

/-- What the TLS writer leaves of the buffer, and the calls it made. -/
structure TlsWritten (R : Rustls σ) (c d : Cfg σ) (conn : σ) (env : Env) (ret : Option Nat) :
    Prop where
  size : d.tr.state.writeBufDsize = held d.tr.state.writeBuf
  chunks : ∀ chunk ∈ d.tr.state.writeBuf, chunk ≠ []
  log : ∃ obs, d.log = c.log ++ obs ∧ (d.tr.state.writeBuf ≠ [] → ∀ full room,
    roomAfterAll full room obs = roomAfter full room (offered (R.writeTls conn).2 env.nextWrite))
  waits : d.tr.state.writeBuf ≠ [] → match flushOutcome (R.writeTls conn).2 env.nextWrite with
    | .sent => c.tr.state.handshakeComplete = false ∨
        (encryptLoop R (R.writeTls conn).1 c.tr.state.writeBuf).2.2.2.1 = false ∧ ret = none
    | .failed => ret = none
    | .blocked => True

/-- The part from the encryption loop on: it leaves bytes only if rustls refused them. -/
structure Encrypted (R : Rustls σ) (c d : Cfg σ) (conn : σ) (ret : Option Nat) : Prop where
  size : d.tr.state.writeBufDsize = held d.tr.state.writeBuf
  chunks : ∀ chunk ∈ d.tr.state.writeBuf, chunk ≠ []
  log : ∃ obs, d.log = c.log ++ obs ∧ (d.tr.state.writeBuf ≠ [] → ∀ o ∈ obs, o.offers = none)
  waits : d.tr.state.writeBuf ≠ [] → (encryptLoop R conn c.tr.state.writeBuf).2.2.2.1 = false ∧
      ret = none

theorem writeEncrypted_encrypted {c : Cfg σ}
    (size : c.tr.state.writeBufDsize = held c.tr.state.writeBuf)
    (chunks : ∀ chunk ∈ c.tr.state.writeBuf, chunk ≠ []) (conn : σ) (env : Env) :
    Encrypted R c (writeEncrypted R c conn env).1 conn (writeEncrypted R c conn env).2.1 := by
  obtain ⟨suffix, counted, ended, logged⟩ := encryptLoop_spec (R := R) conn c.tr.state.writeBuf
  have silent : ∀ o ∈ (encryptLoop R conn c.tr.state.writeBuf).2.2.2.2, o.offers = none := by
    intro o ho
    obtain ⟨data, taken, ok, rfl⟩ := logged o ho
    rfl
  simp only [writeEncrypted]
  split
  next conn' left popped obs hloop =>
    rw [hloop] at suffix counted silent
    simp only at counted
    refine ⟨?_, fun chunk hchunk => chunks chunk (suffix.mem hchunk), ⟨obs, rfl, fun _ => silent⟩,
      fun _ => ⟨by rw [hloop], rfl⟩⟩
    change c.tr.state.writeBufDsize - popped = held left
    omega
  next conn' left popped obs hloop =>
    rw [hloop] at counted ended
    have empty : left = [] := ended.mp rfl
    have zero : c.tr.state.writeBufDsize - popped = 0 := by
      rw [empty] at counted
      simp only [held_nil] at counted
      omega
    have flushed : ∀ ret, Encrypted R c (flushTls R (encrypted c conn' left popped obs) conn' env).1
        conn ret := by
      intro ret
      refine ⟨zero.trans (by rw [← held_nil, ← empty]; rfl), ?_,
        ⟨obs ++ [_], List.append_assoc _ _ _, ?_⟩, ?_⟩
      · exact fun chunk hchunk => absurd (empty ▸ hchunk : chunk ∈ []) List.not_mem_nil
      · exact fun waiting => absurd empty waiting
      · exact fun waiting => absurd empty waiting
    split
    next hflush =>
      rw [hflush] at flushed
      exact flushed _
    next hflush =>
      rw [hflush] at flushed
      exact flushed _

theorem writeTls_written {c : Cfg σ} (size : c.tr.state.writeBufDsize = held c.tr.state.writeBuf)
    (chunks : ∀ chunk ∈ c.tr.state.writeBuf, chunk ≠ []) (conn : σ) (env : Env) :
    TlsWritten R c (writeTls R c conn env).1 conn env (writeTls R c conn env).2.1 := by
  have outcome : (flushTls R c conn env).2.2.1 = flushOutcome (R.writeTls conn).2 env.nextWrite :=
    rfl
  have conn' : (flushTls R c conn env).2.1 = (R.writeTls conn).1 := rfl
  have same : (flushTls R c conn env).1.tr.state.writeBuf = c.tr.state.writeBuf ∧
      (flushTls R c conn env).1.tr.state.writeBufDsize = c.tr.state.writeBufDsize ∧
      (flushTls R c conn env).1.tr.state.handshakeComplete = c.tr.state.handshakeComplete :=
      ⟨rfl, rfl, rfl⟩
  have log : ∃ more, (flushTls R c conn env).1.log =
      c.log ++ [.flushed false (R.writeTls conn).2 more env.nextWrite] := ⟨_, rfl⟩
  -- one call of `write(2)`, and a buffer as before
  have once : ∀ ret, (match flushOutcome (R.writeTls conn).2 env.nextWrite with
      | .sent => c.tr.state.handshakeComplete = false ∨
          (encryptLoop R (R.writeTls conn).1 c.tr.state.writeBuf).2.2.2.1 = false ∧ ret = none
      | .failed => ret = none
      | .blocked => True) → TlsWritten R c (flushTls R c conn env).1 conn env ret := by
    intro ret waits
    obtain ⟨more, hlog⟩ := log
    exact ⟨size, chunks, ⟨_, hlog, fun _ _ _ => rfl⟩, fun _ => waits⟩
  simp only [writeTls]
  split
  next hflush =>
    rw [hflush] at outcome once
    refine once _ ?_
    rw [← outcome]
  next hflush =>
    rw [hflush] at outcome once
    refine once _ ?_
    rw [← outcome]
    trivial
  next d conn₁ env₁ hflush =>
    rw [hflush] at outcome once conn' same log
    simp only at conn' same
    obtain ⟨buf, dsize, complete⟩ := same
    split_ifs with done
    · have encrypted := writeEncrypted_encrypted (R := R) (c := d) (by rw [buf, dsize]; exact size)
        (by rw [buf]; exact chunks) conn₁ env₁
      obtain ⟨more, hlog⟩ := log
      obtain ⟨obs, hobs, silent⟩ := encrypted.log
      refine ⟨encrypted.size, encrypted.chunks,
        ⟨.flushed false (R.writeTls conn).2 more env.nextWrite :: obs, ?_,
        fun waiting full room => ?_⟩, fun waiting => ?_⟩
      · rw [hobs, hlog, List.append_assoc]
        rfl
      · exact roomAfterAll_silent full _ (silent waiting)
      · rw [← outcome, ← conn', ← buf]
        exact .inr (encrypted.waits waiting)
    · refine once _ ?_
      rw [← outcome]
      exact .inl (complete ▸ Bool.eq_false_iff.mpr done)

theorem roomAfter_blocked (full room : Bool) {out : Option Bytes} {r : WriteResult}
    (h : flushOutcome out r = .blocked) :
    roomAfter full room (offered out r) = false := by
  cases out with
  | none => cases h
  | some out =>
      cases out with
      | nil => cases h
      | cons b out =>
          cases r with
          | wouldBlock => rfl
          | ok taken =>
              simp only [flushOutcome] at h
              split_ifs at h
          | interrupted | fatal text => cases h

/-- The TLS writer, and what follows it. -/
theorem writeTls_flowing {n : Net σ} (h : Flowing n) {conn : σ}
    (hconn : n.cfg.tr.state.tlsConn = some conn) {env : Env} (full rearm : Bool)
    (alive : closeTimedOut n.cfg.tr.state env.now = false) (good : FlushArmed R n env full)
    {c d : Cfg σ} {ret : Option Nat} {later : Env}
    (wrote : writeTls R { n.cfg with tables := { n.cfg.tables with event := none } } conn env = (c,
      ret, later))
    (steady : Steady c d) (ends : ret = none → c.tr.closing = true →
      Frame.lost .writeHandle ∈ d.stack) :
    Flowing (n.advance d full rearm) := by
  have flushed := writeTls_written (R := R)
    (c := { n.cfg with tables := { n.cfg.tables with event := none } }) h.size
    h.chunks conn env
  have untouched := writeTls_untouched (R := R)
    (c := { n.cfg with tables := { n.cfg.tables with event := none } })
    hconn env
  rw [wrote] at flushed untouched
  obtain ⟨obs, log, room⟩ := flushed.log
  refine h.handled obs log untouched flushed.size flushed.chunks full rearm
    (fun waiting => ?_) steady
  have before : n.cfg.tr.state.writeBuf ≠ [] := fun empty => waiting (untouched.empty empty)
  rw [room waiting]
  rcases good conn hconn before alive with blocked | armed
  · exact .inl blocked
  · have waits := flushed.waits waiting
    have closing : ret = none → n.cfg.tr.closing = true → Frame.lost .writeHandle ∈ d.stack :=
      fun none closing => ends none (untouched.closing.trans closing)
    cases houtcome : flushOutcome (R.writeTls conn).2 env.nextWrite with
    | blocked => exact .inl (roomAfter_blocked full n.room houtcome)
    | failed =>
        rw [houtcome] at armed waits
        exact .inr (.inl (closing waits armed))
    | sent =>
        rw [houtcome] at armed waits
        rcases waits with early | ⟨refused, none⟩
        · rw [armed.1] at early
          cases early
        · refine .inr (.inl (closing none (armed.2.resolve_left fun taken => ?_)))
          rw [refused] at taken
          cases taken

/-- A run of the write handle on a transport in the table. -/
theorem writeHandleRun_flowing {n : Net σ} (h : Flowing n) {env : Env} (full rearm : Bool)
    (good : FlushArmed R n env full) :
    Flowing (n.advance (writeHandleRun R
      { n.cfg with tables := { n.cfg.tables with event := none } } env)
      full rearm) := by
  simp only [writeHandleRun]
  split_ifs with timeout
  · refine h.handled (c := { n.cfg with tables := { n.cfg.tables with event := none } }) []
      (List.append_nil _).symm ⟨rfl, rfl, rfl, rfl, rfl, rfl, rfl, rfl, rfl, id⟩ h.size h.chunks
      full rearm (fun _ => .inr (.inr ?_)) (.lostCall none .callConnLost rfl rfl rfl rfl rfl)
    exact watches_streamRem_same _ .writable
  · split
    next conn hconn =>
      have alive : closeTimedOut n.cfg.tr.state env.now = false := Bool.eq_false_iff.mpr timeout
      split
      next hwrite =>
        exact writeTls_flowing h hconn full rearm alive good hwrite
          (written_steady _ _ _) fun none => by cases none
      next c later hwrite =>
        refine writeTls_flowing h hconn full rearm alive good hwrite
          (closeFromWriteHandle_steady _ _ _) fun _ closing => ?_
        rw [closeFromWriteHandle, if_pos closing]
        exact List.mem_cons_self
    next hconn =>
      split
      next hwrite =>
        refine writePlain_flowing h env full rearm ?_
        rw [hwrite]
        exact written_steady _ _ _
      next hwrite =>
        refine writePlain_flowing h env full rearm ?_
        rw [hwrite]
        exact closeFromWriteHandle_steady _ _ _

theorem Steady.popped {c : Cfg σ} {frame : Frame} {stack : List Frame}
    (h : c.stack = frame :: stack) (other : ∀ k, frame ≠ .lost k) : Steady c
    { c with stack := stack } :=
  { Steady.refl c with
    attach := fun attach => h ▸ List.mem_cons_of_mem _ attach
    watches := fun _ _ => .inl
    lost := fun _ ⟨k, hk⟩ => ⟨k, (List.mem_cons.mp (h ▸ hk)).resolve_left (other k).symm⟩
    handle := fun _ hk => (List.mem_cons.mp (h ▸ hk)).resolve_left (other _).symm }

/-- After `connection_lost` the transport leaves the table. -/
theorem Steady.returned {c d : Cfg σ} {k : AfterLost} {stack : List Frame}
    (h : c.stack = .lost k :: stack) (steady : Steady { c with stack := stack } d)
    (unbound : d.tables.bound = false) (bottom : k = .writeHandle → stack = []) : Steady c d :=
  { steady with
    bound := fun there => absurd there (Bool.eq_false_iff.mp unbound)
    attach := fun attach => h ▸ List.mem_cons_of_mem _ (steady.attach attach)
    watches := fun _ there => absurd there (Bool.eq_false_iff.mp unbound)
    lost := fun there => absurd there (Bool.eq_false_iff.mp unbound)
    handle := fun there hk => by
      rcases List.mem_cons.mp (h ▸ hk) with same | below
      · cases same
        rcases there with bound | attach
        · exact absurd bound (Bool.eq_false_iff.mp unbound)
        · exact absurd (bottom rfl ▸ steady.attach attach) List.not_mem_nil
      · exact steady.handle there below }

theorem lost_steady {c : Cfg σ} (last : HandlesLast c) {k : AfterLost} {stack : List Frame}
    (h : c.stack = .lost k :: stack)
    (r : Ret) (env : Env) : Steady c ((Frame.lost k).after R { c with stack := stack } r env) := by
  cases k with
  | writeHandle =>
      refine .returned h (finishWrite_steady { c with stack := stack } (some true) env)
        (tcpStreamClose_unbinds _ _ env) fun _ => ?_
      exact (last.below h).resolve_left Bool.noConfusion
  | callConnLost | tryWrite | recvEof | readHandle =>
      exact .returned h (tcpStreamClose_steady _ _ env) (tcpStreamClose_unbinds _ _ env) fun same =>
        by cases same

/-- `_tcp_conn` registers the transport after `connection_made`. -/
theorem Flowing.attached {n : Net σ} (h : Flowing n) {stack : List Frame}
    (hstack : n.cfg.stack = .attach :: stack) (bottom : stack = [])
    (watched : n.cfg.tr.state.writeBuf ≠ [] → n.cfg.watches .writable = true)
    (full rearm : Bool) :
    Flowing (n.advance (register { n.cfg with stack := stack }) full rearm) := by
  have still : n.cfg.watches .writable = true →
      (register { n.cfg with stack := stack }).watches .writable = true :=
    fun up => watches_streamAdd_mono (c := { n.cfg with
      stack := stack
      tables := { n.cfg.tables with bound := true } }) up
  refine .wrote h.size h.chunks (fun _ waiting _ room => ?_) fun _ waiting =>
    .inl (still (watched waiting))
  have same : (n.advance (register { n.cfg with stack := stack }) full rearm).room = n.room := by
    simp only [Net.advance, register, Cfg.streamAdd, List.drop_length]
    rfl
  rcases h.armed (.inr (hstack ▸ List.mem_cons_self)) waiting (watched waiting) (same ▸ room) with
    edge | handle | frame
  · exact .inl edge
  · exact .inr (.inr (.inl handle))
  · rw [hstack, bottom] at frame
    cases List.mem_singleton.mp frame

theorem after_flowing {n : Net σ} (h : Flowing n) (last : HandlesLast n.cfg) {frame : Frame}
    {stack : List Frame} (hstack : n.cfg.stack = frame :: stack) {r : Ret} {env : Env}
    {full rearm : Bool} (good : EdgeSafe R n (.code (.ret r) env full rearm)) :
    Flowing (n.advance (frame.after R { n.cfg with stack := stack } r env) full rearm) := by
  cases frame with
  | attach =>
      have bottom : stack = [] := (last.below hstack).resolve_left Bool.noConfusion
      simp only [Frame.after]
      split_ifs with raised
      · exact h.steady (.popped hstack fun _ => Frame.noConfusion) full rearm
      · exact h.attached hstack bottom (good (by rw [hstack]; rfl) raised) full rearm
  | connectionMade | pause => exact h.steady (.popped hstack fun _ => Frame.noConfusion) full rearm
  | getBuffer =>
      have popped := Steady.popped hstack fun _ => Frame.noConfusion
      cases r with
      | buffer size => exact h.steady (popped.trans (received_steady _ (.emit _ rfl))) full rearm
      | falsy | truthy | raised =>
          have panic : Steady { n.cfg with stack := stack }
              (Cfg.panic { n.cfg with stack := stack }) :=
            .same rfl rfl rfl id rfl rfl fun _ _ => id
          exact h.steady (popped.trans panic) full rearm
  | data ended =>
      have popped := Steady.popped hstack fun _ => Frame.noConfusion
      cases ended with
      | true => exact h.steady (popped.trans (received_steady (_, none, true) (.refl _))) full rearm
      | false => exact h.steady (popped.trans (readRound_steady _ env)) full rearm
  | eof =>
      have popped := Steady.popped hstack fun _ => Frame.noConfusion
      exact h.steady (popped.trans (eofReceived_steady _ _ env)) full rearm
  | lost k => exact h.steady (lost_steady last hstack r env) full rearm
  | resume =>
      have popped := Steady.popped hstack fun _ => Frame.noConfusion
      exact h.steady (popped.trans (afterWrite_steady _ env)) full rearm

theorem fire_flowing {n : Net σ} (h : Flowing n) (free : n.cfg.stack = []) {dir : Dir}
    (event : n.cfg.tables.event = some dir)
    {env : Env} {full rearm : Bool} (good : EdgeSafe R n (.code .fire env full rearm)) :
    Flowing (n.advance (fire R { n.cfg with tables := { n.cfg.tables with event := none } } dir env)
      full rearm) := by
  rw [fire.eq_def]
  split_ifs with bound
  · cases dir with
    | readable =>
        have taken : Steady n.cfg { n.cfg with tables := { n.cfg.tables with event := none } } :=
          { Steady.refl n.cfg with
            event := fun writable => by rw [event] at writable; cases writable
            watches := fun _ _ => .inl
            bound := id }
        exact h.steady (taken.trans (readRound_steady _ env)) full rearm
    | writable => exact writeHandleRun_flowing h full rearm (good event bound)
  · refine .wrote h.size h.chunks (fun there => ?_) fun there => absurd there bound
    rcases there with there | attach
    · exact absurd there bound
    · exact absurd (free ▸ attach) List.not_mem_nil

theorem code_flowing {n : Net σ} (h : Flowing n) (last : HandlesLast n.cfg) {act : Act} {env : Env}
    {full rearm : Bool} {d : Cfg σ} (other : act.isPoll = false)
    (good : EdgeSafe R n (.code act env full rearm)) (stepped : Stepped R n.cfg env act d) : Flowing
    (n.advance d full rearm) := by
  cases stepped with
  | call m exposed =>
      cases m with
      | write data => exact tryWrite_flowing h good full rearm
      | writelines data => exact tryWrite_flowing h good full rearm
      | close | abort | writeEof | pauseReading | resumeReading | setWriteBufferLimits | isTls
      | getWriteBufferSize |
        callConnectionLost =>
          exact h.steady (method_steady n.cfg env (fun _ => Method.noConfusion) fun _ =>
            Method.noConfusion) full rearm
  | server aborts bound listed =>
      refine h.steady (method_steady n.cfg env (fun _ => ?_) fun _ => ?_) full rearm
      · cases aborts <;> exact Method.noConfusion
      · cases aborts <;> exact Method.noConfusion
  | ret r frame stack hstack => exact after_flowing h last hstack good
  | poll dir => cases other
  | fire dir free event quiet => exact fire_flowing h free event good
  | made free pending =>
      exact h.steady (Steady.trans (c := { n.cfg with
        tables := { n.cfg.tables with pendingMade := false }
        exposed := true }) (.same rfl rfl rfl id rfl rfl fun _ _ => id)
            (.call _ _ Frame.noConfusion)) full rearm

theorem netStep_flowing (n : Net σ) (a : NetAct) (t : Net σ) (inv : Flowing n ∧ HandlesLast n.cfg)
    (good : EdgeSafe R n a)
    (h : netStep R n a = some t) : Flowing t ∧ HandlesLast t.cfg := by
  obtain ⟨flowing, last⟩ := inv
  cases a with
  | code act env full rearm =>
      obtain ⟨other, h⟩ := Option.ite_none_left_eq_some.mp h
      obtain ⟨d, hstep, rfl⟩ := Option.map_eq_some_iff.mp h
      exact ⟨code_flowing flowing last (Bool.eq_false_iff.mpr other) good (step_stepped hstep).2,
        step_handlesLast _ _ _ last hstep⟩
  | space =>
      obtain ⟨-, h⟩ := Option.ite_none_left_eq_some.mp h
      cases h
      refine ⟨⟨flowing.size, flowing.chunks, fun _ _ watched _ => .inl ?_, flowing.kept⟩, last⟩
      exact Bool.or_eq_true_iff.mpr (.inr watched)
  | report readable writable =>
      obtain ⟨dir, hdir, -, none, rfl⟩ := report_stepped h
      refine ⟨⟨flowing.size, flowing.chunks, fun there waiting watched room => ?_, flowing.kept⟩,
        last⟩
      cases writable with
      | true =>
          cases readable with
          | true => exact absurd ⟨rfl, rfl⟩ good
          | false =>
              cases hdir
              exact .inr (.inl rfl)
      | false =>
          rcases flowing.armed there waiting watched room with edge | handle | frame
          · exact .inl (Bool.and_eq_true_iff.mpr ⟨edge, rfl⟩)
          · rw [none] at handle
            cases handle
          · exact .inr (.inr frame)

theorem edgeSafe_served {n : Net σ} {a : NetAct} (good : EdgeSafe R n a) : EdgeServed R n a := by
  intro readable writable t same h
  subst same
  exact (edgeServed_iff h).mpr good readable writable t rfl h

theorem PlainStart.unwritten {c : Cfg σ} (h : PlainStart R c) :
    c.tr.state.writeBuf = [] ∧ c.tr.state.writeBufDsize = 0 := by
  cases h with
  | accepted => exact ⟨rfl, rfl⟩
  | connected => exact ⟨rfl, rfl⟩

theorem TlsStart.unwritten {c : Cfg σ} (h : TlsStart R c) :
    c.tr.state.writeBuf = [] ∧ c.tr.state.writeBufDsize = 0 := by
  cases h with
  | accepted => exact ⟨rfl, rfl⟩
  | connected =>
      simp only [Tcp.connected]
      split_ifs <;> exact ⟨rfl, rfl⟩

theorem Flowing.fresh {n : Net σ} (empty : n.cfg.tr.state.writeBuf = [])
    (size : n.cfg.tr.state.writeBufDsize = 0) : Flowing n where
  size := by
    rw [empty, size]
    rfl
  chunks := by
    rw [empty]
    exact List.forall_mem_nil _
  armed := fun _ waiting => absurd empty waiting
  kept := fun _ waiting => absurd empty waiting

/-- In a run whose steps are safe each edge has its handle, and the transport never stalls. -/
theorem edges_served (R : Rustls σ) (actions : List NetAct) (start : Net σ)
    (hstart : PlainStart R start.cfg ∨ TlsStart R start.cfg)
    (guarded : Guarded (netStep R) (EdgeSafe R) start actions) :
    Guarded (netStep R) (EdgeServed R) start actions ∧
    Always (netStep R) (fun n => ¬ n.Stalled) start actions := by
  obtain ⟨empty, size⟩ := hstart.elim PlainStart.unwritten TlsStart.unwritten
  have flowing : Flowing start := .fresh empty size
  have last : HandlesLast start.cfg := hstart.elim PlainStart.handlesLast TlsStart.handlesLast
  constructor
  · exact guarded.mono netStep_flowing (fun _ _ _ => edgeSafe_served) ⟨flowing, last⟩
  · exact (always_of_guarded netStep_flowing ⟨flowing, last⟩ guarded).mono fun _ inv =>
      inv.1.not_stalled

/-- A write of two bytes, of which the socket takes one. -/
def halfWritten : List NetAct :=
  [.code .made ⟨[], [], 0⟩ false false, .code (.ret .falsy) ⟨[], [], 0⟩ false false,
    .code (.call (.write [1, 2])) ⟨[], [.ok 1], 0⟩ false false, .space]

theorem edges_served_half :
    Guarded (netStep noTls) (EdgeServed noTls) ⟨accepted 3 none false 1000, true, false⟩
        (halfWritten ++ [.report false true, .code .fire ⟨[], [.ok 1], 0⟩ false false]) ∧
      Always (netStep noTls) (fun n => ¬ n.Stalled) ⟨accepted 3 none false 1000, true, false⟩
        (halfWritten ++ [.report false true, .code .fire ⟨[], [.ok 1], 0⟩ false false]) := by
  refine edges_served noTls _ _ (.inl (.accepted 3 false 1000)) ?_
  refine guarded_cons rfl trivial (guarded_cons rfl ?_
    (guarded_cons rfl ?_ (guarded_cons rfl trivial (guarded_cons rfl ?_
    (guarded_cons rfl ?_ trivial)))))
  · intro top
    cases top
  · intro _ _ _ _ only
    cases only
  · rintro ⟨readable, -⟩
    cases readable
  · intro _ _ conn tls
    cases tls

/-- The peer's data and the room for the second byte arrive in one event: the read handle
runs, and the byte waits though the socket would take it. -/
theorem joint_event_stalls :
    ¬ ∀ (actions : List NetAct) (start : Net Empty), PlainStart noTls start.cfg ∨
    TlsStart noTls start.cfg →
      Guarded (netStep noTls) (EdgeServed noTls) start actions ∧
        Always (netStep noTls) (fun n => ¬ n.Stalled) start actions := by
  intro claim
  have served := claim (halfWritten ++ [.report true true,
    .code .fire ⟨[.wouldBlock], [], 0⟩ false false]) ⟨accepted 3 none false 1000, true, false⟩
    (.inl (.accepted 3 false 1000))
  have alive := served.2.last rfl
  exact alive ⟨rfl, rfl, rfl, List.cons_ne_nil _ _, rfl, rfl, fun event => by cases event⟩

end TokioLoop.Tcp
