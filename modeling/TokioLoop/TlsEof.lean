import TokioLoop.TcpReceive
import TokioLoop.TlsInbound

/-!
The end of the stream on a TLS transport. `recv_direct` drops what its read said about it
and looks again with a read into an empty buffer, which returns 0 in any case; so besides
rustls only the sent close alert counts.
-/
namespace TokioLoop.Tcp

open Runs

variable {σ : Type} {R : Rustls σ}

/-- A call of `recv_direct` on a TLS transport: what it finds there, and the socket. -/
structure Receipt (σ : Type) where
  conn : Option σ
  closeSent : Bool
  reads : List ReadResult

/-- The socket returned 0 for a non-empty buffer. -/
def Receipt.zero (r : Receipt σ) : Prop := ∃ call ∈ (readCalls readBufSize r.reads).1, ends call

/-- rustls, given the bytes of the read, reported an error or the peer's close alert. -/
def Receipt.reported (R : Rustls σ) (r : Receipt σ) : Prop :=
  (readInto readBufSize r.reads).1 ≠ [] ∧
    ∃ conn, r.conn = some conn ∧ (fedResult R conn (readInto readBufSize r.reads).1).2 ≠ some false

/-- A transport and the receives so far. -/
structure Noted (σ : Type) where
  cfg : Cfg σ
  receipts : List (Receipt σ)

def Cfg.receipt (c : Cfg σ) (env : Env) : Receipt σ :=
  ⟨c.tr.state.tlsConn, c.tr.state.tlsCloseSent, env.reads⟩

def receiptsOf (c : Cfg σ) (a : Act × Env) : List (Receipt σ) :=
  if (roomOf c a.1).isSome then [c.receipt a.2] else []

/-- A step of the transport, with the receive it makes. -/
def note (R : Rustls σ) (w : Noted σ) (a : Act × Env) : Option (Noted σ) :=
  (step R w.cfg a).map fun cfg => ⟨cfg, w.receipts ++ receiptsOf w.cfg a⟩

/-- A read handle of a TLS transport from its start, over the calls into the protocol, to
its end. -/
structure TlsReadRun (R : Rustls σ) (s : Noted σ) (env : Env) (b : Noted σ)
    (more : List (Act × Env)) (t : Noted σ) : Prop where
  tls : s.cfg.tr.state.tlsConn.isSome = true
  direct : s.cfg.tr.protoBuffered = false
  readable : s.cfg.tables.event = some .readable
  bound : s.cfg.tables.bound = true
  fresh : s.receipts = []
  fired : note R s (.fire, env) = some b
  rest : run (note R) b more = some t
  busy : Guarded (note R) (fun w _ => w.cfg.stack ≠ []) b more
  ended : t.cfg.stack = []
  running : t.cfg.panicked = false

/-- The handle reports the end of the stream if the socket or rustls shows it. -/
def EofDetected (R : Rustls σ) (s t : Noted σ) : Prop :=
  .eofReceived ∈ heardSince s.cfg t.cfg ↔ ∃ r ∈ t.receipts, r.zero ∨ r.reported R

/-- rustls shows the end, or at the last receive the close alert was sent just if the
socket shows it. -/
def EndShown (R : Rustls σ) (t : Noted σ) : Prop :=
  (∃ r ∈ t.receipts, r.reported R) ∨
    ∀ last, t.receipts.getLast? = some last → (last.closeSent = true ↔ ∃ r ∈ t.receipts, r.zero)

/-- What a receive returns: data only where rustls is content, and the end of the stream
where it is not or the close alert was sent. -/
structure Received (R : Rustls σ) (c : Cfg σ) (r : Receipt σ) (got : Cfg σ × Option Bytes × Bool) :
    Prop where
  tls : got.1.tr.state.tlsConn.isSome = true
  buffered : got.1.tr.protoBuffered = c.tr.protoBuffered
  stack : got.1.stack = c.stack
  callbacks : got.1.callbacks = c.callbacks
  data : ∀ data, got.2.1 = some data → got.2.2 = false ∧ ¬ r.reported R
  nothing : got.2.1 = none → (got.2.2 = true ↔ r.reported R ∨ r.closeSent = true)

/-- A receive without data. -/
theorem Received.without {c d : Cfg σ} {r : Receipt σ} {eof : Bool}
    (tls : d.tr.state.tlsConn.isSome = true) (buffered : d.tr.protoBuffered = c.tr.protoBuffered)
    (stack : d.stack = c.stack) (callbacks : d.callbacks = c.callbacks)
    (shows : eof = true ↔ r.reported R ∨ r.closeSent = true) :
    Received R c r (d, none, eof) where
  tls := tls
  buffered := buffered
  stack := stack
  callbacks := callbacks
  data _ there := by cases there
  nothing _ := shows

theorem recvPlaintext_received {c : Cfg σ} {r : Receipt σ}
    (sent : c.tr.state.tlsCloseSent = r.closeSent) (content : ¬ r.reported R)
    (conn : σ) : Received R c r (recvPlaintext R c conn) := by
  obtain ⟨hconn, stack, callbacks, same, -, -⟩ := checkHandshake_spec (R := R) c conn
  have kind : (checkHandshake R (c.setConn conn) conn).tr.protoBuffered = c.tr.protoBuffered := by
    simp only [checkHandshake]
    split_ifs <;> rfl
  have alert : (checkHandshake R (c.setConn conn) conn).tr.state.tlsCloseSent = true ↔
      r.reported R ∨ r.closeSent = true := by
    rw [same, sent]
    exact (or_iff_right content).symm
  simp only [recvPlaintext]
  generalize hd : (if R.wantsWrite conn = true
    then (checkHandshake R (c.setConn conn) conn).streamAdd .writable
    else checkHandshake R (c.setConn conn) conn) = d
  obtain ⟨tr, stack', callbacks', -⟩ := streamAdd_if hd
  rw [stack] at stack'
  rw [callbacks] at callbacks'
  rw [← tr] at hconn kind alert
  split_ifs with done empty
  · refine .without ?_ kind stack' callbacks' alert
    rfl
  · refine ⟨rfl, kind, stack', callbacks', fun _ _ => ⟨rfl, content⟩, fun there => ?_⟩
    cases there
  · exact .without (by rw [hconn]; rfl) kind stack' callbacks' alert

theorem Received.ended {c d : Cfg σ} {r : Receipt σ} (shows : r.reported R)
    (tls : d.tr.state.tlsConn.isSome = true) (buffered : d.tr.protoBuffered = c.tr.protoBuffered)
    (stack : d.stack = c.stack) (callbacks : d.callbacks = c.callbacks) : Received R c r
    (d, none, true) :=
  .without tls buffered stack callbacks (iff_of_true rfl (.inl shows))

theorem Received.from {c d : Cfg σ} {r : Receipt σ} {got : Cfg σ × Option Bytes × Bool}
    (h : Received R d r got) (buffered : d.tr.protoBuffered = c.tr.protoBuffered)
    (stack : d.stack = c.stack) (callbacks : d.callbacks = c.callbacks) : Received R c r got :=
  ⟨h.tls, h.buffered.trans buffered, h.stack.trans stack, h.callbacks.trans callbacks, h.data,
    h.nothing⟩

theorem feedTls_received {c : Cfg σ} {conn : σ} {r : Receipt σ}
    (sent : c.tr.state.tlsCloseSent = r.closeSent) {bytes : Bytes}
    (shown : r.reported R ↔ (fedResult R conn bytes).2 ≠ some false) :
    Received R c r (feedTls R c conn bytes) := by
  have mute : ∀ (d : Cfg σ) {o : Obs}, o.asCallback = none → (d.emit o).callbacks = d.callbacks :=
    fun d o mute => callbacks_append rfl (List.forall_mem_singleton.mpr mute)
  simp only [feedTls, fedResult] at shown ⊢
  split
  next conn₁ hread =>
    rw [hread] at shown
    refine .ended (shown.mpr (by simp)) rfl rfl rfl ?_
    exact mute (c.setConn conn₁) rfl
  next conn₁ n hread =>
    rw [hread] at shown
    have calls : (c.emit (.fed bytes n)).callbacks = c.callbacks := mute c rfl
    simp only at shown
    split
    next conn₂ hprocess =>
      rw [hprocess] at shown
      refine .ended (shown.mpr (by simp)) rfl rfl rfl ?_
      exact (mute ((c.emit (.fed bytes n)).setConn conn₂) rfl).trans calls
    next conn₂ hprocess =>
      rw [hprocess] at shown
      refine .ended (shown.mpr (by simp)) rfl rfl rfl ?_
      exact (mute (Cfg.setState (c.emit (.fed bytes n)) _) rfl).trans calls
    next conn₂ hprocess =>
      rw [hprocess] at shown
      have content : ¬ r.reported R := fun shows => shown.mp shows rfl
      exact (recvPlaintext_received (c := c.emit (.fed bytes n)) sent content conn₂).from rfl
        rfl calls

theorem recvDirect_received {c : Cfg σ} (tls : c.tr.state.tlsConn.isSome = true) (env : Env) :
    Received R c (c.receipt env) (recvDirect R c env) := by
  obtain ⟨conn, hconn⟩ := Option.isSome_iff_exists.mp tls
  have heard : (c.emit (.recvTls (readInto readBufSize env.reads).1)).callbacks = c.callbacks :=
    callbacks_append rfl (List.forall_mem_singleton.mpr rfl)
  simp only [recvDirect, hconn]
  split_ifs with none
  · have content : ¬ (c.receipt env).reported R := fun shows => shows.1 none
    exact .without tls rfl rfl heard (or_iff_right content).symm
  · refine Received.from (feedTls_received rfl ?_) rfl rfl heard
    constructor
    · rintro ⟨-, conn', there, shows⟩
      cases hconn.symm.trans there
      exact shows
    · exact fun shows => ⟨none, conn, hconn, shows⟩

/-- How a run of the handle stands: it waits for `data_received`, or its last receive is
made and was reported if it had to be. -/
inductive Reported (R : Rustls σ) (stack : List Frame) (more : List Callback)
    (receipts : List (Receipt σ)) : Prop where
  | reading : stack.getLast? = some (.data false) → .eofReceived ∉ more →
      (∀ r ∈ receipts, ¬ r.reported R) → Reported R stack more receipts
  | settled (front : List (Receipt σ)) (last : Receipt σ) :
      (∀ frame ∈ stack, frame.inbound = true → frame = .eof) → receipts = front ++ [last] →
      (∀ r ∈ front, ¬ r.reported R) →
      (.eofReceived ∈ more ↔ last.reported R ∨ last.closeSent = true) →
      Reported R stack more receipts

/-- Code that does not read. -/
theorem Reported.quiet {stack stack' : List Frame} {more silent : List Callback}
    {receipts : List (Receipt σ)} (h : Reported R stack more receipts)
    (bottom : stack'.getLast? = stack.getLast?)
    (frames : ∀ frame ∈ stack', frame.inbound = true → frame ∈ stack)
    (quiet : ∀ e ∈ silent, e.inbound = false) : Reported R stack' (more ++ silent) receipts := by
  have still : .eofReceived ∈ more ++ silent ↔ .eofReceived ∈ more := by
    rw [List.mem_append]
    exact or_iff_left (not_eof_of_quiet quiet)
  cases h with
  | reading top none content => exact .reading (bottom.trans top) (mt still.mp none) content
  | settled front last apart parts content eof =>
      exact .settled front last (fun frame member inbound =>
        apart frame (frames frame member inbound) inbound) parts content (still.trans eof)

/-- One more receive. -/
theorem readRound_reported {c : Cfg σ} (tls : c.tr.state.tlsConn.isSome = true)
    (direct : c.tr.protoBuffered = false) (free : c.stack = []) (env : Env) {more : List Callback}
    {receipts : List (Receipt σ)} (noEof : .eofReceived ∉ more)
    (content : ∀ r ∈ receipts, ¬ r.reported R) :
    (readRound R c env).tr.state.tlsConn.isSome = true ∧
    (readRound R c env).tr.protoBuffered = false ∧
      ∃ new, (readRound R c env).callbacks = c.callbacks ++ new ∧
        Reported R (readRound R c env).stack (more ++ new) (receipts ++ [c.receipt env]) := by
  have got := recvDirect_received (R := R) tls env
  have round : readRound R c env = received (recvDirect R c env) := by
    simp only [readRound, direct, Bool.false_eq_true, if_false]
  rw [round, received_tr]
  refine ⟨got.tls, got.buffered.trans direct, ?_⟩
  revert got
  generalize recvDirect R c env = r
  obtain ⟨d, data, eof⟩ := r
  intro got
  have free' : d.stack = [] := got.stack.trans free
  have called : ∀ e frame, (d.call e frame).callbacks = c.callbacks ++ [e] := fun e frame =>
    got.callbacks ▸ callbacks_call d e frame
  cases data with
  | some data =>
      obtain ⟨rfl, silent⟩ := got.data data rfl
      refine ⟨[.dataReceived data], called _ _, .reading ?_ ?_ ?_⟩
      · rw [received, Cfg.call, free']
        rfl
      · simp [noEof]
      · exact List.forall_mem_append.mpr ⟨content, List.forall_mem_singleton.mpr silent⟩
  | none =>
      have shows := got.nothing rfl
      cases eof with
      | true =>
          refine ⟨[.eofReceived], called .eofReceived .eof, .settled receipts _ ?_ rfl content ?_⟩
          · intro frame member inbound
            change frame ∈ .eof :: d.stack at member
            rw [free'] at member
            exact List.mem_singleton.mp member
          · exact iff_of_true (List.mem_append_right _ List.mem_cons_self) (shows.mp rfl)
      | false =>
          refine ⟨[], (got.callbacks.trans (List.append_nil _).symm),
            .settled receipts _ ?_ rfl content ?_⟩
          · intro frame member inbound
            change frame ∈ d.stack at member
            rw [free'] at member
            cases member
          · rw [List.append_nil]
            exact iff_of_false noEof fun closed => Bool.false_ne_true (shows.mpr closed)

/-- What stays true of a run of the read handle. -/
structure Noting (R : Rustls σ) (s w : Noted σ) : Prop where
  tls : w.cfg.tr.state.tlsConn.isSome = true
  direct : w.cfg.tr.protoBuffered = false
  last : HandlesLast w.cfg
  standing : ∃ more, w.cfg.callbacks = s.cfg.callbacks ++ more ∧
      Reported R w.cfg.stack more w.receipts

theorem note_step {w t : Noted σ} {a : Act × Env} (h : note R w a = some t) :
    step R w.cfg a = some t.cfg ∧ t.receipts = w.receipts ++ receiptsOf w.cfg a := by
  obtain ⟨cfg, one, rfl⟩ := Option.map_eq_some_iff.mp h
  exact ⟨one, rfl⟩

theorem receiptsOf_none {c : Cfg σ} {a : Act × Env} (h : roomOf c a.1 = none) :
    receiptsOf c a = [] := by
  rw [receiptsOf, h]
  rfl

theorem receiptsOf_some {c : Cfg σ} {act : Act} {env : Env} {room : Nat}
    (h : roomOf c act = some room) : receiptsOf c (act, env) = [c.receipt env] := by
  rw [receiptsOf, h]
  rfl

/-- The handle's own call returns. -/
theorem bottom_noting {s w : Noted σ} {d : Cfg σ} {frame : Frame} {r : Ret} {env : Env}
    (inv : Noting R s w) (top : w.cfg.stack = [frame])
    (one : d = frame.after R { w.cfg with stack := [] } r env)
    (last : HandlesLast d) : Noting R s ⟨d, w.receipts ++ receiptsOf w.cfg (.ret r, env)⟩ := by
  obtain ⟨tls, direct, -, more, heard, standing⟩ := inv
  rw [top] at standing
  -- the frames at which nothing is read
  have idle : frame ≠ .data false → roomOf w.cfg (.ret r) = none →
      Mute (Conserving.any R) { w.cfg with stack := [] } d →
      Noting R s ⟨d, w.receipts ++ receiptsOf w.cfg (.ret r, env)⟩ := by
    intro other room quiet
    obtain ⟨silent, calls, silence⟩ := quiet.calls
    refine ⟨quiet.tls.trans tls, quiet.buffered.trans direct, last, more ++ silent, ?_, ?_⟩
    · rw [← List.append_assoc, ← heard]
      exact calls
    · rw [receiptsOf_none room, List.append_nil]
      cases standing with
      | reading waits => exact absurd (Option.some.inj waits) other
      | settled front final apart parts content eof =>
          have frames : ∀ other ∈ d.stack, other.inbound = true → other = .eof :=
            fun other member inbound => absurd (quiet.frames other member inbound) List.not_mem_nil
          refine .settled front final frames parts content ?_
          rw [List.mem_append]
          exact (or_iff_left (not_eof_of_quiet fun e he => (silence e he).1)).trans eof
  cases frame with
  | getBuffer =>
      cases standing with
      | reading waits => cases Option.some.inj waits
      | settled front final apart => cases apart _ List.mem_cons_self rfl
  | data ended =>
      cases standing with
      | reading waits noEof content =>
          cases Option.some.inj waits
          obtain ⟨tls', direct', new, calls, standing⟩ := readRound_reported (R := R)
            (c := { w.cfg with stack := [] }) tls direct rfl env noEof content
          have room : roomOf w.cfg (.ret r) = some readBufSize := by simp [roomOf, top, direct]
          refine ⟨one ▸ tls', one ▸ direct', last, more ++ new, ?_, ?_⟩
          · rw [← List.append_assoc, ← heard, one]
            exact calls
          · rw [receiptsOf_some room, one]
            exact standing
      | settled front final apart => cases apart _ List.mem_cons_self rfl
  | eof =>
      refine idle Frame.noConfusion (by simp [roomOf, top]) ?_
      rw [one]
      exact eofReceived_mute _ _ _ env
  | attach | connectionMade | pause | lost | resume =>
      refine idle Frame.noConfusion (by simp only [roomOf, top, List.head?_cons]) ?_
      rw [one]
      exact after_mute _ _ rfl r env

theorem step_noting {s w t : Noted σ} {a : Act × Env} (inv : Noting R s w) (busy : w.cfg.stack ≠ [])
    (h : note R w a = some t) : Noting R s t := by
  obtain ⟨act, env⟩ := a
  obtain ⟨one, made⟩ := note_step h
  have last := step_handlesLast _ _ _ inv.last one
  cases step_inside (Conserving.any R) inv.last busy one with
  | quiet quiet bottom room =>
      obtain ⟨tls, direct, -, more, heard, standing⟩ := inv
      obtain ⟨silent, calls, silence⟩ := quiet.calls
      refine ⟨quiet.tls.trans tls, quiet.buffered.trans direct, last, more ++ silent, ?_, ?_⟩
      · rw [calls, heard, List.append_assoc]
      · rw [made, receiptsOf_none room, List.append_nil]
        exact standing.quiet bottom quiet.frames fun e he => (silence e he).1
  | bottom r frame act top eq =>
      subst act
      have noting := bottom_noting inv top eq last
      rw [← made] at noting
      exact noting

/-- The first step of the run. -/
theorem TlsReadRun.starts {s b t : Noted σ} {env : Env} {more : List (Act × Env)}
    (handle : TlsReadRun R s env b more t) : Noting R s b := by
  obtain ⟨one, made⟩ := note_step handle.fired
  obtain ⟨dir, free, there, fired⟩ := fire_stepped one
  cases handle.readable.symm.trans there
  have last : HandlesLast s.cfg := fun frame member => by
    rw [free] at member
    cases member
  have round : b.cfg = readRound R { s.cfg with tables := { s.cfg.tables with event := none } }
      env :=
    fired.trans (if_pos handle.bound)
  have room : roomOf s.cfg .fire = some readBufSize := by
    simp [roomOf, handle.readable, handle.bound, handle.direct]
  have noEof : Callback.eofReceived ∉ ([] : List Callback) := List.not_mem_nil
  have content : ∀ r ∈ ([] : List (Receipt σ)), ¬ r.reported R := List.forall_mem_nil _
  obtain ⟨tls, direct, new, calls, standing⟩ := readRound_reported (R := R)
    (c := { s.cfg with tables := { s.cfg.tables with event := none } }) handle.tls handle.direct
    free env noEof content
  rw [← round] at tls direct calls standing
  refine ⟨tls, direct, step_handlesLast _ _ _ last one, new, calls, ?_⟩
  rw [made, handle.fresh, receiptsOf_some room]
  exact standing

theorem TlsReadRun.ends {s b t : Noted σ} {env : Env} {more : List (Act × Env)}
    (handle : TlsReadRun R s env b more t) : Noting R s t :=
  run_preserves (G := fun w _ => w.cfg.stack ≠ []) (I := Noting R s)
    (fun _ _ _ inv busy one => step_noting inv busy one) handle.rest handle.starts handle.busy

/-- Once it returns, the handle has reported the end of the stream if rustls showed it or
the close alert was sent at the last receive. -/
theorem TlsReadRun.reports {s b t : Noted σ} {env : Env} {more : List (Act × Env)}
    (handle : TlsReadRun R s env b more t) : ∃ front last, t.receipts = front ++ [last] ∧
      (∀ r ∈ front, ¬ r.reported R) ∧
      (.eofReceived ∈ heardSince s.cfg t.cfg ↔ last.reported R ∨ last.closeSent = true) := by
  obtain ⟨more', heard, standing⟩ := handle.ends.standing
  rw [handle.ended] at standing
  cases standing with
  | reading waits => cases waits
  | settled front last _ parts content eof =>
      exact ⟨front, last, parts, content, heardSince_of heard ▸ eof⟩

/-- The end of the stream is detected just in the runs of the read handle in which rustls
shows it, or in which the close alert was sent before the last receive if and only if the
socket shows it. -/
theorem tls_eof (R : Rustls σ) {s b t : Noted σ} {env : Env} {more : List (Act × Env)}
    (handle : TlsReadRun R s env b more t) : EofDetected R s t ↔ EndShown R t := by
  obtain ⟨front, last, parts, content, eof⟩ := handle.reports
  have shows : (∃ r ∈ t.receipts, r.reported R) ↔ last.reported R := by
    rw [parts]
    constructor
    · rintro ⟨r, member, shows⟩
      rcases List.mem_append.mp member with old | new
      · exact absurd shows (content r old)
      · rwa [← List.mem_singleton.mp new]
    · exact fun shows => ⟨last, List.mem_append_right _ List.mem_cons_self, shows⟩
  have final : t.receipts.getLast? = some last := by rw [parts, List.getLast?_concat]
  have either : (∃ r ∈ t.receipts, r.zero ∨ r.reported R) ↔ (∃ r ∈ t.receipts, r.zero) ∨
      last.reported R := by
    rw [← shows]
    simp only [and_or_left, exists_or]
  rw [EofDetected, EndShown, eof, either, shows]
  by_cases reported : last.reported R
  · exact iff_of_true (iff_of_true (.inl reported) (.inr reported)) (.inl reported)
  · simp only [reported, false_or, or_false, final, Option.some.injEq, forall_eq']

/-- A readable event of an accepted TLS connection, with the close alert sent or not. -/
def reached (closeSent : Bool) : Noted NullTls :=
  let c := accepted 3 (some ⟨false, [], [], []⟩) false 1000
  ⟨{ c with
    tr := { c.tr with
      state := { c.tr.state with tlsCloseSent := closeSent }
      closing := closeSent }
    tables := ⟨some (.only .readable), true, true, false, some .readable⟩ }, []⟩

/-- The protocol's method returned `None`. -/
def returnedNone : Act × Env := (.ret .falsy, ⟨[], [], 0⟩)

/-- A FIN during the handshake reports nothing, and after the sent close alert an event
without data is taken for the end. -/
theorem tls_eof_missed :
    (∃ t, TlsReadRun nullTls (reached false) ⟨[.eof], [], 0⟩ t [] t ∧ ¬ EofDetected nullTls
      (reached false) t) ∧ ∃ b t, TlsReadRun nullTls (reached true) ⟨[.wouldBlock], [], 0⟩ b
      [returnedNone, returnedNone] t ∧
        ¬ EofDetected nullTls (reached true) t := by
  constructor
  · have fin : ∃ t, TlsReadRun nullTls (reached false) ⟨[.eof], [], 0⟩ t [] t ∧
        t.receipts = [(reached false).cfg.receipt ⟨[.eof], [], 0⟩] ∧
        heardSince (reached false).cfg t.cfg = [] :=
      ⟨_, ⟨rfl, rfl, rfl, rfl, rfl, rfl, rfl, trivial, rfl, rfl⟩, rfl, rfl⟩
    obtain ⟨t, handle, receipts, heard⟩ := fin
    refine ⟨t, handle, fun detected => ?_⟩
    have shown : .eofReceived ∈ heardSince (reached false).cfg t.cfg := by
      refine detected.mpr ⟨_, receipts ▸ List.mem_singleton_self _,
        .inl ⟨(readBufSize, .eof), ?_, ?_⟩⟩
      · exact List.mem_singleton_self _
      · exact ⟨by decide, .inl rfl⟩
    rw [heard] at shown
    cases shown
  · have spurious : ∃ b t, TlsReadRun nullTls (reached true) ⟨[.wouldBlock], [], 0⟩ b
      [returnedNone, returnedNone] t ∧
        t.receipts = [(reached true).cfg.receipt ⟨[.wouldBlock], [], 0⟩] ∧
        heardSince (reached true).cfg t.cfg = [.eofReceived, .connectionLost none] :=
      ⟨_, _, ⟨rfl, rfl, rfl, rfl, rfl, rfl, rfl, by decide, rfl, rfl⟩, rfl, rfl⟩
    obtain ⟨b, t, handle, receipts, heard⟩ := spurious
    refine ⟨b, t, handle, fun detected => ?_⟩
    have shown : .eofReceived ∈ heardSince (reached true).cfg t.cfg := heard ▸ List.mem_cons_self
    obtain ⟨r, member, zero | reported⟩ := detected.mp shown
    · rw [receipts] at member
      rw [List.mem_singleton.mp member] at zero
      obtain ⟨call, made, zero⟩ := zero
      rw [List.mem_singleton.mp made] at zero
      exact not_ends_of_refused (.inl rfl) zero
    · rw [receipts] at member
      rw [List.mem_singleton.mp member] at reported
      exact reported.1 rfl

/-- The peer's close alert is reported. -/
theorem tls_eof_alert : ∃ b t, TlsReadRun nullTls (reached false) ⟨[.data [9, 0], .eof], [], 0⟩ b
    [returnedNone] t ∧ EofDetected nullTls (reached false) t := by
  have alert : ∃ b t, TlsReadRun nullTls (reached false) ⟨[.data [9, 0], .eof], [], 0⟩ b
    [returnedNone] t ∧
      t.receipts = [(reached false).cfg.receipt ⟨[.data [9, 0], .eof], [], 0⟩] :=
    ⟨_, _, ⟨rfl, rfl, rfl, rfl, rfl, rfl, rfl, by decide, rfl, rfl⟩, rfl⟩
  obtain ⟨b, t, handle, receipts⟩ := alert
  refine ⟨b, t, handle, (tls_eof nullTls handle).mpr
    (.inl ⟨_, receipts ▸ List.mem_singleton_self _, ?_, ?_⟩)⟩
  · exact List.cons_ne_nil 9 [0]
  · exact ⟨⟨false, [], [], []⟩, rfl, by decide⟩

end TokioLoop.Tcp
