import TokioLoop.TcpFrames
import TokioLoop.TlsStreams

/-!
The end of a TLS transport. `tcp_stream_close` takes it out of `tcp_transports`; by then
`connection_lost` should have been called once and nothing of the transport should be
registered. Each way to end does a part of that only: the falsy `eof_received` and the
deferred close never call `connection_lost`, and `close` leaves `READABLE` registered
for the peer's alert.
-/
namespace TokioLoop.Tcp

open Runs

variable {σ : Type} {R : Rustls σ}

structure TornDown (c : Cfg σ) : Prop where
  once : c.losses = 1
  unregistered : c.tables.interest = none
  unlisted : c.tables.listed = false

/-- A step that takes the transport out of `tcp_transports` leaves it torn down. -/
def RemovalComplete (R : Rustls σ) (c : Cfg σ) (a : Act × Env) : Prop :=
  ∀ d, step R c a = some d → c.tables.bound = true → d.tables.bound = false → d.panicked = false →
    TornDown d

/-- A write that does not register `WRITABLE` again once `connection_lost` was called. -/
def LateWrite (c : Cfg σ) (data : Bytes) : Prop :=
  c.lost → c.tr.weof = true ∨ data = [] ∨ c.tr.state.writeBufDsize ≠ 0 ∧ c.tr.state.writeBuf ≠ []

/-- A first end of the connection that leaves nothing registered: `abort` takes
`READABLE` off only where `close` was not called and `WRITABLE` only with bytes in the
buffer. -/
def CleanAbort (c : Cfg σ) : Prop :=
  ¬ c.lost ∧ (c.tr.closing = true → c.watches .readable = false) ∧
    (c.watches .writable = true → 0 < c.tr.state.writeBufDsize)

/-- The condition on a step of a transport that is in `tcp_transports`. -/
def EndsCleanly (c : Cfg σ) (a : Act × Env) : Prop :=
  c.tables.bound = true →
    match a with
    | (.call (.write data), _) => LateWrite c data
    | (.call (.writelines data), _) => LateWrite c data.flatten
    | (.call .close, _) | (.server false, _) => c.tr.closing = false → c.tr.state.writeBuf = []
    | (.call .abort, _) | (.server true, _) => CleanAbort c
    | (.call .callConnectionLost, _) => False
    | (.ret r, _) =>
        match c.stack with
        | .eof :: _ => r ≠ .truthy →
            if c.tr.state.tlsCloseSent = true then c.tables.interest = none else c.tr.closing = true
        | .resume :: _ =>
            c.tr.closing = true → c.tr.state.writeBuf ≠ [] ∨ c.watches .readable = false
        | _ => True
    | (.fire, env) => c.tables.event = some .writable → c.tr.closing = true →
        closeTimedOut c.tr.state env.now = true ∨ c.watches .readable = false ∧
        c.tr.state.writeBuf = []
    | _ => True

/-- What holds of a transport in `tcp_transports`: `connection_lost` has not been called,
or it is being called now, with nothing left registered that the code after it does not
take off. -/
structure Live (c : Cfg σ) : Prop where
  tls : c.tr.state.tlsConn.isSome = true
  lfd : c.tables.listed = true → c.tr.lfd.isSome = true
  noPending : c.tr.state.tlsPendingClose = false
  sent : c.tr.state.tlsCloseSent = true → c.tr.closing = true
  frames : ∀ k, Frame.lost k ∈ c.stack → c.losses = 1 ∧ c.tr.closing = true ∧
      c.watches .readable = false ∧
    (c.watches .writable = true → k = .writeHandle ∧ c.tr.state.writeBuf = [])
  quiet : (∀ k, Frame.lost k ∉ c.stack) → c.losses = 0

/-- A change without a call of `connection_lost`; while one is in progress the
registration stays as it is. -/
structure Kept (c d : Cfg σ) : Prop where
  tls : c.tr.state.tlsConn.isSome = true → d.tr.state.tlsConn.isSome = true
  listed : d.tables.listed = true → c.tables.listed = true
  lfd : d.tr.lfd = c.tr.lfd
  pending : c.tr.state.tlsPendingClose = false → d.tr.state.tlsPendingClose = false
  sent : (c.tr.state.tlsCloseSent = true → c.tr.closing = true) → d.tr.state.tlsCloseSent = true →
      d.tr.closing = true
  losses : d.losses = c.losses
  lost : ∀ k, Frame.lost k ∈ d.stack ↔ Frame.lost k ∈ c.stack
  ending : ∀ k, Frame.lost k ∈ c.stack → c.tr.closing = true → d.tr.closing = true ∧
    d.tables.interest = c.tables.interest ∧ (c.tr.state.writeBuf = [] → d.tr.state.writeBuf = [])

theorem Kept.trans {b c d : Cfg σ} (first : Kept b c) (second : Kept c d) : Kept b d where
  tls h := second.tls (first.tls h)
  listed h := first.listed (second.listed h)
  lfd := second.lfd.trans first.lfd
  pending h := second.pending (first.pending h)
  sent h := second.sent (first.sent h)
  losses := second.losses.trans first.losses
  lost k := (second.lost k).trans (first.lost k)
  ending k hk closing := by
    obtain ⟨closing', interest, empty⟩ := first.ending k hk closing
    obtain ⟨closing'', interest', empty'⟩ := second.ending k ((first.lost k).mpr hk) closing'
    exact ⟨closing'', interest'.trans interest, fun h => empty' (empty h)⟩

theorem Live.kept {c d : Cfg σ} (live : Live c) (kept : Kept c d) : Live d where
  tls := kept.tls live.tls
  lfd h := by rw [kept.lfd]; exact live.lfd (kept.listed h)
  noPending := kept.pending live.noPending
  sent := kept.sent live.sent
  frames k hk := by
    have before := (kept.lost k).mp hk
    obtain ⟨once, closing, readable, writable⟩ := live.frames k before
    obtain ⟨closing', interest, empty⟩ := kept.ending k before closing
    simp only [Cfg.watches, kept.losses, interest] at *
    exact ⟨once, closing', readable, fun h => ⟨(writable h).1, empty (writable h).2⟩⟩
  quiet h := by
    rw [kept.losses]
    exact live.quiet fun k hk => h k ((kept.lost k).mpr hk)

/-- A change of the fields the invariant does not read, with silent observations. -/
theorem Kept.same {c d : Cfg σ} (obs : List Obs) (state : d.tr.state = c.tr.state)
    (tables : d.tables = c.tables) (lfd : d.tr.lfd = c.tr.lfd)
    (closing : d.tr.closing = c.tr.closing) (stack : d.stack = c.stack)
    (log : d.log = c.log ++ obs) (silent : ∀ o ∈ obs, o.isLost = false) : Kept c d where
  tls h := by rw [state]; exact h
  listed h := by rw [← tables]; exact h
  lfd := lfd
  pending h := by rw [state]; exact h
  sent h := by rw [state, closing]; exact h
  losses := losses_append log silent
  lost k := by rw [stack]
  ending _ _ h := ⟨closing.trans h, by rw [tables], fun empty => by rw [state]; exact empty⟩

theorem Kept.unlogged {c d : Cfg σ} (state : d.tr.state = c.tr.state) (tables : d.tables = c.tables)
    (lfd : d.tr.lfd = c.tr.lfd) (closing : d.tr.closing = c.tr.closing) (stack : d.stack = c.stack)
    (log : d.log = c.log) : Kept c d :=
  .same [] state tables lfd closing stack (log.trans (List.append_nil _).symm)
    (List.forall_mem_nil _)

/-- A call into the protocol other than `connection_lost`. -/
theorem Kept.call (c : Cfg σ) {e : Callback} {frame : Frame}
    (alive : ∀ err, e ≠ .connectionLost err) (notLost : ∀ k, frame ≠ .lost k) : Kept c
    (c.call e frame) where
  tls := id
  listed := id
  lfd := rfl
  pending := id
  sent := id
  losses := by
    refine losses_emit (o := .callback e c.tr.state.writeBuf) rfl ?_
    cases e with
    | connectionLost err => exact absurd rfl (alive err)
    | _ => rfl
  lost k := by
    rw [Cfg.call, List.mem_cons]
    exact or_iff_right fun same => notLost k same.symm
  ending _ _ h := ⟨h, rfl, id⟩

/-- Outside of `connection_lost` the registration is free. -/
theorem Kept.registers {c d : Cfg σ} (none : ∀ k, Frame.lost k ∉ c.stack)
    (tls : d.tr.state.tlsConn.isSome = true)
    (pending : d.tr.state.tlsPendingClose = c.tr.state.tlsPendingClose)
    (sent : d.tr.state.tlsCloseSent = true → c.tr.state.tlsCloseSent = true ∨ d.tr.closing = true)
    (closing : c.tr.closing = true → d.tr.closing = true)
    (listed : d.tables.listed = c.tables.listed) (lfd : d.tr.lfd = c.tr.lfd)
    (stack : d.stack = c.stack) (losses : d.losses = c.losses) : Kept c d where
  tls _ := tls
  listed h := listed ▸ h
  lfd := lfd
  pending h := pending.trans h
  sent h hd := (sent hd).elim (fun hc => closing (h hc)) id
  losses := losses
  lost k := by rw [stack]
  ending k hk := absurd hk (none k)

/-- `connection_lost` is called with nothing registered but what the write handle takes
off afterwards. -/
theorem Live.lostCall {c d : Cfg σ} (live : Live c) (kept : Kept c d)
    (none : ∀ k, Frame.lost k ∉ c.stack) (err : Option String) (k : AfterLost)
    (closing : d.tr.closing = true) (readable : d.watches .readable = false)
    (writable : d.watches .writable = true → k = .writeHandle ∧ d.tr.state.writeBuf = []) :
    Live (d.call (.connectionLost err) (.lost k)) := by
  have live' := live.kept kept
  have none' : ∀ k, Frame.lost k ∉ d.stack := fun k hk => none k ((kept.lost k).mp hk)
  refine ⟨live'.tls, live'.lfd, live'.noPending, fun _ => closing, ?_, fun h =>
    absurd List.mem_cons_self (h k)⟩
  intro j hj
  have same : j = k := by
    rcases List.mem_cons.mp hj with same | below
    · exact Frame.lost.inj same
    · exact absurd below (none' j)
  refine ⟨?_, closing, readable, fun h => same ▸ writable h⟩
  rw [Cfg.losses, Cfg.call, Cfg.emit, List.countP_append]
  have zero : List.countP Obs.isLost d.log = 0 := live'.quiet none'
  rw [zero]
  rfl

theorem bufAdded_kept {c : Cfg σ} (n : Nat)
    (late : ∀ k, Frame.lost k ∈ c.stack → c.tr.state.writeBufDsize ≠ 0) : Kept c
    (bufAdded c n) := by
  have grown : Kept c (grow c n) := by
    refine ⟨?_, ?_, ?_, ?_, ?_, ?_, ?_, ?_⟩
    all_goals simp only [grow]
    all_goals split_ifs with zero
    all_goals first | exact id | rfl | exact fun k => Iff.rfl | skip
    · exact fun k hk => absurd zero (late k hk)
    · exact fun _ _ h => ⟨h, rfl, id⟩
  simp only [bufAdded]
  split_ifs
  · refine grown.trans (Kept.trans (c :=
      { grow c n with tr := { (grow c n).tr with protoPaused := true } }) ?_ ?_)
    · exact .unlogged rfl rfl rfl rfl rfl rfl
    · exact .call _ (fun err h => by cases h) fun k h => by cases h
  · exact grown

theorem Live.lost {c : Cfg σ} (live : Live c) {k : AfterLost} (hk : Frame.lost k ∈ c.stack) :
    c.lost := by
  rw [lost_iff_losses, (live.frames k hk).1]
  exact Nat.one_pos

theorem Live.noFrames {c : Cfg σ} (live : Live c) (notLost : ¬ c.lost) (k : AfterLost) :
    Frame.lost k ∉ c.stack :=
  fun hk => notLost (live.lost hk)

theorem Live.open {c : Cfg σ} (live : Live c) (closing : c.tr.closing = false) (k : AfterLost) :
    Frame.lost k ∉ c.stack := by
  intro hk
  rw [(live.frames k hk).2.1] at closing
  cases closing

theorem tryWrite_live {c : Cfg σ} (live : Live c) {data : Bytes} (late : LateWrite c data)
    (env : Env) : Live (tryWrite c data env) := by
  have tls : (c.emit (.accepted data)).tr.state.tlsConn.isSome = true := live.tls
  simp only [tryWrite, tls, if_true]
  split_ifs with weof empty borrowed
  · exact live.kept (.same [.raised _] rfl rfl rfl rfl rfl rfl (by simp [Obs.isLost]))
  · exact live
  · exact live.kept (.unlogged rfl rfl rfl rfl rfl rfl)
  · have full : ∀ k, Frame.lost k ∈ c.stack → c.tr.state.writeBufDsize ≠ 0 ∧
        c.tr.state.writeBuf ≠ [] := by
      intro k hk
      rcases late (live.lost hk) with h | h | h
      · exact absurd h weof
      · exact absurd h empty
      · exact h
    have accepted : Kept c (c.emit (.accepted data)) :=
      .same [.accepted data] rfl rfl rfl rfl rfl rfl (by simp [Obs.isLost])
    have queued : Kept (c.emit (.accepted data)) ((c.emit (.accepted data)).setState
        { c.tr.state with writeBuf := c.tr.state.writeBuf ++ [data] }) := by
      refine ⟨id, id, rfl, id, id, rfl, fun k => Iff.rfl, fun k hk h => ⟨h, rfl, fun none => ?_⟩⟩
      exact absurd none (full k hk).2
    exact live.kept ((accepted.trans queued).trans (bufAdded_kept data.length fun k hk =>
      (full k hk).1))

theorem close_live {c : Cfg σ} (live : Live c) (bound : c.tables.bound = true)
    (clean : c.tr.closing = false → c.tr.state.writeBuf = []) (env : Env) : Live
    (close R c env) := by
  simp only [close]
  split_ifs with closing borrowed
  · exact live
  · have none := live.open (Bool.eq_false_iff.mpr closing)
    exact live.kept (.registers none live.tls rfl (fun _ => .inr rfl)
      (fun _ => rfl) rfl rfl rfl rfl)
  · have none := live.open (Bool.eq_false_iff.mpr closing)
    obtain ⟨conn, hconn⟩ := Option.isSome_iff_exists.mp live.tls
    have hconn' : c.setClosing.tr.state.tlsConn = some conn := hconn
    have empty : c.setClosing.tr.state.writeBuf = [] := clean (Bool.eq_false_iff.mpr closing)
    have bound' : ((closeAlert R c.setClosing conn env).streamRem .writable).tables.bound = true :=
      bound
    simp only [hconn', closeTls, empty, ne_eq, not_true_eq_false, if_false, bound', if_true]
    refine live.kept (.registers none rfl rfl (fun _ => .inr rfl) (fun _ => rfl) rfl rfl rfl ?_)
    exact losses_emit rfl rfl

theorem abort_live {c : Cfg σ} (live : Live c) (clean : CleanAbort c) : Live (abort c) := by
  obtain ⟨notLost, readable, writable⟩ := clean
  have none := live.noFrames notLost
  simp only [abort]
  split_ifs with borrowed size closing closing
  · exact live.kept (.unlogged rfl rfl rfl rfl rfl rfl)
  · refine live.lostCall (d := c.streamRem .writable)
      (.registers none live.tls rfl .inl id rfl rfl rfl rfl) none
      _ _ closing ?_ ?_
    · rw [watches_streamRem_other Dir.noConfusion]
      exact readable closing
    · intro h
      rw [watches_streamRem_same] at h
      cases h
  · refine live.lostCall (d := (c.streamRem .writable).setClosing.streamRem .readable)
      (.registers none live.tls rfl (fun _ => .inr rfl) (fun _ => rfl) rfl rfl rfl rfl) none _ _ rfl
      (watches_streamRem_same _ _) ?_
    intro h
    have before : (c.streamRem .writable).watches .writable = true := watches_streamRem h
    rw [watches_streamRem_same] at before
    cases before
  · exact live.lostCall (d := c) (.registers none live.tls rfl .inl id rfl rfl rfl rfl) none _ _
      closing (readable closing) fun h => absurd (writable h) size
  · refine live.lostCall (d := c.setClosing.streamRem .readable)
      (.registers none live.tls rfl (fun _ => .inr rfl) (fun _ => rfl) rfl rfl rfl rfl) none _ _ rfl
      (watches_streamRem_same _ _) ?_
    intro h
    exact absurd (writable (watches_streamRem h)) size

theorem Tuned.live {c d : Cfg σ} (h : Tuned c d) (live : Live c) : Live d := by
  cases h with
  | unchanged => exact live
  | set | borrowed => exact live.kept (.unlogged rfl rfl rfl rfl rfl rfl)
  | raised => exact live.kept (.same [.raised _] rfl rfl rfl rfl rfl rfl (by simp [Obs.isLost]))
  | shutdown => exact live.kept (.same [.shutdown _] rfl rfl rfl rfl rfl rfl (by simp [Obs.isLost]))
  | pauseReading opened | resumeReading opened =>
      exact live.kept (.registers (live.open opened) live.tls rfl .inl id rfl rfl rfl rfl)
  | pauseWriting waterHi waterLo =>
      have limited : Live { c with tr := { c.tr with
          waterHi := waterHi
          waterLo := waterLo
          protoPaused := true } } := live.kept (.unlogged rfl rfl rfl rfl rfl rfl)
      exact limited.kept (.call _ (fun err h => by cases h) fun k h => by cases h)

theorem method_live {c : Cfg σ} (live : Live c) (bound : c.tables.bound = true) {m : Method}
    {env : Env} (good : EndsCleanly c (.call m, env)) : Live (m.run R c env) := by
  have good := good bound
  cases m with
  | write data => exact tryWrite_live live good env
  | writelines data => exact tryWrite_live live good env
  | close => exact close_live live bound good env
  | abort => exact abort_live live good
  | callConnectionLost => exact good.elim
  | writeEof | pauseReading | resumeReading | setWriteBufferLimits | isTls | getWriteBufferSize =>
      exact (Method.tuned rfl c env).live live

/-- Still in the table, and as it should be there. -/
def Stays (c : Cfg σ) : Prop := Live c ∧ c.tables.bound = true

theorem Live.idle {c : Cfg σ} (free : c.stack = []) (k : AfterLost) : Frame.lost k ∉ c.stack := by
  rw [free]
  exact List.not_mem_nil

theorem recvPlaintext_kept {c : Cfg σ} (free : c.stack = []) (conn : σ) :
    Kept c (recvPlaintext R c conn).1 ∧
    (recvPlaintext R c conn).1.tables.bound = c.tables.bound := by
  have shaken : ∀ {d : Cfg σ}, d.tr.state.tlsConn.isSome = true →
      d.tr.state.tlsPendingClose = c.tr.state.tlsPendingClose →
      d.tr.state.tlsCloseSent = c.tr.state.tlsCloseSent → d.tr.closing = c.tr.closing →
      d.tables.listed = c.tables.listed → d.tr.lfd = c.tr.lfd → d.stack = c.stack →
      d.log = c.log → Kept c d := by
    intro d tls pending sent closing listed lfd stack log
    exact .registers (Live.idle free) tls pending (fun h => .inl (sent ▸ h))
      (fun h => closing.trans h) listed lfd stack
      (losses_append (log.trans (List.append_nil _).symm) (List.forall_mem_nil _))
  simp only [recvPlaintext, checkHandshake]
  split_ifs <;> exact ⟨shaken rfl rfl rfl rfl rfl rfl rfl rfl, rfl⟩

theorem recvDirect_kept {c : Cfg σ} (free : c.stack = []) (tls : c.tr.state.tlsConn.isSome = true)
    (env : Env) : Kept c (recvDirect R c env).1 ∧
    (recvDirect R c env).1.tables.bound = c.tables.bound := by
  obtain ⟨conn, hconn⟩ := Option.isSome_iff_exists.mp tls
  have logged : ∀ {d : Cfg σ} (obs : List Obs), d.tr.state.tlsConn.isSome = true →
      d.tr.state.tlsPendingClose = c.tr.state.tlsPendingClose →
      d.tr.state.tlsCloseSent = c.tr.state.tlsCloseSent → d.tr.closing = c.tr.closing →
      d.tables = c.tables → d.tr.lfd = c.tr.lfd → d.stack = c.stack →
      d.log = c.log ++ obs → (∀ o ∈ obs, o.isLost = false) → Kept c d := by
    intro d obs tls pending sent closing tables lfd stack log silent
    exact .registers (Live.idle free) tls pending (fun h => .inl (sent ▸ h))
      (fun h => closing.trans h) (by rw [tables]) lfd stack (losses_append log silent)
  simp only [recvDirect, hconn]
  split_ifs
  · exact ⟨logged [.recvTls _] tls rfl rfl rfl rfl rfl rfl rfl (by simp [Obs.isLost]), rfl⟩
  · simp only [feedTls]
    split
    · exact ⟨logged [.recvTls _, .tlsError _] rfl rfl rfl rfl rfl rfl rfl (List.append_assoc _ _ _)
        (by simp [Obs.isLost]), rfl⟩
    next n _ =>
      split
      · exact ⟨logged [.recvTls _, .fed _ _, .tlsError _] rfl rfl rfl rfl rfl rfl rfl
          ((List.append_assoc _ _ _).trans (List.append_assoc _ _ _)) (by simp [Obs.isLost]), rfl⟩
      · exact ⟨logged [.recvTls _, .fed _ _, .closeNotify _] rfl rfl rfl rfl rfl rfl rfl
          ((List.append_assoc _ _ _).trans (List.append_assoc _ _ _)) (by simp [Obs.isLost]), rfl⟩
      next conn' _ =>
        have fed : Kept c ((c.emit (.recvTls (readInto readBufSize env.reads).1)).emit
            (.fed (readInto readBufSize env.reads).1 n)) :=
          logged [.recvTls _, .fed _ _] tls rfl rfl rfl rfl rfl rfl (List.append_assoc _ _ _)
            (by simp [Obs.isLost])
        obtain ⟨plain, bound⟩ := recvPlaintext_kept (R := R)
          (c := (c.emit (.recvTls _)).emit (.fed _ n)) free conn'
        exact ⟨fed.trans plain, bound⟩

theorem received_stays {c : Cfg σ} (stays : Stays c) (free : c.stack = [])
    (r : Cfg σ × Option Bytes × Bool) (kept : Kept c r.1)
    (bound : r.1.tables.bound = c.tables.bound) : Stays (received r) := by
  obtain ⟨d, data, eof⟩ := r
  have live := stays.1.kept kept
  have none : ∀ k, Frame.lost k ∉ d.stack := fun k hk => Live.idle free k ((kept.lost k).mp hk)
  cases data with
  | some data =>
      exact ⟨live.kept (.call _ (fun err h => by cases h) fun k h => by cases h),
        bound.trans stays.2⟩
  | none =>
      cases eof with
      | true =>
          have removed : Kept d (d.streamRem .readable) :=
            .registers none live.tls rfl .inl id rfl rfl rfl rfl
          exact ⟨(live.kept removed).kept (.call _ (fun err h => by cases h) fun k h => by cases h),
            bound.trans stays.2⟩
      | false => exact ⟨live, bound.trans stays.2⟩

theorem readRound_stays {c : Cfg σ} (stays : Stays c) (free : c.stack = []) (env : Env) :
    Stays (readRound R c env) := by
  simp only [readRound]
  split_ifs
  · exact ⟨stays.1.kept (.call _ (fun err h => by cases h) fun k h => by cases h), stays.2⟩
  · obtain ⟨kept, bound⟩ := recvDirect_kept (R := R) free stays.1.tls env
    exact received_stays stays free _ kept bound

theorem Untouched.stays {c d : Cfg σ} (h : Untouched c d) (stays : Stays c) (free : c.stack = []) :
    Stays d := by
  refine ⟨stays.1.kept ?_, by rw [h.tables]; exact stays.2⟩
  exact .registers (Live.idle free) (h.tls.trans stays.1.tls) h.pending
    (fun hd => .inl (h.sent ▸ hd)) (fun hc => h.closing.trans hc) (by rw [h.tables]) h.lfd h.stack
    (losses_of_callbacks h.callbacks)

/-- The end of the write handle on a transport that is not closed by it. -/
theorem finishWrite_stays {c : Cfg σ} (stays : Stays c) (free : c.stack = [])
    {streamClose : Option Bool} (opened : streamClose ≠ some true) (env : Env) : Stays
    (finishWrite R c streamClose env) := by
  have removed : Stays (if c.tr.state.writeBuf = [] then c.streamRem .writable else c) := by
    split_ifs
    · exact ⟨stays.1.kept (.registers (Live.idle free) stays.1.tls rfl .inl id rfl rfl rfl rfl),
        stays.2⟩
    · exact stays
  simp only [finishWrite]
  split
  · exact absurd rfl opened
  · exact ⟨removed.1.kept (.same [.shutdown _] rfl rfl rfl rfl rfl rfl (by simp [Obs.isLost])),
      removed.2⟩
  · exact removed

theorem closeFromWriteHandle_stays {c : Cfg σ} (stays : Stays c) (free : c.stack = [])
    (clean : c.tr.closing = true → c.watches .readable = false ∧ c.tr.state.writeBuf = [])
    (errored : Bool) (env : Env) : Stays (closeFromWriteHandle R c errored env) := by
  simp only [closeFromWriteHandle]
  split
  next closing =>
    obtain ⟨readable, empty⟩ := clean closing
    have same : Kept c c := .registers (Live.idle free) stays.1.tls rfl .inl id rfl rfl rfl rfl
    exact ⟨stays.1.lostCall same (Live.idle free) _ _ closing readable fun _ => ⟨rfl, empty⟩,
      stays.2⟩
  next => exact finishWrite_stays stays free (by split_ifs <;> simp) env

theorem afterWrite_stays {c : Cfg σ} (stays : Stays c) (free : c.stack = [])
    (clean : c.tr.closing = true → c.tr.state.writeBuf ≠ [] ∨ c.watches .readable = false)
    (env : Env) : Stays (afterWrite R c env) := by
  simp only [afterWrite, stays.1.noPending, Bool.false_eq_true, if_false]
  split_ifs with empty
  · refine closeFromWriteHandle_stays stays free (fun closing => ⟨?_, empty⟩) false env
    exact (clean closing).resolve_left fun full => full empty
  · exact finishWrite_stays stays free (by simp) env

theorem written_stays {c : Cfg σ} (stays : Stays c) (free : c.stack = [])
    (clean : c.tr.closing = true → c.watches .readable = false ∧ c.tr.state.writeBuf = []) (n : Nat)
    (env : Env) : Stays (written R c n env) := by
  simp only [written]
  split_ifs
  · have resumed : Kept c { c with tr := { c.tr with protoPaused := false } } :=
      .unlogged rfl rfl rfl rfl rfl rfl
    exact ⟨(stays.1.kept resumed).kept (.call _ (fun err h => by cases h) fun k h => by cases h),
      stays.2⟩
  · exact afterWrite_stays stays free (fun closing => .inr (clean closing).1) env

theorem writeHandleRun_stays {c : Cfg σ} (stays : Stays c) (free : c.stack = []) {env : Env}
    (clean : c.tr.closing = true → closeTimedOut c.tr.state env.now = true ∨
      c.watches .readable = false ∧ c.tr.state.writeBuf = []) : Stays (writeHandleRun R c env) := by
  obtain ⟨conn, hconn⟩ := Option.isSome_iff_exists.mp stays.1.tls
  have untouched := writeTls_untouched (R := R) hconn env
  simp only [writeHandleRun, hconn]
  split_ifs with late
  · have sent : c.tr.state.tlsCloseSent = true := by
      simp only [closeTimedOut, Bool.and_eq_true] at late
      exact late.1.1
    refine ⟨stays.1.lostCall (d := (c.streamRem .readable).streamRem .writable)
      (.registers (Live.idle free) stays.1.tls rfl .inl id rfl rfl rfl rfl) (Live.idle free) _ _
      (stays.1.sent sent) ?_ ?_, stays.2⟩
    · rw [watches_streamRem_other Dir.noConfusion]
      exact watches_streamRem_same _ _
    · intro h
      rw [watches_streamRem_same] at h
      cases h
  · -- what is registered and whether the buffer is empty are as before the writing
    have after : ∀ {d : Cfg σ}, Untouched c d →
        d.tr.closing = true → d.watches .readable = false ∧ d.tr.state.writeBuf = [] := by
      intro d h closing
      obtain ⟨readable, empty⟩ := (clean (h.closing ▸ closing)).resolve_left late
      rw [Cfg.watches, h.tables]
      exact ⟨readable, h.empty empty⟩
    split
    next hwrite =>
      rw [hwrite] at untouched
      exact written_stays (untouched.stays stays free) (untouched.stack.trans free)
        (after untouched) _ _
    next hwrite =>
      rw [hwrite] at untouched
      exact closeFromWriteHandle_stays (untouched.stays stays free) (untouched.stack.trans free)
        (after untouched) _ _

theorem Stays.popped {c : Cfg σ} (stays : Stays c) {frame : Frame} {stack : List Frame}
    (h : c.stack = frame :: stack) (notLost : ∀ k, frame ≠ .lost k) : Stays
    { c with stack := stack } := by
  refine ⟨stays.1.kept ⟨id, id, rfl, id, id, rfl, fun k => ?_, fun _ _ closing =>
    ⟨closing, rfl, id⟩⟩, stays.2⟩
  rw [h, List.mem_cons]
  exact (or_iff_right fun same => notLost k same.symm).symm

/-- `tcp_stream_close` on a transport that is closing. -/
theorem tcpStreamClose_removes {c : Cfg σ} (bound : c.tables.bound = true)
    (closing : c.tr.closing = true) (tls : c.tr.state.tlsConn.isSome = true) (held : Bool)
    (env : Env) (running : (tcpStreamClose R c held env).panicked = false) :
    tcpStreamClose R c held env = c.unbind.unlist := by
  have closed : close R c.unbind env = c.unbind := by
    rw [close, if_pos (show c.unbind.tr.closing = true from closing)]
  have tls' : c.unbind.tr.state.tlsConn.isSome = true := tls
  simp only [tcpStreamClose, bound, if_true, tls', closed] at running ⊢
  split_ifs at running ⊢ with h1 h2
  · cases running
  · rw [running] at h2
    cases h2
  · rfl

theorem unlist_tornDown {c : Cfg σ} (once : c.losses = 1) (interest : c.tables.interest = none)
    (lfd : c.tables.listed = true → c.tr.lfd.isSome = true) : TornDown c.unbind.unlist := by
  simp only [Cfg.unlist]
  split_ifs with there
  · exact ⟨once, interest, rfl⟩
  · exact ⟨once, interest, Bool.eq_false_iff.mpr fun listed => there (lfd listed)⟩

/-- When `connection_lost` has returned, the transport is removed and torn down. -/
theorem lost_removes {c : Cfg σ} (stays : Stays c) {k : AfterLost} {stack : List Frame}
    (h : c.stack = .lost k :: stack) (r : Ret) (env : Env)
    (running : (Frame.after R { c with stack := stack } r env (.lost k)).panicked = false) :
    TornDown (Frame.after R { c with stack := stack } r env (.lost k)) ∧
      (Frame.after R { c with stack := stack } r env (.lost k)).tables.bound = false := by
  obtain ⟨live, bound⟩ := stays
  have here : Frame.lost k ∈ c.stack := by rw [h]; exact List.mem_cons_self
  obtain ⟨once, closing, readable, writable⟩ := live.frames k here
  have unbound : ∀ d : Cfg σ, d.unbind.unlist.tables.bound = false := by
    intro d
    simp only [Cfg.unlist]
    split_ifs <;> rfl
  -- the frames of methods are there with nothing registered
  have plain : k ≠ .writeHandle → ∀ held : Bool,
      (tcpStreamClose R { c with stack := stack } held env).panicked = false →
      TornDown (tcpStreamClose R { c with stack := stack } held env) ∧
        (tcpStreamClose R { c with stack := stack } held env).tables.bound = false := by
    intro other held alive
    have writable' : c.watches .writable = false :=
      Bool.eq_false_iff.mpr fun w => other (writable w).1
    rw [tcpStreamClose_removes (c := { c with stack := stack }) bound closing live.tls held env
      alive]
    exact ⟨unlist_tornDown (c := { c with stack := stack }) once
      (unregistered_of_watches readable writable') live.lfd, unbound _⟩
  cases k with
  | callConnLost => exact plain AfterLost.noConfusion _ running
  | tryWrite => exact plain AfterLost.noConfusion _ running
  | recvEof => exact plain AfterLost.noConfusion _ running
  | readHandle => exact plain AfterLost.noConfusion _ running
  | writeHandle =>
      have drained : ∀ d : Cfg σ,
          d = (if c.tr.state.writeBuf = [] then Cfg.streamRem { c with stack := stack } .writable
            else { c with stack := stack }) → d.tables.interest = none := by
        rintro d rfl
        split_ifs with empty
        · refine unregistered_of_watches ?_ (watches_streamRem_same _ _)
          rw [watches_streamRem_other Dir.noConfusion]
          exact readable
        · exact unregistered_of_watches (c := { c with stack := stack }) readable
            (Bool.eq_false_iff.mpr fun w => empty (writable w).2)
      simp only [Frame.after, finishWrite] at running ⊢
      have interest := drained _ rfl
      split_ifs at running interest ⊢ with empty
      · rw [tcpStreamClose_removes (c := Cfg.streamRem { c with stack := stack } .writable) bound
          closing live.tls _ env running]
        exact ⟨unlist_tornDown (c := Cfg.streamRem { c with stack := stack } .writable) once
          interest live.lfd, unbound _⟩
      · rw [tcpStreamClose_removes (c := { c with stack := stack }) bound closing live.tls _ env
          running]
        exact ⟨unlist_tornDown (c := { c with stack := stack }) once interest live.lfd, unbound _⟩

theorem eofReceived_stays {c : Cfg σ} (stays : Stays c) (free : c.stack = []) {truthy : Bool}
    (clean : truthy = false →
      if c.tr.state.tlsCloseSent = true then c.tables.interest = none else c.tr.closing = true)
        (env : Env) :
    Stays (eofReceived R c truthy env) := by
  simp only [eofReceived]
  split_ifs with ended sent
  · exact stays
  · have interest := clean (Bool.eq_false_iff.mpr ended)
    rw [if_pos sent.2] at interest
    have deaf : ∀ dir, c.watches dir = false := fun dir => by rw [Cfg.watches, interest]; rfl
    have same : Kept c c := .registers (Live.idle free) stays.1.tls rfl .inl id rfl rfl rfl rfl
    refine ⟨stays.1.lostCall same (Live.idle free) _ _ (stays.1.sent sent.2) (deaf _) fun h => ?_,
      stays.2⟩
    rw [deaf] at h
    cases h
  · have closing := clean (Bool.eq_false_iff.mpr ended)
    rw [if_neg fun h => sent ⟨stays.1.tls, h⟩] at closing
    simp only [closeFromReadHandle, closing, if_true]
    exact stays

/-- The return of a frame other than one of `connection_lost`. -/
theorem after_stays {c : Cfg σ} (stays : Stays c) (last : HandlesLast c)
    (noAttach : Frame.attach ∉ c.stack) {frame : Frame} {stack : List Frame}
    (h : c.stack = frame :: stack) (notLost : ∀ k, frame ≠ .lost k) {r : Ret}
    {env : Env} (good : EndsCleanly c (.ret r, env)) : Stays
    (frame.after R { c with stack := stack } r env) := by
  have popped := stays.popped h notLost
  have good := good stays.2
  simp only [h] at good
  have free : frame.nested = false → stack = [] :=
      fun handle => (last.below h).resolve_left fun nested => by
    rw [handle] at nested
    cases nested
  cases frame with
  | attach => exact absurd (h ▸ List.mem_cons_self) noAttach
  | connectionMade | pause => exact popped
  | getBuffer =>
      cases r with
      | buffer size =>
          refine received_stays popped (free rfl) _ ?_ rfl
          exact .same [.recv _] rfl rfl rfl rfl rfl rfl (by simp [Obs.isLost])
      | falsy | truthy | raised =>
          exact ⟨popped.1.kept (.unlogged rfl rfl rfl rfl rfl rfl), popped.2⟩
  | data ended =>
      cases ended with
      | true =>
          refine received_stays popped (free rfl) (_, none, true) ?_ rfl
          exact .unlogged rfl rfl rfl rfl rfl rfl
      | false => exact readRound_stays popped (free rfl) env
  | eof =>
      refine eofReceived_stays popped (free rfl) (fun falsy => good fun truthy => ?_) env
      rw [truthy] at falsy
      cases falsy
  | lost k => exact absurd rfl (notLost k)
  | resume => exact afterWrite_stays popped (free rfl) good env

/-- The invariant of every run: what is in the table is live. -/
structure Tended (c : Cfg σ) : Prop where
  noAttach : Frame.attach ∉ c.stack
  last : HandlesLast c
  live : c.panicked = false → c.tables.bound = true → Live c

theorem server_endsCleanly {c : Cfg σ} {aborts : Bool} {env : Env}
    (h : EndsCleanly c (.server aborts, env)) : EndsCleanly c
    (.call (if aborts then .abort else .close), env) := by
  cases aborts <;> exact h

/-- One step: it stays in the table, it was not there, or its removal is complete. -/
theorem stepped_tended {c d : Cfg σ} {act : Act} {env : Env} (tended : Tended c)
    (running : c.panicked = false) (good : EndsCleanly c (act, env))
    (stepped : Stepped R c env act d) : Stays d ∨ (d.tables.bound = true → c.tables.bound = true) ∧
      (c.tables.bound = true → d.panicked = false → TornDown d ∧ d.tables.bound = false) := by
  by_cases bound : c.tables.bound = true
  · have stays : Stays c := ⟨tended.live running bound, bound⟩
    cases stepped with
    | call m exposed =>
        exact .inl ⟨method_live stays.1 bound good, (method_bound c env m).trans bound⟩
    | server aborts _ listed =>
        exact .inl ⟨method_live stays.1 bound (server_endsCleanly good),
          (method_bound c env _).trans bound⟩
    | ret r frame stack hstack =>
        by_cases lost : ∃ k, frame = .lost k
        · obtain ⟨k, rfl⟩ := lost
          exact .inr ⟨fun _ => bound, fun _ alive => lost_removes stays hstack r env alive⟩
        · exact .inl (after_stays stays tended.last tended.noAttach hstack
            (fun k same => lost ⟨k, same⟩) good)
    | poll dir free event interest =>
        exact .inl ⟨stays.1.kept (.registers (Live.idle free) stays.1.tls rfl .inl id rfl rfl rfl
          rfl), bound⟩
    | fire dir free event quiet =>
        have taken : Stays { c with tables := { c.tables with event := none } } :=
          ⟨stays.1.kept (.registers (Live.idle free) stays.1.tls rfl .inl id rfl rfl rfl rfl),
            bound⟩
        rw [fire.eq_def, if_pos taken.2]
        cases dir with
        | readable => exact .inl (readRound_stays taken free env)
        | writable => exact .inl (writeHandleRun_stays taken free (good bound event))
    | made free pending =>
        refine .inl ⟨(stays.1.kept (d := { c with
          tables := { c.tables with pendingMade := false }
          exposed := true }) ?_).kept (.call _ (fun err h => by cases h) fun k h => by cases h),
              bound⟩
        exact .registers (Live.idle free) stays.1.tls rfl .inl id rfl rfl rfl rfl
  · refine .inr ⟨fun h => ?_, fun h => absurd h bound⟩
    cases stepped with
    | call m exposed => exact (method_bound c env m) ▸ h
    | server aborts there listed => exact there
    | ret r frame stack hstack =>
        refine after_bound (c := { c with stack := stack }) (fun attach => tended.noAttach ?_) h
        rw [hstack, attach]
        exact List.mem_cons_self
    | poll dir free event interest => exact h
    | fire dir free event quiet =>
        have there : Cfg.tables (fire R { c with tables := { c.tables with event := none } } dir
          env) =
            { c.tables with event := none } := by rw [fire.eq_def, if_neg bound]
        rw [there] at h
        exact h
    | made free pending => exact h

theorem step_tended (c : Cfg σ) (a : Act × Env) (d : Cfg σ) (tended : Tended c)
    (good : EndsCleanly c a) (h : step R c a = some d) : Tended d := by
  obtain ⟨running, stepped⟩ := step_stepped h
  refine ⟨step_noAttach c a d tended.noAttach h, step_handlesLast c a d tended.last h,
    fun alive there => ?_⟩
  rcases stepped_tended tended running good stepped with stays | ⟨before, removed⟩
  · exact stays.1
  · rw [(removed (before there) alive).2] at there
    cases there

theorem tended_removalComplete {c : Cfg σ} {a : Act × Env} (tended : Tended c)
    (good : EndsCleanly c a) :
    RemovalComplete R c a := by
  intro d h bound unbound alive
  obtain ⟨running, stepped⟩ := step_stepped h
  rcases stepped_tended tended running good stepped with stays | ⟨-, removed⟩
  · rw [stays.2] at unbound
    cases unbound
  · exact (removed bound alive).1

theorem TlsStart.tended {c : Cfg σ} (h : TlsStart R c) : Tended c := by
  cases h with
  | accepted => exact ⟨List.not_mem_nil, List.forall_mem_nil _, fun _ _ =>
      ⟨rfl, fun _ => rfl, rfl, Bool.noConfusion, fun k hk => absurd hk List.not_mem_nil,
        fun _ => rfl⟩⟩
  | connected =>
      simp only [Tcp.connected]
      split_ifs <;> exact ⟨List.not_mem_nil, List.forall_mem_nil _, fun _ _ =>
        ⟨rfl, Bool.noConfusion, rfl, Bool.noConfusion, fun k hk => absurd hk List.not_mem_nil,
          fun _ => rfl⟩⟩

/-- In a run whose steps end cleanly, every removal of the transport is complete. -/
theorem tls_teardown (R : Rustls σ) (actions : List (Act × Env)) (start : Cfg σ)
    (hstart : TlsStart R start) (guarded : Guarded (step R) EndsCleanly start actions) :
    Guarded (step R) (RemovalComplete R) start actions :=
  guarded.mono step_tended (fun _ _ tended good => tended_removalComplete tended good) hstart.tended

/-- A server aborts a connection in its handshake. -/
theorem tls_teardown_aborted :
    Guarded (step (clearTls 4096 0)) (RemovalComplete (clearTls 4096 0))
    (accepted 3 (some []) false 1000)
      [(.server true, ⟨[], [], 0⟩), (.ret .falsy, ⟨[], [], 0⟩)] := by
  refine tls_teardown (clearTls 4096 0) _ _ (.accepted 3 [] false 1000) ?_
  refine guarded_cons rfl ?_ (guarded_cons rfl (fun _ => trivial) trivial)
  refine fun _ => ⟨?_, Bool.noConfusion, Bool.noConfusion⟩
  rintro ⟨err, hmem⟩
  cases hmem

/-- `close` with a byte in the buffer: the write handle sends it with the alert and
removes the transport, and `connection_lost` is never called. -/
def deferredClose : List (Act × Env) :=
  [(.poll .readable, ⟨[], [], 0⟩), (.fire, ⟨[.data [7]], [], 0⟩), (.made, ⟨[], [], 0⟩),
      (.ret .falsy, ⟨[], [], 0⟩),
    (.call (.write [1]), ⟨[], [], 0⟩), (.call .close, ⟨[], [], 0⟩), (.poll .writable, ⟨[], [], 0⟩)]

theorem deferredClose_not_torn_down :
    ¬ ∀ (actions : List (Act × Env)) (start : Cfg Bytes), TlsStart (clearTls 4096 4096) start →
      Guarded (step (clearTls 4096 4096)) (RemovalComplete (clearTls 4096 4096)) start actions := by
  intro claim
  have complete := claim (deferredClose ++ [(.fire, ⟨[], [.ok 1, .ok 1], 0⟩)]) _
    (.accepted 3 [] false 1000)
  obtain ⟨c, hrun, d, hstep, bound, unbound, alive, losses⟩ : ∃ c, run (step (clearTls 4096 4096))
      (accepted 3 (some []) false 1000) deferredClose = some c ∧
      ∃ d, step (clearTls 4096 4096) c (.fire, ⟨[], [.ok 1, .ok 1], 0⟩) = some d ∧
      c.tables.bound = true ∧
        d.tables.bound = false ∧ d.panicked = false ∧ d.losses = 0 :=
    ⟨_, rfl, _, rfl, rfl, rfl, rfl, rfl⟩
  have torn := complete.next hrun d hstep bound unbound alive
  rw [torn.once] at losses
  cases losses

end TokioLoop.Tcp
