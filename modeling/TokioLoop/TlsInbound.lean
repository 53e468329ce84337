import TokioLoop.TcpBorrow
import TokioLoop.TcpMute

/-!
The inbound side of a TLS transport. `recv_direct` schedules `connection_made` for a
later step of the loop and goes on to read the decrypted data of the same packets, and a
close alert makes it return before it reads them.

What rustls decrypts is not part of the transport, so a `Ledger` says how the
operations of the connection treat it: the packets add to it and `read` takes it from
the front.
-/
namespace TokioLoop.Tcp

open Runs

variable {σ : Type} {R : Rustls σ}

/-- What a connection has decrypted, and the part of it that was read. -/
structure Ledger (R : Rustls σ) where
  decrypted : σ → Bytes
  taken : σ → Bytes
  taken_le : ∀ conn, taken conn <+: decrypted conn
  readTls_keeps : ∀ conn bytes, decrypted (R.readTls conn bytes).1 = decrypted conn ∧
    taken (R.readTls conn bytes).1 = taken conn
  process_adds : ∀ conn, decrypted conn <+: decrypted (R.processNewPackets conn).1 ∧
    taken (R.processNewPackets conn).1 = taken conn
  read_takes : ∀ conn cap, decrypted (R.read conn cap).1 = decrypted conn ∧
    taken (R.read conn cap).1 = taken conn ++ (R.read conn cap).2.getD []
  read_last : ∀ conn cap, 0 < cap → (R.read conn cap).2.getD [] = [] → taken conn = decrypted conn
  write_keeps : ∀ conn data, decrypted (R.write conn data).1 = decrypted conn ∧ taken
      (R.write conn data).1 = taken conn
  writeTls_keeps : ∀ conn, decrypted (R.writeTls conn).1 = decrypted conn ∧ taken
      (R.writeTls conn).1 = taken conn
  closeNotify_keeps : ∀ conn, decrypted (R.sendCloseNotify conn) = decrypted conn ∧
    taken (R.sendCloseNotify conn) = taken conn

def Ledger.decryptedOf (P : Ledger R) (c : Cfg σ) : Bytes := c.tr.state.tlsConn.elim [] P.decrypted

def Ledger.takenOf (P : Ledger R) (c : Cfg σ) : Bytes := c.tr.state.tlsConn.elim [] P.taken

/-- `connection_made` comes first, the data is what was decrypted, in order and once,
and while `eof_received` runs all of it is delivered. -/
structure InboundOrdered (P : Ledger R) (c : Cfg σ) : Prop where
  made : ∀ past e later, c.callbacks = past ++ e ::
      later → e.inbound = true → .connectionMade ∈ past
  once : c.delivered <+: P.decryptedOf c
  complete : c.stack.head? = some .eof → c.delivered = P.decryptedOf c

/-- What rustls makes of the bytes of one read. -/
def fedResult (R : Rustls σ) (conn : σ) (bytes : Bytes) : σ × Option Bool :=
  match R.readTls conn bytes with
  | (conn, none) => (conn, none)
  | (conn, some _) => R.processNewPackets conn

/-- Before `connection_made` was called the packets bring nothing to report, and where
they end the connection there is no decrypted data left. -/
def FedInOrder (P : Ledger R) (c : Cfg σ) : σ × Option Bool → Prop
  | (conn, some false) =>
      (c.tr.state.handshakeComplete = true ∨ R.isHandshaking conn = false) ∧
          P.decrypted conn ≠ c.delivered ∨
        c.tr.state.tlsCloseSent = true → .connectionMade ∈ c.callbacks
  | (conn, _) => .connectionMade ∈ c.callbacks ∧ P.decrypted conn = c.delivered

/-- A round of the read handle that leaves the order of the callbacks to the peer. -/
def RoundInOrder (P : Ledger R) (c : Cfg σ) (env : Env) : Prop :=
  c.tr.protoBuffered = false ∧ ∀ conn, c.tr.state.tlsConn = some conn →
    if (readInto readBufSize env.reads).1 = [] then c.tr.state.tlsCloseSent = true →
      .connectionMade ∈ c.callbacks
    else FedInOrder P c (fedResult R conn (readInto readBufSize env.reads).1)

/-- The condition on a step. -/
def ReadsInOrder (P : Ledger R) (c : Cfg σ) : Act × Env → Prop
  | (.fire, env) => c.tables.event = some .readable → c.tables.bound = true → RoundInOrder P c env
  | (.ret _, env) => c.stack.head? = some (.data false) → RoundInOrder P c env
  | _ => True

/-- The invariant: what was read is delivered, and after the handshake all of it is read. -/
structure Inbound (P : Ledger R) (c : Cfg σ) : Prop where
  tls : c.tr.state.tlsConn.isSome = true
  made : ∀ past e later, c.callbacks = past ++ e ::
      later → e.inbound = true → .connectionMade ∈ past
  link : c.delivered = P.takenOf c
  scheduled : c.tables.pendingMade = true ∨ .connectionMade ∈ c.callbacks →
      c.tr.state.handshakeComplete = true
  drained : c.tr.state.handshakeComplete = true → P.takenOf c = P.decryptedOf c
  frames : ∀ frame ∈ c.stack, frame.inbound = true → frame = .data false ∨ frame = .eof ∧
      P.takenOf c = P.decryptedOf c
  noAttach : Frame.attach ∉ c.stack

theorem Ledger.takenOf_le (P : Ledger R) (c : Cfg σ) : P.takenOf c <+: P.decryptedOf c := by
  unfold Ledger.takenOf Ledger.decryptedOf
  cases c.tr.state.tlsConn with
  | none => exact List.prefix_refl _
  | some conn => exact P.taken_le conn

theorem Inbound.ordered {P : Ledger R} {c : Cfg σ} (h : Inbound P c) : InboundOrdered P c where
  made := h.made
  once := h.link ▸ P.takenOf_le c
  complete top := by
    rcases h.frames .eof (List.mem_of_head? top) rfl with data | ⟨-, all⟩
    · cases data
    · exact h.link.trans all

/-- The code leaves what was decrypted alone, and calls neither `data_received` nor
`eof_received`. -/
structure Inert (P : Ledger R) (c d : Cfg σ) : Prop where
  tls : d.tr.state.tlsConn.isSome = c.tr.state.tlsConn.isSome
  decrypted : P.decryptedOf d = P.decryptedOf c
  taken : P.takenOf d = P.takenOf c
  handshake : d.tr.state.handshakeComplete = c.tr.state.handshakeComplete
  pending : d.tables.pendingMade = c.tables.pendingMade
  calls : ∃ more, d.callbacks = c.callbacks ++ more ∧ ∀ e ∈ more, e.inbound = false ∧
      e ≠ .connectionMade
  frames : ∀ frame ∈ d.stack, frame.inbound = true → frame ∈ c.stack

/-- Writing leaves the ledger alone. -/
def Ledger.conserving (P : Ledger R) : Conserving R where
  rel before after := P.decrypted after = P.decrypted before ∧ P.taken after = P.taken before
  refl _ := ⟨rfl, rfl⟩
  trans first second := ⟨second.1.trans first.1, second.2.trans first.2⟩
  write := P.write_keeps
  writeTls := P.writeTls_keeps
  closeNotify := P.closeNotify_keeps

theorem Mute.inert {P : Ledger R} {c d : Cfg σ} (h : Mute P.conserving c d) : Inert P c d := by
  have ledger : P.decryptedOf d = P.decryptedOf c ∧ P.takenOf d = P.takenOf c := by
    have conn := h.conn
    unfold Ledger.decryptedOf Ledger.takenOf
    revert conn
    generalize c.tr.state.tlsConn = before
    generalize d.tr.state.tlsConn = after
    rintro (same | _)
    · exact same
    · exact ⟨rfl, rfl⟩
  exact ⟨h.tls, ledger.1, ledger.2, h.handshake, h.pending, h.calls, h.frames⟩

theorem made_append {past more : List Callback}
    (before : ∀ earlier e later, past = earlier ++ e ::
      later → e.inbound = true → .connectionMade ∈ earlier)
    (quiet : ∀ e ∈ more, e.inbound = true → .connectionMade ∈ past) :
    ∀ earlier e later, past ++ more = earlier ++ e ::
    later → e.inbound = true → .connectionMade ∈ earlier := by
  intro earlier e later split inbound
  rcases List.append_eq_append_iff.mp split with ⟨mid, rfl, hmore⟩ | ⟨mid, hpast, hlater⟩
  · exact List.mem_append_left _ (quiet e (hmore ▸ List.mem_append_right _ List.mem_cons_self)
      inbound)
  · cases mid with
    | nil =>
        rw [List.append_nil] at hpast
        rw [List.nil_append] at hlater
        exact hpast ▸ quiet e (hlater ▸ List.mem_cons_self) inbound
    | cons x mid =>
        cases (List.cons.inj hlater).1
        exact before earlier e mid hpast inbound

theorem Inbound.inert {P : Ledger R} {c d : Cfg σ} (h : Inbound P c) (inert : Inert P c d)
    (noAttach : Frame.attach ∉ d.stack) : Inbound P d := by
  obtain ⟨more, hmore, quiet⟩ := inert.calls
  have silent : more.flatMap Callback.payload = [] :=
    List.flatMap_eq_nil_iff.mpr fun e he => payload_of_quiet (quiet e he).1
  refine
    { tls := inert.tls.trans h.tls
      made := ?_
      link := ?_
      scheduled := fun scheduled => ?_
      drained := fun complete => ?_
      frames := fun frame hframe inbound => ?_
      noAttach := noAttach }
  · rw [hmore]
    refine made_append h.made fun e he inbound => ?_
    rw [(quiet e he).1] at inbound
    cases inbound
  · rw [delivered_append hmore, silent, List.append_nil, inert.taken]
    exact h.link
  · rw [inert.handshake]
    refine h.scheduled (scheduled.imp (inert.pending ▸ ·) fun made => ?_)
    rw [hmore] at made
    exact (List.mem_append.mp made).resolve_right fun new => (quiet _ new).2 rfl
  · rw [inert.taken, inert.decrypted]
    exact h.drained (inert.handshake ▸ complete)
  · rw [inert.taken, inert.decrypted]
    exact h.frames frame (inert.frames frame hframe inbound) inbound

theorem Inbound.muted {P : Ledger R} {c d : Cfg σ} (h : Inbound P c) (mute : Mute P.conserving c d)
    (noAttach : Frame.attach ∉ d.stack) : Inbound P d := h.inert mute.inert noAttach

/-- The loop reads everything that is decrypted. -/
theorem drainReader_all (P : Ledger R) (fuel : Nat) (conn : σ)
    (enough : R.plaintextLeft conn < fuel) : P.decrypted
    (drainReader R fuel conn).1 = P.decrypted conn ∧
      P.taken (drainReader R fuel conn).1 = P.decrypted conn ∧
      P.taken conn ++ (drainReader R fuel conn).2 = P.decrypted conn := by
  induction fuel generalizing conn with
  | zero => exact absurd enough (Nat.not_lt_zero _)
  | succ fuel ih =>
      obtain ⟨dec, tak⟩ := P.read_takes conn 4096
      have last := P.read_last conn 4096 (by decide)
      have ended : (R.read conn 4096).2.getD [] = [] →
        P.decrypted (R.read conn 4096).1 = P.decrypted conn ∧
          P.taken (R.read conn 4096).1 = P.decrypted conn ∧
          P.taken conn ++ [] = P.decrypted conn := by
        intro none
        rw [none, List.append_nil] at tak
        rw [List.append_nil]
        exact ⟨dec, tak.trans (last none), last none⟩
      simp only [drainReader]
      split
      next conn' hread =>
        rw [hread] at ended
        exact ended rfl
      next conn' hread =>
        rw [hread] at ended
        exact ended rfl
      next conn' b bytes hread =>
        have shrinks : R.plaintextLeft conn' < R.plaintextLeft conn := by
          have less := R.read_shrinks conn 4096 (b :: bytes) (by rw [hread]) (List.cons_ne_nil _ _)
          rwa [hread] at less
        rw [hread] at dec tak
        obtain ⟨dec', tak', all⟩ := ih conn' (by omega)
        refine ⟨dec'.trans dec, tak'.trans dec, ?_⟩
        rw [← dec, ← all, tak, List.append_assoc]
        rfl

/-- A read that delivers nothing. -/
theorem Inbound.read {P : Ledger R} {c d : Cfg σ} (h : Inbound P c) {conn : σ}
    (hd : d.tr.state.tlsConn = some conn) (free : d.stack = [])
    (callbacks : d.callbacks = c.callbacks) (taken : P.taken conn = P.takenOf c)
    (complete : c.tr.state.handshakeComplete = true → d.tr.state.handshakeComplete = true)
    (scheduled : d.tables.pendingMade = true → d.tr.state.handshakeComplete = true)
    (drained : d.tr.state.handshakeComplete = true → P.taken conn = P.decrypted conn) :
    Inbound P d where
  tls := by rw [hd]; rfl
  made := callbacks ▸ h.made
  link := by
    rw [Cfg.delivered, callbacks, Ledger.takenOf, hd]
    exact h.link.trans taken.symm
  scheduled := fun which => which.elim scheduled fun made =>
      complete (h.scheduled (.inr (callbacks ▸ made)))
  drained := by
    rw [Ledger.takenOf, Ledger.decryptedOf, hd]
    exact drained
  frames := by
    rw [free]
    exact fun _ hframe => absurd hframe List.not_mem_nil
  noAttach := free ▸ List.not_mem_nil

theorem recvEof_inbound {P : Ledger R} {c : Cfg σ} (h : Inbound P c) (free : c.stack = [])
    (made : .connectionMade ∈ c.callbacks) : Inbound P (recvEof c) := by
  have calls : (recvEof c).callbacks = c.callbacks ++ [.eofReceived] :=
    callbacks_call (c.streamRem .readable) _ _
  have all : P.takenOf c = P.decryptedOf c := h.drained (h.scheduled (.inr made))
  refine
    { tls := h.tls
      made := ?_
      link := ?_
      scheduled := fun _ => h.scheduled (.inr made)
      drained := fun _ => all
      frames := fun frame hframe _ => ?_
      noAttach := List.not_mem_cons_of_ne_of_not_mem Frame.noConfusion h.noAttach }
  · rw [calls]
    exact made_append h.made fun _ _ _ => made
  · rw [delivered_append calls]
    exact (List.append_nil _).trans h.link
  · rcases List.mem_cons.mp hframe with rfl | old
    · exact .inr ⟨rfl, all⟩
    · exact absurd (free ▸ old) List.not_mem_nil

/-- A read that delivers what it took. -/
theorem Inbound.deliver {P : Ledger R} {c d : Cfg σ} (h : Inbound P c) {conn : σ}
    (hd : d.tr.state.tlsConn = some conn) (free : d.stack = [])
    (callbacks : d.callbacks = c.callbacks) (made : .connectionMade ∈ c.callbacks) {data : Bytes}
    (taken : P.taken conn = P.takenOf c ++ data) (complete : d.tr.state.handshakeComplete = true)
    (all : P.taken conn = P.decrypted conn) : Inbound P
    (d.call (.dataReceived data) (.data false)) := by
  have calls : (d.call (.dataReceived data) (.data false)).callbacks = c.callbacks ++
      [.dataReceived data] :=
    callbacks ▸ callbacks_call d _ _
  have conn' : (d.call (.dataReceived data) (.data false)).tr.state.tlsConn = some conn := hd
  refine
    { tls := by rw [conn']; rfl
      made := ?_
      link := ?_
      scheduled := fun _ => complete
      drained := fun _ => ?_
      frames := fun frame hframe _ => ?_
      noAttach := List.not_mem_cons_of_ne_of_not_mem Frame.noConfusion (free ▸ List.not_mem_nil) }
  · rw [calls]
    exact made_append h.made fun _ _ _ => made
  · rw [delivered_append calls, Ledger.takenOf, conn', h.link]
    exact (congrArg (P.takenOf c ++ ·) (List.append_nil data)).trans taken.symm
  · rw [Ledger.takenOf, Ledger.decryptedOf, conn']
    exact all
  · rcases List.mem_cons.mp hframe with rfl | old
    · exact .inl rfl
    · exact absurd (free ▸ old) List.not_mem_nil

/-- The handshake status after `process_new_packets`. -/
theorem checkHandshake_spec (c : Cfg σ) (conn : σ) :
    let d := checkHandshake R (c.setConn conn) conn
    d.tr.state.tlsConn = some conn ∧ d.stack = c.stack ∧ d.callbacks = c.callbacks ∧
      d.tr.state.tlsCloseSent = c.tr.state.tlsCloseSent ∧
      (d.tr.state.handshakeComplete = true ↔ c.tr.state.handshakeComplete = true ∨
        R.isHandshaking conn = false) ∧
      (d.tables.pendingMade = true → c.tables.pendingMade = true ∨
        d.tr.state.handshakeComplete = true) := by
  simp only [checkHandshake]
  split_ifs with ends made
  · exact ⟨rfl, rfl, rfl, rfl, iff_of_true rfl (.inr ends.2), .inl⟩
  · exact ⟨rfl, rfl, rfl, rfl, iff_of_true rfl (.inr ends.2), fun _ => .inr rfl⟩
  · refine ⟨rfl, rfl, rfl, rfl, ⟨.inl, fun h => h.elim id fun shaken => ?_⟩, .inl⟩
    by_contra early
    exact ends ⟨Bool.eq_false_iff.mpr early, shaken⟩

/-- A read without data; after a sent close alert it counts as the end of the stream. -/
theorem received_none {P : Ledger R} {c : Cfg σ} (h : Inbound P c) (free : c.stack = [])
    {eof : Bool} (made : eof = true → .connectionMade ∈ c.callbacks) : Inbound P
    (received (c, none, eof)) := by
  cases eof with
  | true => exact recvEof_inbound h free (made rfl)
  | false => exact h

theorem recvPlaintext_inbound {P : Ledger R} {c : Cfg σ} (h : Inbound P c) (free : c.stack = [])
    {conn : σ} (taken : P.taken conn = P.takenOf c)
    (good : (c.tr.state.handshakeComplete = true ∨ R.isHandshaking conn = false) ∧
      P.decrypted conn ≠ c.delivered ∨ c.tr.state.tlsCloseSent = true →
      .connectionMade ∈ c.callbacks) :
    Inbound P (received (recvPlaintext R c conn)) := by
  obtain ⟨hconn, stack, calls, sent, complete, pending⟩ := checkHandshake_spec (R := R) c conn
  simp only [recvPlaintext]
  generalize hd : (if R.wantsWrite conn = true
    then (checkHandshake R (c.setConn conn) conn).streamAdd .writable
    else checkHandshake R (c.setConn conn) conn) = d
  obtain ⟨tr, stack', calls', pending'⟩ := streamAdd_if hd
  rw [stack] at stack'
  rw [calls] at calls'
  rw [← tr] at hconn sent complete pending
  rw [← pending'] at pending
  have scheduled : d.tables.pendingMade = true → d.tr.state.handshakeComplete = true := fun up =>
    (pending up).elim (fun before => complete.mpr (.inl (h.scheduled (.inl before)))) id
  obtain ⟨dec, tak, all⟩ := drainReader_all P (R.plaintextLeft conn + 1) conn (Nat.lt_succ_self _)
  split_ifs with done empty
  · rw [empty, List.append_nil] at all
    have read : Inbound P (d.setConn (drainReader R (R.plaintextLeft conn + 1) conn).1) :=
      h.read rfl (stack'.trans free) calls' (tak.trans (all.symm.trans taken))
          (fun _ => done) scheduled
        fun _ => tak.trans dec.symm
    refine received_none read (stack'.trans free) fun closed => ?_
    change .connectionMade ∈ d.callbacks
    exact calls' ▸ good (.inr (sent ▸ closed))
  · have fresh : P.decrypted conn ≠ c.delivered := by
      rw [← all, h.link, ← taken]
      intro none
      exact empty (by simpa using none)
    refine h.deliver (d := d.setConn (drainReader R (R.plaintextLeft conn + 1) conn).1) rfl
      (stack'.trans free) calls' (good (.inl ⟨complete.mp done, fresh⟩)) ?_ done
      (tak.trans dec.symm)
    rw [tak, ← all, taken]
  · refine received_none (h.read hconn (stack'.trans free) calls' taken
      (fun before => complete.mpr (.inl before)) scheduled fun after => absurd after done)
      (stack'.trans free) fun closed => ?_
    exact calls' ▸ good (.inr (sent ▸ closed))

/-- Where rustls ends the connection, everything is delivered. -/
theorem ended_inbound {P : Ledger R} {c d : Cfg σ} (h : Inbound P c) {conn : σ}
    (hd : d.tr.state.tlsConn = some conn) (free : d.stack = [])
    (callbacks : d.callbacks = c.callbacks) (taken : P.taken conn = P.takenOf c)
    (complete : d.tr.state.handshakeComplete = c.tr.state.handshakeComplete)
    (pending : d.tables.pendingMade = c.tables.pendingMade) (made : .connectionMade ∈ c.callbacks)
    (all : P.decrypted conn = c.delivered) : Inbound P (received (d, none, true)) := by
  refine recvEof_inbound (h.read hd free callbacks taken complete.trans (fun up => ?_) fun _ =>
    ?_) free (callbacks ▸ made)
  · exact complete.trans (h.scheduled (.inl (pending ▸ up)))
  · exact (taken.trans h.link.symm).trans all.symm

theorem feedTls_inbound {P : Ledger R} {c : Cfg σ} (h : Inbound P c) (free : c.stack = [])
    {conn : σ} (hconn : c.tr.state.tlsConn = some conn) (bytes : Bytes)
    (good : FedInOrder P c (fedResult R conn bytes)) :
    Inbound P (received (feedTls R c conn bytes)) := by
  have takenOf : P.takenOf c = P.taken conn := by
    rw [Ledger.takenOf, hconn]
    rfl
  have mute : ∀ (d : Cfg σ) {o : Obs}, o.asCallback = none → (d.emit o).callbacks = d.callbacks :=
    fun d o mute => callbacks_append rfl (List.forall_mem_singleton.mpr mute)
  have fed := P.readTls_keeps conn bytes
  simp only [feedTls, fedResult] at good ⊢
  split
  next conn₁ hread =>
    rw [hread] at good fed
    exact ended_inbound h (d := (c.setConn conn₁).emit _) rfl free (mute (c.setConn conn₁) rfl)
      (fed.2.trans takenOf.symm) rfl rfl good.1 good.2
  next conn₁ n hread =>
    rw [hread] at good fed
    have processed := P.process_adds conn₁
    have taken : P.taken (R.processNewPackets conn₁).1 = P.takenOf c :=
      (processed.2.trans fed.2).trans takenOf.symm
    have heard : Inbound P (c.emit (.fed bytes n)) := h.muted (.emit P.conserving c rfl) h.noAttach
    have calls : (c.emit (.fed bytes n)).callbacks = c.callbacks := mute c rfl
    simp only at good
    split
    next conn₂ hprocess =>
      rw [hprocess] at good taken
      refine ended_inbound h (d := ((c.emit (.fed bytes n)).setConn conn₂).emit _) rfl free ?_ taken
        rfl rfl good.1 good.2
      exact (mute ((c.emit (.fed bytes n)).setConn conn₂) rfl).trans calls
    next conn₂ hprocess =>
      rw [hprocess] at good taken
      obtain ⟨dec, tak⟩ := P.closeNotify_keeps conn₂
      refine ended_inbound h rfl free ?_ ?_ rfl rfl good.1 ?_
      · exact (mute (Cfg.setState (c.emit (.fed bytes n)) _) rfl).trans calls
      · exact tak.trans taken
      · exact dec.trans good.2
    next conn₂ hprocess =>
      rw [hprocess] at good taken
      refine recvPlaintext_inbound heard free taken fun which => calls ▸ good ?_
      rwa [Cfg.delivered, calls] at which

theorem readRound_inbound {P : Ledger R} {c : Cfg σ} (h : Inbound P c) (free : c.stack = [])
    {env : Env} (good : RoundInOrder P c env) : Inbound P (readRound R c env) := by
  obtain ⟨direct, good⟩ := good
  obtain ⟨conn, hconn⟩ := Option.isSome_iff_exists.mp h.tls
  have good := good conn hconn
  simp only [readRound, direct, Bool.false_eq_true, if_false, recvDirect, hconn]
  have heard : Inbound P (c.emit (.recvTls (readInto readBufSize env.reads).1)) :=
    h.muted (.emit P.conserving c rfl) h.noAttach
  have calls : (c.emit (.recvTls (readInto readBufSize env.reads).1)).callbacks = c.callbacks :=
    callbacks_append rfl (List.forall_mem_singleton.mpr rfl)
  split_ifs at good ⊢ with none
  · exact received_none heard free fun closed => calls ▸ good closed
  · refine feedTls_inbound heard free hconn _ ?_
    have delivered : (c.emit (.recvTls (readInto readBufSize env.reads).1)).delivered =
        c.delivered := by
      rw [Cfg.delivered, calls]
      rfl
    revert good
    generalize fedResult R conn (readInto readBufSize env.reads).1 = r
    obtain ⟨conn', result⟩ := r
    simp only [FedInOrder, delivered, calls]
    exact id

theorem Inbound.popped {P : Ledger R} {c : Cfg σ} (h : Inbound P c) {frame : Frame}
    {stack : List Frame} (hstack : c.stack = frame :: stack) : Inbound P
    { c with stack := stack } :=
  { h with
    frames := fun other hother => h.frames other (hstack ▸ List.mem_cons_of_mem frame hother)
    noAttach := fun attach => h.noAttach (hstack ▸ List.mem_cons_of_mem frame attach) }

theorem after_inbound {P : Ledger R} {c : Cfg σ} (h : Inbound P c) (last : HandlesLast c)
    {frame : Frame} {stack : List Frame} (hstack : c.stack = frame :: stack) {r : Ret} {env : Env}
    (good : ReadsInOrder P c (.ret r, env))
    (noAttach : Frame.attach ∉ (frame.after R { c with stack := stack } r env).stack) :
    Inbound P (frame.after R { c with stack := stack } r env) := by
  have popped := h.popped hstack
  have here : frame ∈ c.stack := hstack ▸ List.mem_cons_self
  cases frame with
  | attach => exact absurd here h.noAttach
  | connectionMade | pause => exact popped
  | getBuffer =>
      rcases h.frames _ here rfl with data | ⟨eof, -⟩
      · cases data
      · cases eof
  | data ended =>
      have bottom : stack = [] := (last.below hstack).resolve_left Bool.noConfusion
      rcases h.frames _ here rfl with data | ⟨eof, -⟩
      · cases data
        exact readRound_inbound popped bottom (good (by rw [hstack]; rfl))
      · cases eof
  | eof => exact popped.muted (eofReceived_mute P.conserving _ _ env) noAttach
  | lost k =>
      cases k with
      | writeHandle => exact popped.muted (finishWrite_mute P.conserving _ (some true) env) noAttach
      | callConnLost | tryWrite | recvEof | readHandle =>
          exact popped.muted (tcpStreamClose_mute P.conserving _ _ env) noAttach
  | resume => exact popped.muted (afterWrite_mute P.conserving _ env) noAttach

/-- The scheduled `connection_made` runs. -/
theorem Inbound.makes {P : Ledger R} {c : Cfg σ} (h : Inbound P c)
    (pending : c.tables.pendingMade = true) : Inbound P ({ c with
      tables := { c.tables with pendingMade := false }
      exposed := true }.call .connectionMade .connectionMade) := by
  have calls := callbacks_call { c with
    tables := { c.tables with pendingMade := false }
    exposed := true } .connectionMade .connectionMade
  refine
    { tls := h.tls
      made := ?_
      link := ?_
      scheduled := fun _ => h.scheduled (.inl pending)
      drained := h.drained
      frames := fun frame hframe inbound => ?_
      noAttach := List.not_mem_cons_of_ne_of_not_mem Frame.noConfusion h.noAttach }
  · rw [calls]
    exact made_append h.made fun e he inbound => by
      rw [List.mem_singleton.mp he] at inbound
      cases inbound
  · rw [delivered_append (c := c) calls]
    exact (List.append_nil _).trans h.link
  · rcases List.mem_cons.mp hframe with rfl | old
    · cases inbound
    · exact h.frames frame old inbound

theorem step_inbound (P : Ledger R) (c : Cfg σ) (a : Act × Env) (d : Cfg σ)
    (inv : Inbound P c ∧ HandlesLast c) (good : ReadsInOrder P c a) (h : step R c a = some d) :
    Inbound P d ∧ HandlesLast d := by
  obtain ⟨inbound, last⟩ := inv
  refine ⟨?_, step_handlesLast c a d last h⟩
  have noAttach := step_noAttach c a d inbound.noAttach h
  obtain ⟨act, env⟩ := a
  obtain ⟨-, stepped⟩ := step_stepped h
  cases stepped with
  | call m exposed => exact inbound.muted (method_mute P.conserving c env m) noAttach
  | server aborts bound listed => exact inbound.muted (method_mute P.conserving c env _) noAttach
  | ret r frame stack hstack => exact after_inbound inbound last hstack good noAttach
  | poll dir free event interest => exact inbound.muted (.same rfl rfl rfl rfl rfl rfl) noAttach
  | fire dir free event quiet =>
      have taken : Inbound P { c with tables := { c.tables with event := none } } :=
        inbound.muted (.same rfl rfl rfl rfl rfl rfl) inbound.noAttach
      rw [fire.eq_def] at noAttach ⊢
      split_ifs at noAttach ⊢ with bound
      · cases dir with
        | readable => exact readRound_inbound taken free (good event bound)
        | writable => exact taken.muted (writeHandleRun_mute P.conserving _ env) noAttach
      · exact taken
  | made free pending => exact inbound.makes pending

theorem TlsStart.inbound {P : Ledger R} {c : Cfg σ} (h : TlsStart R c)
    (fresh : P.decryptedOf c = []) :
    Inbound P c := by
  obtain ⟨tls, -, log⟩ := h.fresh
  have none : P.takenOf c = [] := List.prefix_nil.mp (fresh ▸ P.takenOf_le c)
  have calls : c.callbacks = [] := by rw [Cfg.callbacks, log]; rfl
  have start : c.stack = [] ∧ c.tables.pendingMade = false := by
    cases h with
    | accepted => exact ⟨rfl, rfl⟩
    | connected =>
        simp only [Tcp.connected]
        split_ifs <;> exact ⟨rfl, rfl⟩
  refine
    { tls := tls
      made := fun past e later split => ?_
      link := ?_
      scheduled := fun which => ?_
      drained := fun _ => none.trans fresh.symm
      frames := fun frame hframe => absurd (start.1 ▸ hframe) List.not_mem_nil
      noAttach := start.1 ▸ List.not_mem_nil }
  · rw [calls] at split
    exact absurd split.symm (by simp)
  · rw [Cfg.delivered, calls, none]
    rfl
  · rw [start.2, calls] at which
    exact which.elim Bool.noConfusion fun made => absurd made List.not_mem_nil

/-- In a run whose reads are in order, `connection_made` comes first and `eof_received`
after everything that was decrypted. -/
theorem tls_inbound_ordered (R : Rustls σ) (P : Ledger R) (actions : List (Act × Env))
    (start : Cfg σ) (hstart : TlsStart R start) (fresh : P.decryptedOf start = [])
    (guarded : Guarded (step R) (ReadsInOrder P) start actions) :
    Always (step R) (InboundOrdered P) start actions := by
  refine (always_of_guarded (I := fun c => Inbound P c ∧ HandlesLast c)
      (step_inbound P) ?_ guarded).mono fun c inv =>
    inv.1.ordered
  exact ⟨hstart.inbound fresh, hstart.handlesLast⟩

/-- A connection with the null cipher: the first byte from the peer ends the handshake,
the others are data, and a zero is the close alert. -/
structure NullTls where
  shaken : Bool
  packets : Bytes
  taken : Bytes
  plaintext : Bytes

/-- The data among the packets, up to a close alert. -/
def NullTls.opened (conn : NullTls) : Bytes :=
  if conn.shaken then conn.packets.takeWhile (· != 0) else (conn.packets.takeWhile (· != 0)).tail

def nullTls : Rustls NullTls where
  readTls conn bytes := ({ conn with packets := conn.packets ++ bytes }, some bytes.length)
  processNewPackets conn :=
    ({ conn with shaken := true, packets := [], plaintext := conn.plaintext ++ conn.opened },
      some (conn.packets.contains 0))
  isHandshaking conn := !conn.shaken
  wantsWrite _ := false
  read conn cap :=
    ({ conn with taken := conn.taken ++ conn.plaintext.take cap, plaintext :=
        conn.plaintext.drop cap },
      some (conn.plaintext.take cap))
  plaintextLeft conn := conn.plaintext.length
  write conn data := (conn, some data.length)
  writeTls conn := (conn, some [])
  sendCloseNotify conn := conn
  read_shrinks conn cap bytes h hne := by
    have some : conn.plaintext.take cap ≠ [] := Option.some.inj h ▸ hne
    have length : 0 < (conn.plaintext.take cap).length := List.length_pos_of_ne_nil some
    simp only [List.length_take, List.length_drop] at length ⊢
    omega
  read_wants _ _ := rfl

def nullLedger : Ledger nullTls where
  decrypted conn := conn.taken ++ conn.plaintext
  taken conn := conn.taken
  taken_le _ := List.prefix_append _ _
  readTls_keeps _ _ := ⟨rfl, rfl⟩
  process_adds conn := ⟨⟨conn.opened, List.append_assoc _ _ _⟩, rfl⟩
  read_takes conn cap := ⟨by
    change (conn.taken ++ conn.plaintext.take cap) ++ conn.plaintext.drop cap = _
    rw [List.append_assoc, List.take_append_drop], rfl⟩
  read_last conn cap some none := by
    have empty : conn.plaintext.take cap = [] := none
    rcases List.take_eq_nil_iff.mp empty with zero | nothing
    · exact absurd zero (Nat.pos_iff_ne_zero.mp some)
    · rw [nothing, List.append_nil]
  write_keeps _ _ := ⟨rfl, rfl⟩
  writeTls_keeps _ := ⟨rfl, rfl⟩
  closeNotify_keeps _ := ⟨rfl, rfl⟩

def readEvent (bytes : Bytes) : List (Act × Env) :=
  [(.poll .readable, ⟨[], [], 0⟩), (.fire, ⟨[.data bytes], [], 0⟩)]

/-- Handshake, data and close alert each in a read of their own. -/
def separateReads : List (Act × Env) :=
  readEvent [1] ++ [(.made, ⟨[], [], 0⟩), (.ret .falsy, ⟨[], [], 0⟩)] ++ readEvent [7] ++
    [(.ret .falsy, ⟨[], [], 0⟩)] ++ readEvent [0]

theorem tls_inbound_ordered_separate :
    ∃ c, run (step nullTls) (accepted 3 (some ⟨false, [], [], []⟩) false 1000)
    separateReads = some c ∧
      c.callbacks = [.connectionMade, .dataReceived [7], .eofReceived] ∧
      Always (step nullTls) (InboundOrdered nullLedger)
      (accepted 3 (some ⟨false, [], [], []⟩) false 1000)
        separateReads := by
  refine ⟨_, rfl, rfl, ?_⟩
  refine tls_inbound_ordered nullTls nullLedger _ _ (.accepted 3 _ false 1000) rfl ?_
  refine guarded_cons rfl trivial (guarded_cons rfl (fun _ _ => ⟨rfl, ?_⟩)
    (guarded_cons rfl trivial (guarded_cons rfl ?_
    (guarded_cons rfl trivial (guarded_cons rfl (fun _ _ => ⟨rfl, ?_⟩)
      (guarded_cons rfl (fun _ => ⟨rfl, ?_⟩)
    (guarded_cons rfl trivial (guarded_cons rfl (fun _ _ => ⟨rfl, ?_⟩) trivial))))))))
  · rintro conn hconn
    cases hconn
    exact fun which => which.elim (fun h => absurd rfl h.2) Bool.noConfusion
  · intro top
    cases top
  · rintro conn hconn
    cases hconn
    exact fun _ => List.mem_cons_self
  · rintro conn -
    exact Bool.noConfusion
  · rintro conn hconn
    cases hconn
    exact ⟨List.mem_cons_self, rfl⟩

/-- The peer's last handshake message and its first data in one read: the data comes
before `connection_made`. -/
theorem coalesced_data_first :
    ¬ ∀ (actions : List (Act × Env)) (start : Cfg NullTls), TlsStart nullTls start →
      nullLedger.decryptedOf start = [] →
      Always (step nullTls) (InboundOrdered nullLedger) start actions := by
  intro claim
  have ordered := (claim (readEvent [1, 7]) _ (.accepted 3 ⟨false, [], [], []⟩ false 1000) rfl).last
    rfl
  exact absurd (ordered.made [] (.dataReceived [7]) [] rfl rfl) List.not_mem_nil

end TokioLoop.Tcp
