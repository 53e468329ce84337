import Mathlib.Data.List.Infix
import TokioLoop.TlsSession

/-!
Two TLS transports with plain protocols at the ends of one connection. The bytes one
protocol writes go through the queue of its transport, the encryption, the local buffer of
a flush, the kernels and the wire, the read buffer and the decryption of the other end.
-/
namespace TokioLoop.Tcp

open ByteLedger Runs

variable {σ : Type} {R : Rustls σ} {P : Ledger R} {S : Session R P}

/-- rustls does not take all of the ciphertext of a read, or refuses it. -/
def Obs.cuts : Obs → Bool
  | .fed offered n => decide (n < offered.length)
  | .tlsError _ => true
  | _ => false

/-- No `write_all` follows one that failed with a part of its chunk accepted, and nothing is
sent behind a flush of which the kernel took only a part. -/
structure SendsWhole (c : Cfg σ) : Prop where
  noRetry : NoRetry c.encryptions
  unbroken : Unbroken (fun o : Obs => o.kernelBytes ≠ o.producedBytes) Obs.kernelBytes c.log

/-- Nothing is fed behind a read that rustls did not take whole. -/
def FeedsWhole (c : Cfg σ) : Prop := Unbroken (fun o : Obs => o.cuts = true) Obs.fedBytes c.log

theorem Trace.noWrite {q q' : List Bytes} {obs : List Obs} (h : Trace q obs q') :
    ∀ o ∈ obs, o.kernelBytes <+: o.producedBytes := by
  have nothing : ∀ {o : Obs}, o.kernelBytes = [] → o.kernelBytes <+: o.producedBytes := fun none =>
    none ▸ List.nil_prefix
  induction h with
  | nil => exact List.forall_mem_nil _
  | @aside q q' o obs aside _ ih =>
      refine List.forall_mem_cons.mpr ⟨?_, ih⟩
      cases o with
      | callback | shutdown | raised | recv => exact nothing rfl
      | accepted | write | recvTls | fed | tlsError | closeNotify | encrypted
      | flushed => cases aside
  | @report q q' o obs report _ ih =>
      refine List.forall_mem_cons.mpr ⟨?_, ih⟩
      cases o with
      | tlsError | closeNotify => exact nothing rfl
      | flushed alert out more r =>
          cases r with
          | ok n => exact List.take_prefix n _
          | interrupted | wouldBlock | fatal => exact nothing rfl
      | callback | shutdown | raised | recv | accepted | write | recvTls | fed
      | encrypted => cases report
  | accept _ ih | encrypt _ ih | refuse _ _ ih
  | unread _ ih => exact List.forall_mem_cons.mpr ⟨nothing rfl, ih⟩
  | feed _ ih | unfed _ ih =>
      exact List.forall_mem_cons.mpr ⟨nothing rfl, List.forall_mem_cons.mpr ⟨nothing rfl, ih⟩⟩

/-- What rustls is fed is the front of what was read. -/
theorem Trace.fed_prefix {q q' : List Bytes} {obs : List Obs} (h : Trace q obs q')
    (whole : Unbroken (fun o : Obs => o.cuts = true) Obs.fedBytes obs) :
    obs.flatMap Obs.fedBytes <+: obs.flatMap Obs.readBytes := by
  induction h with
  | nil => exact List.nil_prefix
  | @aside q q' o obs aside _ ih =>
      cases o with
      | callback | shutdown | raised | recv => exact ih whole.tail
      | accepted | write | recvTls | fed | tlsError | closeNotify | encrypted
      | flushed => cases aside
  | @report q q' o obs report _ ih =>
      cases o with
      | tlsError | closeNotify | flushed => exact ih whole.tail
      | callback | shutdown | raised | recv | accepted | write | recvTls | fed
      | encrypted => cases report
  | accept _ ih | encrypt _ ih | refuse _ _ ih | unread _ ih => exact ih whole.tail
  | @feed q q' bytes n obs _ ih =>
      simp only [List.flatMap_cons, Obs.fedBytes, Obs.readBytes, List.nil_append]
      by_cases all : bytes.length ≤ n
      · rw [List.take_of_length_le all]
        exact (List.prefix_append_right_inj bytes).mpr (ih whole.tail.tail)
      · rw [whole.tail.head (decide_eq_true (Nat.not_le.mp all)), List.append_nil]
        exact (List.take_prefix n bytes).trans (List.prefix_append _ _)
  | @unfed q q' bytes more obs _ ih =>
      have none : obs.flatMap Obs.fedBytes = [] := whole.tail.head rfl
      simp only [List.flatMap_cons, Obs.fedBytes, List.nil_append, none]
      exact List.nil_prefix

theorem delivered_eq_given (c : Cfg σ) : c.delivered = c.log.flatMap Obs.given := by
  unfold Cfg.delivered Cfg.callbacks
  induction c.log with
  | nil => rfl
  | cons o log ih =>
      rw [List.flatMap_cons, ← ih]
      cases o with
      | callback e buffered => cases e <;> rfl
      | _ => rfl

theorem plaintext_eq_sealed (c : Cfg σ) : c.plaintext = c.log.flatMap (Stream.of .sealed) := by
  unfold Cfg.plaintext Cfg.encryptions
  induction c.log with
  | nil => rfl
  | cons o log ih =>
      rw [List.flatMap_cons, ← ih]
      cases o with
      | _ => rfl

theorem fed_eq_heard (log : List Obs) :
    log.flatMap Obs.fedBytes = log.flatMap (Stream.of .heard) := by
  refine List.flatMap_congr fun o _ => ?_
  cases o with
  | _ => rfl

theorem produced_eq_sent (log : List Obs) :
    log.flatMap Obs.producedBytes = log.flatMap (Stream.of .sent) := by
  refine List.flatMap_congr fun o _ => ?_
  cases o with
  | _ => rfl

/-- What the kernel of `s` took is in the calls of `r`, in its socket or on the wire. -/
def Carries (s r : End σ) : Prop :=
  bytesOf r.reader.calls ++ bytesIn r.reader.sock ++ s.wire = s.reader.cfg.kernelBytes

theorem Carries.sent {s r : End σ} {t : Reader σ} (h : Carries s r)
    (grown : ∃ obs, t.cfg.log = s.reader.cfg.log ++ obs) : Carries (s.ran t) r := by
  obtain ⟨obs, log⟩ := grown
  have more : t.cfg.kernelBytes = s.reader.cfg.kernelBytes ++ obs.flatMap Obs.kernelBytes := by
    rw [Cfg.kernelBytes, log, List.flatMap_append]
    rfl
  simp only [Carries, End.ran]
  rw [← List.append_assoc, h, more, List.drop_left]

theorem Carries.received {s r : End σ} {t : Reader σ} {a : Act × Env} (h : Carries s r)
    (one : receive R r.reader a = some t) : Carries s (r.ran t) := by
  simp only [Carries, End.ran]
  cases room : roomOf r.reader.cfg a.1 with
  | none =>
      obtain ⟨-, same⟩ := receive_quiet room one
      rw [same]
      exact h
  | some n =>
      obtain ⟨-, sock, made⟩ := receive_reads room one
      rw [made, sock, bytesOf_append, List.append_assoc (bytesOf _), readCalls_bytes]
      exact h

theorem Carries.carried {s r : End σ} (h : Carries s r) (n : Nat) :
    Carries { s with wire := s.wire.drop n } (r.gets (.data (s.wire.take n))) := by
  simp only [Carries, End.gets, bytesIn_append]
  rw [← h]
  simp [bytesIn, ReadResult.bytes]

/-- A TLS end with a plain protocol. -/
structure Secured (S : Session R P) (e : End σ) : Prop where
  follows : Follows S e.reader
  trace : Trace [] e.reader.cfg.log e.reader.cfg.tr.state.writeBuf

theorem Secured.ran {e : End σ} {t : Reader σ} {a : Act × Env} (h : Secured S e)
    (one : receive R e.reader a = some t) : Secured S (e.ran t) ∧
    ∃ obs, t.cfg.log = e.reader.cfg.log ++ obs := by
  obtain ⟨env, stepped⟩ := receive_step one
  obtain ⟨obs, log, trace⟩ := (step_traced h.follows.unbuffered.tls stepped).trace
  refine ⟨⟨receive_follows h.follows one, ?_⟩, obs, log⟩
  simp only [End.ran]
  rw [log]
  exact h.trace.append trace

theorem Secured.waits {e : End σ} (h : Secured S e) (sock : List ReadResult) :
    Secured S { e with reader := { e.reader with sock := sock } } :=
  ⟨⟨⟨h.follows.unbuffered.tls, h.follows.unbuffered.kind, h.follows.unbuffered.frames,
      h.follows.unbuffered.shaken,
    h.follows.unbuffered.after⟩, h.follows.agrees⟩, h.trace⟩

/-- From the socket to the protocol. -/
theorem Secured.hears {e : End σ} (h : Secured S e) (feeds : FeedsWhole e.reader.cfg) :
    ∃ conn, e.reader.cfg.delivered <+: P.decrypted conn ∧ S.seen .heard conn <+:
    bytesOf e.reader.calls := by
  obtain ⟨conn, there, seen, read, taken⟩ := h.follows.agrees
  refine ⟨conn, ?_, ?_⟩
  · rw [delivered_eq_given, ← List.append_nil (e.reader.cfg.log.flatMap Obs.given), ← taken]
    exact P.taken_le conn
  · rw [seen, ← fed_eq_heard, ← read]
    exact h.trace.fed_prefix feeds

/-- From the protocol to the kernel. -/
theorem Secured.sends {e : End σ} (h : Secured S e) (sends : SendsWhole e.reader.cfg) :
    ∃ conn, e.reader.cfg.kernelBytes <+: S.seen .sent conn ∧
      S.seen .sealed conn <+: e.reader.cfg.acceptedBytes := by
  obtain ⟨conn, there, seen, read, taken⟩ := h.follows.agrees
  refine ⟨conn, ?_, ?_⟩
  · rw [seen, ← produced_eq_sent]
    exact sends.unbroken.taken_prefix h.trace.noWrite
  · rw [seen, ← plaintext_eq_sealed]
    exact h.trace.plaintext_in_order sends.noRetry

structure Joined (S : Session R P) (e f : End σ) : Prop where
  here : Secured S e
  there : Secured S f
  out : Carries e f
  back : Carries f e

theorem Joined.symm {e f : End σ} (h : Joined S e f) : Joined S f e :=
  ⟨h.there, h.here, h.back, h.out⟩

theorem stepped_joined {here there e f : End σ} {act : LinkAct} (h : Joined S here there)
    (stepped : LinkStepped R here there act e f) : Joined S e f := by
  cases stepped with
  | run a t running one =>
      obtain ⟨after, grown⟩ := h.here.ran one
      exact ⟨after, h.there, h.out.sent grown, h.back.received one⟩
  | carry n some => exact ⟨⟨h.here.follows, h.here.trace⟩, h.there.waits _, h.out.carried n, h.back⟩
  | fin running empty ended =>
      refine ⟨⟨h.here.follows, h.here.trace⟩, h.there.waits _, ?_, h.back⟩
      have none : bytesIn (there.reader.sock ++ [.eof]) = bytesIn there.reader.sock := by
        rw [bytesIn_append]
        exact List.append_nil _
      simp only [Carries, End.gets, none]
      exact h.out
  | stall n r stalls =>
      refine ⟨h.here.waits _, h.there, h.out, ?_⟩
      simp only [Carries, bytesIn_stall stalls]
      exact h.back
  | drop => exact ⟨⟨h.here.follows, h.here.trace⟩, h.there, h.out, h.back⟩

theorem joined_side {l : Link σ} (h : Joined S (l .client) (l .server)) (side : Side) :
    Joined S (l side) (l side.other) := by
  cases side with
  | client => exact h
  | server => exact h.symm

theorem joined_of_side {l : Link σ} {side : Side} (h : Joined S (l side) (l side.other)) :
    Joined S (l .client) (l .server) := by
  cases side with
  | client => exact h
  | server => exact h.symm

/-- A new connection with a plain protocol. -/
structure NewTls (S : Session R P) (c : Cfg σ) : Prop where
  start : TlsStart R c
  direct : c.tr.protoBuffered = false
  fresh : ∀ conn, c.tr.state.tlsConn = some conn → P.taken conn = [] ∧ ∀ s, S.seen s conn = []

theorem NewTls.secured {c : Cfg σ} (h : NewTls S c) :
    Secured S ⟨⟨c, [], []⟩, [], false, false⟩ := by
  obtain ⟨tls, buf, log⟩ := h.start.fresh
  obtain ⟨conn, there⟩ := Option.isSome_iff_exists.mp tls
  obtain ⟨shaken, frames, delivered⟩ := h.start.shaken
  obtain ⟨taken, seen⟩ := h.fresh conn there
  refine ⟨⟨⟨tls, h.direct, frames, fun done => ?_, fun some => absurd delivered some⟩, conn, there,
    ?_⟩, ?_⟩
  · rw [shaken] at done
    cases done
  · rw [log]
    exact ⟨seen, rfl, taken⟩
  · rw [log, buf]
    exact .nil []

theorem NewTls.unsent {c : Cfg σ} (h : NewTls S c) : c.kernelBytes = [] := by
  rw [Cfg.kernelBytes, h.start.fresh.2.2]
  rfl

/-- Over every run of a TLS connection, with any code of both ends in between, a protocol is
given a prefix of what the other one wrote, in every state up to which the writing end has
sent whole and the reading end has fed whole. -/
theorem tls_link_relays (R : Rustls σ) (P : Ledger R) (S : Session R P) (client server : Cfg σ)
    (hclient : NewTls S client) (hserver : NewTls S server) (actions : List (Side × LinkAct))
    (l : Link σ) (h : run (linkStep R) (connection client server) actions = some l) (side : Side)
    (sends : SendsWhole (l side).reader.cfg) (feeds : FeedsWhole (l side.other).reader.cfg) :
    (l side.other).reader.cfg.delivered <+: (l side).reader.cfg.acceptedBytes := by
  have start : Joined S (connection client server .client) (connection client server .server) :=
    ⟨hclient.secured, hserver.secured, hclient.unsent.symm, hserver.unsent.symm⟩
  have joined : Joined S (l .client) (l .server) :=
    run_invariant (I := fun l => Joined S (l .client) (l .server))
      (fun l a t inv one => joined_of_side
        (stepped_joined (joined_side inv a.1) (linkStep_stepped one))) h start
  obtain ⟨here, there, out, -⟩ := joined_side joined side
  obtain ⟨writer, taken, encrypted⟩ := here.sends sends
  obtain ⟨reader, delivered, fed⟩ := there.hears feeds
  have carried : bytesOf (l side.other).reader.calls <+: (l side).reader.cfg.kernelBytes :=
    ⟨bytesIn (l side.other).reader.sock ++ (l side).wire, by rw [← out, List.append_assoc]⟩
  have opened : P.decrypted reader <+: S.seen .sealed writer :=
    S.opens writer reader (fed.trans (carried.trans taken))
  exact delivered.trans (opened.trans encrypted)

/-- A connection with the null cipher and a hello of one byte; what follows the hello of the
peer is data. -/
structure HelloConn where
  heard : Bytes
  taken : Bytes
  plaintext : Bytes
  sealed : Bytes
  sent : Bytes
  opened : taken ++ plaintext <+: heard.drop 1
  flushed : sent <+: 22 :: sealed

def HelloConn.new : HelloConn := ⟨[], [], [], [], [], List.nil_prefix, List.nil_prefix⟩

theorem HelloConn.opened_later (conn : HelloConn) (bytes : Bytes) :
    conn.taken ++ conn.plaintext <+: (conn.heard ++ bytes).drop 1 := by
  exact conn.opened.trans (List.IsPrefix.drop (List.prefix_append conn.heard bytes) 1)

/-- The rest of what was heard follows what was taken. -/
theorem HelloConn.opened_all (conn : HelloConn) :
    conn.taken ++ (conn.heard.drop 1).drop conn.taken.length = conn.heard.drop 1 := by
  obtain ⟨rest, whole⟩ := conn.opened
  rw [← whole, List.append_assoc, List.drop_left]

theorem HelloConn.opened_taken (conn : HelloConn) (n : Nat) :
    (conn.taken ++ conn.plaintext.take n) ++ conn.plaintext.drop
    n = conn.taken ++ conn.plaintext := by
  rw [List.append_assoc, List.take_append_drop]

def helloTls : Rustls HelloConn where
  readTls conn bytes :=
    ({ conn with heard := conn.heard ++ bytes, opened := conn.opened_later bytes },
      some bytes.length)
  processNewPackets conn :=
    ({ conn with
      plaintext := (conn.heard.drop 1).drop conn.taken.length
      opened := conn.opened_all.symm ▸ List.prefix_rfl }, some false)
  isHandshaking conn := conn.heard.isEmpty
  wantsWrite conn := decide (conn.sent.length < (22 :: conn.sealed).length)
  read conn cap :=
    ({ conn with
      taken := conn.taken ++ conn.plaintext.take cap
      plaintext := conn.plaintext.drop cap
      opened := (conn.opened_taken cap).symm ▸ conn.opened },
      if conn.plaintext.take cap = [] then none else some (conn.plaintext.take cap))
  plaintextLeft conn := conn.plaintext.length
  write conn data :=
    ({ conn with
      sealed := conn.sealed ++ data
      flushed := conn.flushed.trans (List.prefix_append (22 :: conn.sealed) data) },
          some data.length)
  writeTls conn :=
    ({ conn with sent := 22 :: conn.sealed, flushed := List.prefix_rfl },
      some ((22 :: conn.sealed).drop conn.sent.length))
  sendCloseNotify conn := conn
  read_shrinks conn cap bytes h hne := by
    obtain ⟨some, -⟩ := Option.ite_none_left_eq_some.mp h
    have length : 0 < (conn.plaintext.take cap).length := List.length_pos_of_ne_nil some
    simp only [List.length_take, List.length_drop] at length ⊢
    omega
  read_wants _ _ := rfl

theorem helloTls_read (conn : HelloConn) (cap : Nat) :
    (helloTls.read conn cap).2.getD [] = conn.plaintext.take cap := by
  simp only [helloTls]
  split_ifs with none
  · exact none.symm
  · rfl

def helloLedger : Ledger helloTls where
  decrypted conn := conn.taken ++ conn.plaintext
  taken := HelloConn.taken
  taken_le _ := List.prefix_append _ _
  readTls_keeps _ _ := ⟨rfl, rfl⟩
  process_adds conn := ⟨conn.opened_all.symm ▸ conn.opened, rfl⟩
  read_takes conn cap := ⟨conn.opened_taken cap,
      congrArg (conn.taken ++ ·) (helloTls_read conn cap).symm⟩
  read_last conn cap some nothing := by
    rw [helloTls_read] at nothing
    have none := (List.take_eq_nil_iff.mp nothing).resolve_left (Nat.pos_iff_ne_zero.mp some)
    rw [none, List.append_nil]
  write_keeps _ _ := ⟨rfl, rfl⟩
  writeTls_keeps _ := ⟨rfl, rfl⟩
  closeNotify_keeps _ := ⟨rfl, rfl⟩

def helloSession : Session helloTls helloLedger where
  seen
    | .heard => HelloConn.heard
    | .sealed => HelloConn.sealed
    | .sent => HelloConn.sent
  readTls_adds s conn bytes := by
    cases s with
    | heard => exact congrArg (conn.heard ++ ·) List.take_length.symm
    | sealed | sent => exact (List.append_nil _).symm
  process_keeps s conn := by cases s <;> rfl
  read_keeps s conn cap := by cases s <;> rfl
  write_adds s conn data := by
    cases s with
    | sealed => exact congrArg (conn.sealed ++ ·) List.take_length.symm
    | heard | sent => exact (List.append_nil _).symm
  writeTls_adds s conn := by
    cases s with
    | sent =>
        obtain ⟨rest, more⟩ := conn.flushed
        show 22 :: conn.sealed = conn.sent ++ (22 :: conn.sealed).drop conn.sent.length
        rw [← more, List.drop_left]
    | heard | sealed => exact (List.append_nil _).symm
  closeNotify_keeps s conn := rfl
  opens writer reader h := reader.opened.trans (List.IsPrefix.drop (h.trans writer.flushed) 1)

/-- Hello and hello back, then three bytes that arrive as two and one. -/
def helloLink : List (Side × LinkAct) :=
  let idle : Env := ⟨[], [], 0⟩
  [(.client, .run (.poll .writable, idle)), (.client, .run (.fire, ⟨[], [.ok 1], 0⟩)),
    (.client, .carry 1), (.server, .run (.poll .readable, idle)), (.server, .run (.fire, idle)),
    (.server, .run (.made, idle)), (.server, .run (.ret .falsy, idle)),
    (.server, .run (.poll .writable, idle)), (.server, .run (.fire, ⟨[], [.ok 1], 0⟩)),
    (.server, .carry 1), (.client, .run (.poll .readable, idle)),
    (.client, .run (.fire, idle)), (.client, .run (.made, idle)),
    (.client, .run (.call (.write [1, 2, 3]), idle)), (.client, .run (.ret .falsy, idle)),
    (.client, .run (.poll .writable, idle)), (.client, .run (.fire, ⟨[], [.ok 3], 0⟩)),
    (.client, .carry 2), (.server, .run (.poll .readable, idle)),
    (.server, .run (.fire, idle)), (.server, .run (.ret .falsy, idle)), (.client, .carry 5),
    (.server, .run (.poll .readable, idle)), (.server, .run (.fire, idle)),
    (.server, .run (.ret .falsy, idle))]

/-- The two ends of the connection. -/
def helloEnd : Side → Cfg HelloConn
  | .client => connected helloTls (some .new) false 1000
  | .server => accepted 3 (some .new) false 1000

theorem helloEnd_new (side : Side) : NewTls helloSession (helloEnd side) := by
  cases side with
  | client =>
      refine ⟨.connected HelloConn.new false 1000, rfl, fun conn there => ?_⟩
      cases there
      exact ⟨rfl, fun s => by cases s <;> rfl⟩
  | server =>
      refine ⟨.accepted 3 HelloConn.new false 1000, rfl, fun conn there => ?_⟩
      cases there
      exact ⟨rfl, fun s => by cases s <;> rfl⟩

theorem tls_link_relays_hello :
    ∃ l, run (linkStep helloTls) (connection (helloEnd .client) (helloEnd .server))
    helloLink = some l ∧
      (l .server).reader.cfg.delivered = [1, 2, 3] ∧
      (l .server).reader.cfg.delivered <+: (l .client).reader.cfg.acceptedBytes := by
  obtain ⟨l, ran, heard, clientLog, serverLog⟩ : ∃ l,
      run (linkStep helloTls) (connection (helloEnd .client) (helloEnd .server))
      helloLink = some l ∧ (l .server).reader.cfg.delivered = [1, 2, 3] ∧
      (l .client).reader.cfg.log = [.flushed false (some [22]) false (.ok 1), .recvTls [22],
        .fed [22] 1, .callback .connectionMade [], .accepted [1, 2, 3],
        .flushed false (some []) false (.ok 3), .encrypted [1, 2, 3] [1, 2, 3] true,
        .flushed false (some [1, 2, 3]) false (.ok 3)] ∧
      (l .server).reader.cfg.log = [.recvTls [22], .fed [22] 1, .callback .connectionMade [],
        .flushed false (some [22]) false (.ok 1), .flushed false (some []) false .wouldBlock,
        .recvTls [1, 2], .fed [1, 2] 2, .callback (.dataReceived [1, 2]) [], .recvTls [],
        .recvTls [3], .fed [3] 1, .callback (.dataReceived [3]) [], .recvTls []] :=
        ⟨_, rfl, rfl, rfl, rfl⟩
  refine ⟨l, ran, heard, ?_⟩
  refine tls_link_relays helloTls helloLedger helloSession (helloEnd .client) (helloEnd .server)
    (helloEnd_new .client) (helloEnd_new .server) helloLink l ran .client ⟨?_, ?_⟩ ?_
  · rw [Cfg.encryptions, clientLog]
    unfold NoRetry
    decide
  · rw [clientLog]
    exact unbroken_of_whole (by decide)
  · unfold FeedsWhole
    rw [Side.other, serverLog]
    exact unbroken_of_whole (by decide)

end TokioLoop.Tcp
