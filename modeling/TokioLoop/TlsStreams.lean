import TokioLoop.TcpOutbound
import TokioLoop.TlsTrace

/-! The two plaintext-side streams of a TLS transport, read off its trace: the
ciphertext that is fed to rustls, and the plaintext that is given to it. -/
namespace TokioLoop.Tcp

variable {σ : Type} {R : Rustls σ}

def Obs.readBytes : Obs → Bytes
  | .recvTls data => data
  | _ => []

def Obs.fedBytes : Obs → Bytes
  | .fed offered n => offered.take n
  | _ => []

/-- The ciphertext `recv_direct` read from the socket. -/
def Cfg.readBytes (c : Cfg σ) : Bytes := c.log.flatMap Obs.readBytes

/-- The ciphertext rustls took. -/
def Cfg.fedBytes (c : Cfg σ) : Bytes := c.log.flatMap Obs.fedBytes

/-- Every call of `read_tls` takes all it is offered. -/
def FedWhole (obs : List Obs) : Prop := ∀ offered n, .fed offered n ∈ obs → offered.length ≤ n

theorem fedWhole_cons {o : Obs} {obs : List Obs} (notFed : ∀ offered n, o ≠ .fed offered n) :
    FedWhole (o :: obs) ↔ FedWhole obs := by
  simp only [FedWhole, List.mem_cons]
  constructor
  · intro whole offered n hmem
    exact whole offered n (.inr hmem)
  · rintro whole offered n (same | hmem)
    · exact absurd same.symm (notFed offered n)
    · exact whole offered n hmem

theorem take_append_eq_iff {bytes fed read : Bytes} {n : Nat} (short : fed.length ≤ read.length) :
    bytes.take n ++ fed = bytes ++ read ↔ bytes.length ≤ n ∧ fed = read := by
  constructor
  · intro same
    have lengths := congrArg List.length same
    simp only [List.length_append, List.length_take] at lengths
    have whole : bytes.length ≤ n := by omega
    rw [List.take_of_length_le whole] at same
    exact ⟨whole, List.append_cancel_left same⟩
  · rintro ⟨whole, rfl⟩
    rw [List.take_of_length_le whole]

theorem Trace.fed_iff {q q' : List Bytes} {obs : List Obs} (h : Trace q obs q')
    (noError : ∀ more, .tlsError more ∉ obs) :
    (obs.flatMap Obs.fedBytes).length ≤ (obs.flatMap Obs.readBytes).length ∧
      (obs.flatMap Obs.fedBytes = obs.flatMap Obs.readBytes ↔ FedWhole obs) := by
  induction h with
  | nil => exact ⟨Nat.le_refl _, iff_of_true rfl (by simp [FedWhole])⟩
  | @aside q q' o obs ho _ ih =>
      have later : ∀ more, Obs.tlsError more ∉ obs :=
        fun more hmem => noError more (List.mem_cons_of_mem _ hmem)
      cases o with
      | callback | shutdown | raised | recv =>
          rw [fedWhole_cons (by simp)]
          exact ih later
      | accepted | write | recvTls | fed | tlsError | closeNotify | encrypted | flushed => cases ho
  | @report q q' o obs ho _ ih =>
      have later : ∀ more, Obs.tlsError more ∉ obs :=
        fun more hmem => noError more (List.mem_cons_of_mem _ hmem)
      cases o with
      | tlsError | closeNotify | flushed =>
          rw [fedWhole_cons (by simp)]
          exact ih later
      | callback | shutdown | raised | recv | accepted | write | recvTls | fed
      | encrypted => cases ho
  | accept _ ih | encrypt _ ih | refuse _ _ ih | unread _ ih =>
      rw [fedWhole_cons (by simp)]
      exact ih fun more hmem => noError more (List.mem_cons_of_mem _ hmem)
  | @feed q q' bytes n obs _ ih =>
      obtain ⟨short, same⟩ := ih fun more hmem =>
        noError more (List.mem_cons_of_mem _ (List.mem_cons_of_mem _ hmem))
      simp only [List.flatMap_cons, Obs.fedBytes, Obs.readBytes, List.nil_append]
      refine ⟨?_, ?_⟩
      · simp only [List.length_append, List.length_take]
        omega
      · rw [take_append_eq_iff short, same]
        simp only [FedWhole, List.mem_cons, reduceCtorEq, false_or, Obs.fed.injEq]
        constructor
        · rintro ⟨whole, rest⟩ offered m (⟨rfl, rfl⟩ | hmem)
          · exact whole
          · exact rest offered m hmem
        · intro whole
          exact ⟨whole bytes n (.inl ⟨rfl, rfl⟩), fun offered m hmem => whole offered m (.inr hmem)⟩
  | @unfed q q' bytes more obs _ _ => exact absurd (by simp) (noError more)

/-- What is read is fed once and in order, without a rustls error, exactly when every
call of `read_tls` takes all the bytes it is offered. -/
theorem tls_feed_iff (R : Rustls σ) (actions : List (Act × Env)) (start c : Cfg σ)
    (hstart : TlsStart R start) (h : Runs.run (step R) start actions = some c)
    (noError : ∀ more, .tlsError more ∉ c.log) : c.fedBytes = c.readBytes ↔
    ∀ offered n, .fed offered n ∈ c.log → offered.length ≤ n :=
  ((run_traced hstart h).fed_iff noError).2

/-- A connection without encryption: it takes at most `window` bytes for each call of
`read_tls`, is past its handshake, keeps at most `limit` bytes to send and has a close
alert of one byte. -/
def clearTls (window limit : Nat) : Rustls Bytes where
  readTls conn bytes := (conn, some (min window bytes.length))
  processNewPackets conn := (conn, some false)
  isHandshaking _ := false
  wantsWrite conn := !conn.isEmpty
  read conn _ := (conn, some [])
  plaintextLeft _ := 0
  write conn data := (conn ++ data.take (limit - conn.length),
      some (min (limit - conn.length) data.length))
  writeTls conn := ([], some conn)
  sendCloseNotify conn := conn ++ [0]
  read_shrinks _ _ _ h hne := absurd (Option.some.inj h).symm hne
  read_wants _ _ := rfl

/-- One readable event that brings the given bytes. -/
def readOnce (bytes : Bytes) : List (Act × Env) :=
  [(.poll .readable, ⟨[], [], 0⟩), (.fire, ⟨[.data bytes], [], 0⟩)]

theorem readOnce_log (bytes : Bytes) (hne : bytes ≠ []) (fits : bytes.length ≤ readBufSize)
    (window : Nat) : ∃ c, Runs.run (step (clearTls window 0)) (accepted 3 (some []) false 1000)
    (readOnce bytes) = some c ∧
      c.log = [.recvTls bytes, .fed bytes (min window bytes.length)] := by
  have all : readInto readBufSize [.data bytes] = (bytes, false) := by
    simp [readInto, List.take_of_length_le fits, hne]
    simp [readBufSize]
  refine ⟨fire (clearTls window 0) (accepted 3 (some []) false 1000) .readable
    ⟨[.data bytes], [], 0⟩, rfl, ?_⟩
  have bound : (accepted 3 (some ([] : Bytes)) false 1000).tables.bound = true := rfl
  have direct : (accepted 3 (some ([] : Bytes)) false 1000).tr.protoBuffered = false := rfl
  have conn : (accepted 3 (some ([] : Bytes)) false 1000).tr.state.tlsConn = some [] := rfl
  simp only [fire, bound, if_true, readRound, direct, Bool.false_eq_true, if_false, recvDirect, all,
    conn, hne]
  rfl

/-- rustls takes 4096 bytes of a read of 4097; the last one is never fed. -/
theorem window_loses_byte :
    ¬ ∀ c, Runs.Reachable (step (clearTls 4096 0)) (accepted 3 (some []) false 1000) c →
      (∀ more, .tlsError more ∉ c.log) → c.fedBytes = c.readBytes := by
  intro always
  obtain ⟨bytes, long⟩ : ∃ bytes : Bytes, bytes.length = 4097 :=
    ⟨List.replicate 4097 0, List.length_replicate⟩
  have hne : bytes ≠ [] := fun none => by simp [none] at long
  obtain ⟨c, hrun, hlog⟩ := readOnce_log bytes hne (by simp [long, readBufSize]) 4096
  have same := always c ⟨_, hrun⟩ (by simp [hlog])
  have lengths := congrArg List.length same
  simp [Cfg.fedBytes, Cfg.readBytes, hlog, Obs.fedBytes, Obs.readBytes, long] at lengths

/-- A short read is fed whole. -/
theorem short_read_fed :
    ∃ c, Runs.run (step (clearTls 4096 0)) (accepted 3 (some []) false 1000)
    (readOnce [23, 3, 3]) = some c ∧
      c.fedBytes = c.readBytes := by
  obtain ⟨c, hrun, hlog⟩ := readOnce_log [23, 3, 3] (by simp) (by simp [readBufSize]) 4096
  refine ⟨c, hrun, ?_⟩
  refine (tls_feed_iff (clearTls 4096 0) _ _ c (.accepted 3 [] false 1000) hrun
    (by simp [hlog])).mpr ?_
  intro offered n hmem
  simp only [hlog, List.mem_cons, reduceCtorEq, Obs.fed.injEq, List.not_mem_nil, or_false, false_or]
    at hmem
  obtain ⟨rfl, rfl⟩ := hmem
  simp

/-- A call of `write_all`: the chunk, the part rustls accepted, and its success. -/
def Obs.encryption : Obs → Option (Bytes × Bytes × Bool)
  | .encrypted data taken ok => some (data, taken, ok)
  | _ => none

/-- The calls of `write_all`, in order. -/
def Cfg.encryptions (c : Cfg σ) : List (Bytes × Bytes × Bool) := c.log.filterMap Obs.encryption

/-- The plaintext rustls accepted. -/
def Cfg.plaintext (c : Cfg σ) : Bytes := c.encryptions.flatMap fun call => call.2.1

/-- A call that failed after a part of its chunk was accepted is not followed by
another call. -/
def NoRetry (calls : List (Bytes × Bytes × Bool)) : Prop :=
  ∀ call ∈ calls.dropLast, call.2.2 = false → call.2.1 = []

theorem NoRetry.tail {call : Bytes × Bytes × Bool} {calls : List (Bytes × Bytes × Bool)}
    (h : NoRetry (call :: calls)) : NoRetry calls := by
  intro other hmem
  cases calls with
  | nil => simp at hmem
  | cons next calls => exact h other (List.mem_cons_of_mem call hmem)

theorem NoRetry.head {call : Bytes × Bytes × Bool} {calls : List (Bytes × Bytes × Bool)}
    (h : NoRetry (call :: calls)) (failed : call.2.2 = false) : call.2.1 = [] ∨ calls = [] := by
  cases calls with
  | nil => exact .inr rfl
  | cons next calls => exact .inl (h call (by simp) failed)

theorem prefix_push {taken chunk rest : Bytes} (h : taken <+: chunk) : taken <+: chunk ++ rest :=
  h.trans (List.prefix_append chunk rest)

/-- From the queue `q` on, what is encrypted is a prefix of what is queued and what is
accepted later. -/
theorem Trace.plaintext_in_order {q q' : List Bytes} {obs : List Obs} (h : Trace q obs q')
    (noRetry : NoRetry (obs.filterMap Obs.encryption)) :
    (obs.filterMap Obs.encryption).flatMap (fun call => call.2.1) <+:
      q.flatten ++ obs.flatMap Obs.acceptedBytes := by
  induction h with
  | nil => exact List.nil_prefix
  | @aside q q' o obs ho _ ih =>
      cases o with
      | callback | shutdown | raised | recv => exact ih noRetry
      | accepted | write | recvTls | fed | tlsError | closeNotify | encrypted | flushed => cases ho
  | @report q q' o obs ho _ ih =>
      cases o with
      | tlsError | closeNotify | flushed => exact ih noRetry
      | callback | shutdown | raised | recv | accepted | write | recvTls | fed
      | encrypted => cases ho
  | accept _ ih =>
      have rest := ih noRetry
      rw [List.flatten_append, List.flatten_singleton, List.append_assoc] at rest
      exact rest
  | @encrypt q q' data obs _ ih =>
      have rest := ih noRetry.tail
      simp only [List.filterMap_cons, Obs.encryption, List.flatMap_cons, List.flatten_cons,
        Obs.acceptedBytes, List.nil_append, List.append_assoc]
      exact (List.prefix_append_right_inj data).mpr rest
  | @refuse q q' data taken obs part _ ih =>
      simp only [List.filterMap_cons, Obs.encryption, List.flatMap_cons, Obs.acceptedBytes,
        List.nil_append]
      rcases noRetry.head rfl with none | last
      · rw [show taken = [] from none, List.nil_append]
        exact ih noRetry.tail
      · rw [last, List.flatMap_nil, List.append_nil, List.flatten_cons, List.append_assoc]
        exact prefix_push part
  | feed _ ih | unfed _ ih | unread _ ih => exact ih noRetry

/-- The plaintext rustls accepted is a prefix of the data written as long as no
`write_all` follows one that failed with a part of its chunk accepted. -/
theorem tls_plaintext_once (R : Rustls σ) (actions : List (Act × Env)) (start c : Cfg σ)
    (hstart : TlsStart R start) (h : Runs.run (step R) start actions = some c)
    (noRetry : NoRetry c.encryptions) : c.plaintext <+: c.acceptedBytes := by
  have whole := (run_traced hstart h).plaintext_in_order noRetry
  rwa [List.flatten_nil, List.nil_append] at whole

/-- A chunk of four bytes on a connection that holds three: the first writable event
encrypts three of them, the next one sends those and starts over. -/
def retriedChunk : List (Act × Env) :=
  [(.poll .readable, ⟨[], [], 0⟩), (.fire, ⟨[.data [22]], [], 0⟩), (.made, ⟨[], [], 0⟩),
    (.call (.write [1, 2, 3, 4]), ⟨[], [], 0⟩), (.ret .falsy, ⟨[], [], 0⟩),
    (.poll .writable, ⟨[], [], 0⟩), (.fire, ⟨[], [], 0⟩), (.poll .writable, ⟨[], [], 0⟩),
    (.fire, ⟨[], [.ok 3], 0⟩)]

theorem retriedChunk_encrypted_twice :
    ¬ ∀ c, Runs.Reachable (step (clearTls 4096 3)) (accepted 3 (some []) false 1000) c →
      c.plaintext <+: c.acceptedBytes := by
  intro always
  obtain ⟨c, hrun, hplain, hwritten⟩ :
    ∃ c, Runs.run (step (clearTls 4096 3)) (accepted 3 (some []) false 1000)
      retriedChunk = some c ∧ c.plaintext = [1, 2, 3, 1, 2, 3] ∧ c.acceptedBytes = [1, 2, 3, 4] :=
    ⟨_, rfl, rfl, rfl⟩
  have once := always c ⟨_, hrun⟩
  rw [hplain, hwritten] at once
  exact absurd once (by decide)

/-- The same chunk on a connection that holds it. -/
theorem roomy_chunk_once :
    ∃ c, Runs.run (step (clearTls 4096 8)) (accepted 3 (some []) false 1000)
    (retriedChunk.take 7) = some c ∧
      c.plaintext = [1, 2, 3, 4] ∧ c.plaintext <+: c.acceptedBytes := by
  refine ⟨_, rfl, rfl, ?_⟩
  refine tls_plaintext_once (clearTls 4096 8) (retriedChunk.take 7) _ _
    (.accepted 3 [] false 1000) rfl ?_
  unfold NoRetry
  decide

end TokioLoop.Tcp
