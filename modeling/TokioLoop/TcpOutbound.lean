import TokioLoop.Lib.ByteLedger
import TokioLoop.TcpHandles

/-! The outbound byte stream of a plain transport: the direct write, the queue and the
write handle keep what was accepted in order, and the half-close and the graceful
close wait for the queue. -/
namespace TokioLoop.Tcp
open ByteLedger

variable {σ : Type} {R : Rustls σ}

def Obs.acceptedBytes : Obs → Bytes
  | .accepted data => data
  | _ => []

def Obs.kernelBytes : Obs → Bytes
  | .write data r => r.taken data
  | .flushed _ out _ r => r.taken (out.getD [])
  | _ => []

/-- The data `try_write` accepted. -/
def Cfg.acceptedBytes (c : Cfg σ) : Bytes := c.log.flatMap Obs.acceptedBytes

/-- The bytes the kernel took. -/
def Cfg.kernelBytes (c : Cfg σ) : Bytes := c.log.flatMap Obs.kernelBytes

/-- A half-close or a `connection_lost` happens with an empty buffer. -/
def Obs.Drained : Obs → Prop
  | .shutdown buffered => buffered = []
  | .callback (.connectionLost _) buffered => buffered = []
  | _ => True

/-- Neither accepts nor writes a byte, and respects the buffer. -/
structure Obs.Neutral (o : Obs) : Prop where
  accepts : o.acceptedBytes = []
  writes : o.kernelBytes = []
  drained : o.Drained

structure Intact (c : Cfg σ) : Prop where
  plain : c.tr.state.tlsConn = none
  balanced : Conserved c.acceptedBytes c.kernelBytes c.tr.state.writeBuf
  size : c.tr.state.writeBufDsize = held c.tr.state.writeBuf
  chunks : ∀ chunk ∈ c.tr.state.writeBuf, chunk ≠ []
  drained : ∀ o ∈ c.log, o.Drained

theorem Intact.empty_iff {c : Cfg σ} (h : Intact c) : c.tr.state.writeBufDsize = 0 ↔
    c.tr.state.writeBuf = [] := by
  rw [h.size]
  exact held_eq_zero_iff h.chunks

/-- The invariant looks at the state and the log only. -/
theorem Intact.of_eq {c d : Cfg σ} (h : Intact c) (state : d.tr.state = c.tr.state)
    (log : d.log = c.log) :
    Intact d := by
  constructor
  · rw [state]; exact h.plain
  · rw [state, Cfg.acceptedBytes, Cfg.kernelBytes, log]; exact h.balanced
  · rw [state]; exact h.size
  · rw [state]; exact h.chunks
  · rw [log]; exact h.drained

theorem Intact.neutral {c d : Cfg σ} (h : Intact c) {o : Obs} (hneutral : o.Neutral)
    (state : d.tr.state = c.tr.state) (log : d.log = c.log ++ [o]) : Intact d := by
  constructor
  · rw [state]; exact h.plain
  · rw [state, Cfg.acceptedBytes, Cfg.kernelBytes, log]
    simp only [List.flatMap_append, List.flatMap_singleton, hneutral.accepts, hneutral.writes,
      List.append_nil]
    exact h.balanced
  · rw [state]; exact h.size
  · rw [state]; exact h.chunks
  · intro p hp
    rw [log, List.mem_append] at hp
    rcases hp with old | fresh
    · exact h.drained p old
    · rw [List.mem_singleton.mp fresh]; exact hneutral.drained

theorem Intact.emit {c : Cfg σ} (h : Intact c) {o : Obs} (hneutral : o.Neutral) :
    Intact (c.emit o) :=
  h.neutral hneutral rfl rfl

theorem Intact.lost {c : Cfg σ} (h : Intact c) (empty : c.tr.state.writeBuf = [])
    (err : Option String) (frame : Frame) : Intact (c.call (.connectionLost err) frame) :=
  h.neutral (o := .callback (.connectionLost err) c.tr.state.writeBuf) ⟨rfl, rfl, empty⟩ rfl rfl

theorem Intact.call {c : Cfg σ} (h : Intact c) {e : Callback}
    (alive : ∀ err, e ≠ .connectionLost err) (frame : Frame) : Intact (c.call e frame) := by
  refine h.neutral ⟨rfl, rfl, ?_⟩ rfl rfl
  cases e with
  | connectionLost err => exact absurd rfl (alive err)
  | _ => trivial

theorem Intact.close {c : Cfg σ} (h : Intact c) (env : Env) : Intact (close R c env) := by
  simp only [Tcp.close]
  split_ifs
  · exact h
  · exact h.of_eq rfl rfl
  · have plain : c.setClosing.tr.state.tlsConn = none := h.plain
    rw [plain]
    simp only [closePlain]
    split_ifs with zero
    · exact (h.of_eq (d := (c.setClosing.streamRem .readable).streamRem .writable) rfl rfl).lost
        (h.empty_iff.mp zero) none (.lost .callConnLost)
    · exact h.of_eq rfl rfl

theorem Intact.unlist {c : Cfg σ} (h : Intact c) : Intact c.unlist := by
  simp only [Cfg.unlist]
  split_ifs
  · exact h.of_eq rfl rfl
  · exact h

theorem Intact.tcpStreamClose {c : Cfg σ} (h : Intact c) (held : Bool) (env : Env) :
    Intact (tcpStreamClose R c held env) := by
  have unbound : Intact c.unbind := h.of_eq rfl rfl
  simp only [Tcp.tcpStreamClose, unbound.plain, Option.isSome_none, Bool.false_eq_true, if_false]
  split_ifs
  · exact unbound.of_eq rfl rfl
  · exact unbound
  · exact unbound.unlist
  · exact h

theorem Intact.bufAdded {c d : Cfg σ} (h : Intact c) {data : Bytes} (total : Bytes) (obs : List Obs)
    (hne : data ≠ []) (state : d.tr.state = { c.tr.state with
      writeBuf := c.tr.state.writeBuf ++ [data] })
    (log : d.log = c.log ++ obs) (hdrained : ∀ o ∈ obs, o.Drained)
    (haccepted : obs.flatMap Obs.acceptedBytes = total)
    (balanced : Conserved (c.acceptedBytes ++ total) (c.kernelBytes ++ obs.flatMap Obs.kernelBytes)
      (c.tr.state.writeBuf ++ [data])) : Intact (bufAdded d data.length) := by
  have grown : ∀ e : Cfg σ, e.tr.state = { c.tr.state with
      writeBuf := c.tr.state.writeBuf ++ [data]
      writeBufDsize := c.tr.state.writeBufDsize + data.length } → e.log = c.log ++ obs →
          Intact e := by
    intro e hstate hlog
    constructor
    · rw [hstate]; exact h.plain
    · rw [hstate, Cfg.acceptedBytes, Cfg.kernelBytes, hlog]
      simp only [List.flatMap_append, haccepted]
      exact balanced
    · rw [hstate]
      simp [h.size]
    · rw [hstate]
      intro chunk hchunk
      rcases List.mem_append.mp hchunk with old | fresh
      · exact h.chunks chunk old
      · rw [List.mem_singleton.mp fresh]; exact hne
    · intro o ho
      rw [hlog, List.mem_append] at ho
      exact ho.elim (h.drained o) (hdrained o)
  have intact : Intact (grow d data.length) := by
    simp only [grow]
    split_ifs
    all_goals
      refine grown _ ?_ ?_
      · simp [Cfg.setState, Cfg.streamAdd, state]
      · exact log
  simp only [Tcp.bufAdded]
  split_ifs
  · exact intact.neutral (o := .callback .pauseWriting _) ⟨rfl, rfl, trivial⟩ rfl rfl
  · exact intact

def WriteResult.isFatal : WriteResult → Bool
  | .fatal _ => true
  | _ => false

theorem Intact.directWrite {c : Cfg σ} (h : Intact c) {data : Bytes} {r : WriteResult}
    (hne : data ≠ []) (empty : c.tr.state.writeBuf = []) (alive : r.isFatal = false) :
    Intact (directWrite (c.emit (.accepted data)) data r) := by
  have held : Conserved c.acceptedBytes c.kernelBytes [] := empty ▸ h.balanced
  have kept : ∀ n, Conserved (c.acceptedBytes ++ data) (c.kernelBytes ++ data.take n)
    [data.drop n] := held.direct data
  have logged : ∀ o ∈ [Obs.accepted data, Obs.write data r], o.Drained := by
    intro o ho
    rcases List.mem_pair.mp ho with rfl | rfl <;> trivial
  cases r with
  | fatal text => cases alive
  | ok n =>
      simp only [Tcp.directWrite]
      split_ifs with whole
      · have all := kept n
        rw [List.take_of_length_le whole, List.drop_of_length_le whole] at all
        refine ⟨h.plain, ?_, h.size, h.chunks, ?_⟩
        · simp only [Cfg.acceptedBytes, Cfg.kernelBytes, Cfg.emit, List.flatMap_append,
            List.flatMap_singleton, Obs.acceptedBytes, Obs.kernelBytes, WriteResult.taken,
            List.append_nil, empty, List.take_of_length_le whole]
          simpa [Conserved, Cfg.acceptedBytes, Cfg.kernelBytes] using all
        · intro o ho
          simp only [Cfg.emit, List.append_assoc, List.mem_append, List.singleton_append] at ho
          exact ho.elim (h.drained o) (logged o)
      · refine h.bufAdded data [.accepted data, .write data (.ok n)] ?_ rfl ?_ logged ?_ ?_
        · intro gone
          exact whole (List.drop_eq_nil_iff.mp gone)
        · simp [Cfg.setState, Cfg.emit]
        · simp [Obs.acceptedBytes]
        · simpa [empty, Obs.kernelBytes, WriteResult.taken] using kept n
  | interrupted | wouldBlock =>
      simp only [Tcp.directWrite]
      refine h.bufAdded data [.accepted data, .write data _] hne rfl ?_ logged ?_ ?_
      · simp [Cfg.setState, Cfg.emit]
      · simp [Obs.acceptedBytes]
      · simpa [empty, Obs.kernelBytes, WriteResult.taken] using kept 0

theorem Intact.tryWrite {c : Cfg σ} (h : Intact c) (data : Bytes) {env : Env}
    (alive : env.nextWrite.isFatal = false) : Intact (tryWrite c data env) := by
  simp only [Tcp.tryWrite]
  split_ifs with weof empty _ tls zero
  · exact h.emit ⟨rfl, rfl, trivial⟩
  · exact h
  · exact h.of_eq rfl rfl
  · exact absurd tls (by simp [Cfg.emit, h.plain])
  · exact h.directWrite empty (h.empty_iff.mp zero) alive
  · refine h.bufAdded data [.accepted data] empty rfl rfl ?_ ?_ ?_
    · simp [Obs.Drained]
    · simp [Obs.acceptedBytes]
    · simpa [Obs.kernelBytes] using h.balanced.push data

theorem Tuned.intact {c d : Cfg σ} (tuned : Tuned c d) (h : Intact c) : Intact d := by
  cases tuned with
  | unchanged => exact h
  | set | borrowed | pauseReading | resumeReading => exact h.of_eq rfl rfl
  | raised => exact h.emit ⟨rfl, rfl, trivial⟩
  | shutdown _ drained =>
      exact h.neutral (o := .shutdown c.tr.state.writeBuf)
        ⟨rfl, rfl, h.empty_iff.mp drained⟩ rfl rfl
  | pauseWriting =>
      exact h.neutral (o := .callback .pauseWriting c.tr.state.writeBuf) ⟨rfl, rfl, trivial⟩ rfl rfl

/-- Calls that leave the connection to end in an orderly way. -/
def Method.orderly : Method → Bool
  | .abort | .callConnectionLost => false
  | _ => true

theorem Intact.method {c : Cfg σ} (h : Intact c) {m : Method} (orderly : m.orderly = true)
    {env : Env} (alive : env.nextWrite.isFatal = false) : Intact (m.run R c env) := by
  cases m with
  | write data => exact h.tryWrite data alive
  | writelines data => exact h.tryWrite data.flatten alive
  | close => exact h.close env
  | abort | callConnectionLost => cases orderly
  | writeEof | pauseReading | resumeReading | setWriteBufferLimits | isTls | getWriteBufferSize =>
      exact (Method.tuned rfl c env).intact h

theorem Intact.received {c : Cfg σ} (h : Intact c) (data : Option Bytes) (eof : Bool) :
    Intact (received (c, data, eof)) := by
  cases data with
  | some data => exact h.call (by simp) _
  | none =>
      cases eof with
      | true => exact (h.of_eq (d := c.streamRem .readable) rfl rfl).call (by simp) _
      | false => exact h

theorem Intact.readRound {c : Cfg σ} (h : Intact c) (env : Env) : Intact (readRound R c env) := by
  simp only [Tcp.readRound]
  split_ifs
  · exact h.call (by simp) _
  · have emitted := h.emit (o := .recv (readInto readBufSize env.reads).1) ⟨rfl, rfl, trivial⟩
    simp only [recvDirect, h.plain]
    exact emitted.received _ _

theorem Intact.recvBuffered {c : Cfg σ} (h : Intact c) (size : Nat) (env : Env) :
    Intact (recvBuffered c size env) :=
  (h.emit (o := .recv (readInto size env.reads).1) ⟨rfl, rfl, trivial⟩).received _ _

theorem Intact.eofReceived {c : Cfg σ} (h : Intact c) (truthy : Bool) (env : Env) :
    Intact (eofReceived R c truthy env) := by
  have plain : c.setClosing.tr.state.tlsConn = none := h.plain
  simp only [Tcp.eofReceived, closeFromReadHandle, h.plain, plain, Option.isSome_none,
    Bool.false_eq_true, false_and, if_false]
  split_ifs with _ _ pending
  · exact h
  · exact h
  · exact h.of_eq rfl rfl
  · exact (h.of_eq (d := c.setClosing.streamRem .writable) rfl rfl).lost (not_not.mp pending) none _

/-- What the loop of the write handle does without a fatal error. -/
theorem writeLoop_spec (results : List WriteResult) (buf : List Bytes) (total sent : Bytes)
    (alive : ∀ r ∈ results, r.isFatal = false) (chunks : ∀ chunk ∈ buf, chunk ≠ [])
    (balanced : Conserved total sent buf) :
    ∃ left n obs, writeLoop results buf = (left, some n, obs) ∧ held left + n = held buf ∧
      (∀ chunk ∈ left, chunk ≠ []) ∧ Conserved total (sent ++ obs.flatMap Obs.kernelBytes) left ∧
      obs.flatMap Obs.acceptedBytes = [] ∧ ∀ o ∈ obs, o.Drained := by
  induction results generalizing buf sent with
  | nil =>
      cases buf with
      | nil => exact ⟨[], 0, [], rfl, rfl, chunks, (by simpa using balanced), rfl, by simp⟩
      | cons data buf =>
          refine ⟨_, 0, _, rfl, rfl, chunks, ?_, rfl, ?_⟩
          · simpa [Obs.kernelBytes, WriteResult.taken] using balanced
          · simp [Obs.Drained]
  | cons r results ih =>
      cases buf with
      | nil =>
          cases r <;> exact ⟨[], 0, [], rfl, rfl, chunks, (by simpa using balanced), rfl, by simp⟩
      | cons data buf =>
          have later : ∀ r ∈ results, r.isFatal = false :=
            fun r hr => alive r (List.mem_cons_of_mem _ hr)
          have rest : ∀ chunk ∈ buf, chunk ≠ [] :=
            fun chunk hc => chunks chunk (List.mem_cons_of_mem _ hc)
          cases r with
          | fatal text =>
              exact absurd (alive (.fatal text) (by simp)) (by simp [WriteResult.isFatal])
          | wouldBlock =>
              refine ⟨_, 0, _, rfl, rfl, chunks, ?_, rfl, ?_⟩
              · simpa [Obs.kernelBytes, WriteResult.taken] using balanced
              · simp [Obs.Drained]
          | interrupted =>
              obtain ⟨left, n, obs, hloop, hheld, hleft, hbal, hacc, hdr⟩ :=
                ih (data :: buf) sent later chunks balanced
              refine ⟨left, n, .write data .interrupted :: obs, ?_, hheld, hleft, ?_, hacc, ?_⟩
              · simp only [writeLoop, hloop]
              · simpa [Obs.kernelBytes, WriteResult.taken] using hbal
              · exact List.forall_mem_cons.mpr ⟨trivial, hdr⟩
          | ok n =>
              by_cases part : n < data.length
              · refine ⟨data.drop n :: buf, n, [.write data (.ok n)], ?_, ?_, ?_, ?_, rfl, ?_⟩
                · simp only [writeLoop, if_pos part]
                · simp only [held_cons, List.length_drop]
                  omega
                · refine List.forall_mem_cons.mpr ⟨?_, rest⟩
                  intro gone
                  exact absurd (List.drop_eq_nil_iff.mp gone) (Nat.not_le.mpr part)
                · simpa [Obs.kernelBytes, WriteResult.taken] using balanced.advance n
                · simp [Obs.Drained]
              · have whole : data.take n = data := List.take_of_length_le (Nat.not_lt.mp part)
                obtain ⟨left, m, obs, hloop, hheld, hleft, hbal, hacc, hdr⟩ :=
                  ih buf (sent ++ data) later rest balanced.pop
                refine ⟨left, data.length + m, .write data (.ok n) :: obs, ?_, ?_, hleft, ?_,
                  hacc, ?_⟩
                · simp only [writeLoop, if_neg part, hloop, Option.map_some]
                · rw [held_cons, ← hheld]
                  omega
                · simpa [Obs.kernelBytes, WriteResult.taken, whole] using hbal
                · exact List.forall_mem_cons.mpr ⟨trivial, hdr⟩

theorem Intact.finishWrite {c : Cfg σ} (h : Intact c) {streamClose : Option Bool}
    (drained : streamClose = some false → c.tr.state.writeBuf = []) (env : Env) :
    Intact (finishWrite R c streamClose env) := by
  simp only [Tcp.finishWrite]
  have removed : Intact (if c.tr.state.writeBuf = [] then c.streamRem .writable else c) := by
    split_ifs
    · exact h.of_eq rfl rfl
    · exact h
  cases streamClose with
  | none => exact removed
  | some stop =>
      cases stop with
      | true => exact removed.tcpStreamClose _ env
      | false =>
          have empty := drained rfl
          rw [if_pos empty] at removed ⊢
          exact removed.neutral (o := .shutdown c.tr.state.writeBuf) ⟨rfl, rfl, empty⟩ rfl rfl

theorem Intact.afterWrite {c : Cfg σ} (h : Intact c) (env : Env) : Intact (afterWrite R c env) := by
  simp only [Tcp.afterWrite, h.plain]
  split_ifs with empty _
  · exact h.finishWrite (by simp) env
  · simp only [closeFromWriteHandle, Bool.false_eq_true, if_false]
    split_ifs
    · exact h.lost empty none _
    · exact h.finishWrite (fun _ => empty) env
    · exact h.finishWrite (fun _ => empty) env
  · exact h.finishWrite (by simp) env

/-- The write handle's pass over the queue, when no `write(2)` fails for good. -/
theorem Intact.writePlain {c : Cfg σ} (h : Intact c) {env : Env}
    (alive : ∀ r ∈ env.writes, r.isFatal = false) : ∃ n, (writePlain c env).2 = some n ∧ Intact
    (writePlain c env).1 := by
  obtain ⟨left, n, obs, hloop, hheld, hleft, hbal, hacc, hdr⟩ :=
    writeLoop_spec env.writes c.tr.state.writeBuf c.acceptedBytes c.kernelBytes alive h.chunks
      h.balanced
  simp only [Tcp.writePlain, hloop, Option.elim_some]
  refine ⟨n, rfl, h.plain, ?_, ?_, hleft, ?_⟩
  · simp only [Cfg.acceptedBytes, Cfg.kernelBytes, List.flatMap_append, hacc, List.append_nil]
    exact hbal
  · have size := h.size
    simp only [Cfg.setState]
    omega
  · intro o ho
    exact (List.mem_append.mp ho).elim (h.drained o) (hdr o)

theorem Intact.writeHandleRun {c : Cfg σ} (h : Intact c) {env : Env}
    (alive : ∀ r ∈ env.writes, r.isFatal = false) : Intact (writeHandleRun R c env) := by
  have noTimeout : closeTimedOut c.tr.state env.now = false := by
    simp [closeTimedOut, h.plain]
  obtain ⟨n, wrote, after⟩ := h.writePlain alive
  simp only [Tcp.writeHandleRun, noTimeout, Bool.false_eq_true, if_false, h.plain]
  generalize Tcp.writePlain c env = result at wrote after
  obtain ⟨d, ret⟩ := result
  cases wrote
  simp only [written]
  split_ifs
  · exact (after.of_eq (d := { d with tr := { d.tr with protoPaused := false } }) rfl rfl).call
      (by simp) _
  · exact after.afterWrite env

theorem Intact.after {c : Cfg σ} (h : Intact c) (frame : Frame) (r : Ret) (env : Env) :
    Intact (frame.after R c r env) := by
  cases frame with
  | attach =>
      simp only [Frame.after, register]
      split_ifs
      · exact h
      · exact h.of_eq rfl rfl
  | connectionMade | pause => exact h
  | getBuffer =>
      cases r with
      | buffer size => exact h.recvBuffered size env
      | falsy | truthy | raised => exact h.of_eq rfl rfl
  | data ended =>
      cases ended with
      | true => exact (h.of_eq (d := c.streamRem .readable) rfl rfl).call (by simp) _
      | false => exact h.readRound env
  | eof => exact h.eofReceived _ env
  | lost k =>
      cases k with
      | writeHandle =>
          change Intact (Tcp.finishWrite R c (some true) env)
          exact h.finishWrite (by simp) env
      | callConnLost | tryWrite | recvEof | readHandle => exact h.tcpStreamClose _ env
  | resume => exact h.afterWrite env

/-- No abort, and no system call that fails for good. -/
def Undisturbed (a : Act × Env) : Prop :=
  (∀ r ∈ a.2.writes, r.isFatal = false) ∧
    match a.1 with
    | .call m => m.orderly = true
    | .server aborts => aborts = false
    | _ => True

theorem nextWrite_alive {env : Env} (alive : ∀ r ∈ env.writes, r.isFatal = false) :
    env.nextWrite.isFatal = false := by
  rcases env with ⟨reads, writes, now⟩
  cases writes with
  | nil => rfl
  | cons r writes => exact alive r (by simp)

theorem Intact.step {c d : Cfg σ} {a : Act × Env} (h : Intact c) (undisturbed : Undisturbed a)
    (hstep : step R c a = some d) : Intact d := by
  obtain ⟨act, env⟩ := a
  obtain ⟨alive, orderly⟩ := undisturbed
  cases (step_stepped hstep).2 with
  | call m => exact h.method orderly (nextWrite_alive alive)
  | server aborts =>
      cases orderly
      exact h.method rfl (nextWrite_alive alive)
  | ret r frame stack => exact (h.of_eq (d := { c with stack := stack }) rfl rfl).after frame r env
  | poll => exact h.of_eq rfl rfl
  | fire dir =>
      have taken : Intact { c with tables := { c.tables with event := none } } := h.of_eq rfl rfl
      simp only [Tcp.fire]
      split_ifs
      · cases dir with
        | readable => exact taken.readRound env
        | writable => exact taken.writeHandleRun alive
      · exact taken
  | made =>
      exact h.neutral (o := .callback .connectionMade c.tr.state.writeBuf)
        ⟨rfl, rfl, trivial⟩ rfl rfl

/-- A plain connection, accepted or opened by the client. -/
inductive PlainStart (R : Rustls σ) : Cfg σ → Prop where
  | accepted (lfd : Nat) (protoBuffered : Bool) (timeout : Nat) :
      PlainStart R (Tcp.accepted lfd none protoBuffered timeout)
  | connected (protoBuffered : Bool) (timeout : Nat) :
      PlainStart R (Tcp.connected R none protoBuffered timeout)

theorem PlainStart.intact {c : Cfg σ} (h : PlainStart R c) : Intact c := by
  cases h with
  | accepted lfd protoBuffered timeout =>
      exact ⟨rfl, rfl, rfl, by simp [Tcp.accepted, newTransport], by simp [Tcp.accepted]⟩
  | connected protoBuffered timeout =>
      exact ⟨rfl, rfl, rfl, by simp [Tcp.connected, newTransport, Cfg.call, Cfg.emit],
        by simp [Tcp.connected, Cfg.call, Cfg.emit, Obs.Drained]⟩

/-- Nothing accepted is lost, repeated or reordered, and neither the half-close nor
`connection_lost` comes before the buffer is empty. -/
structure Outbound (c : Cfg σ) : Prop where
  integrity : c.kernelBytes ++ c.tr.state.writeBuf.flatten = c.acceptedBytes
  shutdown : ∀ buffered, .shutdown buffered ∈ c.log → buffered = []
  lost : ∀ err buffered, .callback (.connectionLost err) buffered ∈ c.log → buffered = []

theorem plain_outbound (R : Rustls σ) (actions : List (Act × Env)) (start c : Cfg σ)
    (hstart : PlainStart R start) (h : Runs.run (step R) start actions = some c)
    (undisturbed : ∀ a ∈ actions, Undisturbed a) : Outbound c := by
  have intact : Intact c := Runs.run_preserves (G := fun _ a => Undisturbed a)
    (fun _ _ _ inv good hstep => inv.step good hstep) h hstart.intact
    (Runs.guarded_of_forall undisturbed)
  refine ⟨intact.balanced, ?_, ?_⟩
  · intro buffered hmem
    exact intact.drained (.shutdown buffered) hmem
  · intro err buffered hmem
    exact intact.drained (.callback (.connectionLost err) buffered) hmem

/-- Without TLS there is no connection to operate on. -/
def noTls : Rustls Empty where
  readTls conn := conn.elim
  processNewPackets conn := conn.elim
  isHandshaking conn := conn.elim
  wantsWrite conn := conn.elim
  read conn := conn.elim
  plaintextLeft conn := conn.elim
  write conn := conn.elim
  writeTls conn := conn.elim
  sendCloseNotify conn := conn
  read_shrinks conn := conn.elim
  read_wants conn := conn.elim

/-- Two bytes written of which the kernel takes one at once, a half-close and a close
while the other one waits, and the write handle that sends it. -/
def partialWrite : List (Act × Env) :=
  [(.ret .falsy, ⟨[], [], 0⟩), (.call (.write [1, 2]), ⟨[], [.ok 1], 0⟩),
      (.call .writeEof, ⟨[], [], 0⟩),
    (.call .close, ⟨[], [], 0⟩), (.poll .writable, ⟨[], [], 0⟩),
    (.fire, ⟨[], [.interrupted, .ok 1], 0⟩)]

theorem plain_outbound_partial :
    ∃ c, Runs.run (step noTls) (connected noTls none false 1000) partialWrite = some c ∧
      c.kernelBytes = [1, 2] ∧ c.stack = [.lost .writeHandle] ∧ Outbound c := by
  refine ⟨_, rfl, rfl, rfl, ?_⟩
  refine plain_outbound noTls partialWrite _ _ (.connected false 1000) rfl ?_
  simp [partialWrite, Undisturbed, WriteResult.isFatal, Method.orderly]

end TokioLoop.Tcp
