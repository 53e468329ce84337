import TokioLoop.TcpErrors

/-!
Half-close. The peer ends its direction of the connection, and what `eof_received`
answers decides whether the transport closes too. The contract is stated of a view that
both TCP transports have, and RLoop's plain transport keeps it.
-/
namespace TokioLoop

/-- A transport around the end of its input. `declined` says that `eof_received` has
returned and its value was not truthy; `flying` and `queue` are the accepted bytes that
are not sent; `idle` holds between two turns of the transport's code, and `served` says
that the next turns write the queue. -/
structure HalfCloseView where
  answered : Prop
  declined : Prop
  lost : Prop
  lostHolding : Prop
  accepted : List UInt8
  sent : List UInt8
  flying : List UInt8
  queue : List (List UInt8)
  idle : Prop
  served : Prop

/-- As long as no one closes or aborts and the socket does not fail: the connection is
not lost unless `eof_received` declined, every accepted byte is sent in order or waits to
be, and after a decline `connection_lost` comes when the queue is empty, not before. -/
structure HalfCloseView.Kept (v : HalfCloseView) : Prop where
  stays : v.lost → v.declined
  whole : v.sent ++ v.flying ++ v.queue.flatten = v.accepted
  serves : v.answered → v.idle → v.queue ≠ [] → ¬ v.lost → v.served
  closes : v.declined → v.idle → v.queue = [] → v.lost
  flushes : ¬ v.lostHolding

namespace Tcp

open Runs

variable {σ : Type} {R : Rustls σ}

/-- A transport, and what `eof_received` has answered so far. -/
structure Answered (σ : Type) where
  cfg : Cfg σ
  answered : Bool
  declined : Bool

def answerStep (R : Rustls σ) (s : Answered σ) (a : Act × Env) : Option (Answered σ) :=
  (step R s.cfg a).map fun cfg =>
    match a.1, s.cfg.stack with
    | .ret r, .eof :: _ => { cfg, answered := true, declined := s.declined || r != .truthy }
    | _, _ => { s with cfg }

def Answered.view (s : Answered σ) : HalfCloseView where
  answered := s.answered = true
  declined := s.declined = true
  lost := s.cfg.lostCalls ≠ []
  lostHolding := ∃ err buffered, .callback (.connectionLost err) buffered ∈ s.cfg.log ∧
      buffered ≠ []
  accepted := s.cfg.acceptedBytes
  sent := s.cfg.kernelBytes
  flying := []
  queue := s.cfg.tr.state.writeBuf
  idle := s.cfg.stack = []
  served := s.cfg.tables.bound = true ∧ s.cfg.watches .writable = true

/-- No close or abort, from outside or from the protocol, and no write that fails for good. -/
def Gentle (a : Act × Env) : Prop :=
  Undisturbed a ∧ a.1 ≠ .call .close ∧ ∀ aborts, a.1 ≠ .server aborts

structure Quiet (c d : Cfg σ) : Prop where
  same : Same c d
  closing : d.tr.closing = c.tr.closing
  waiting : c.tr.state.writeBuf ≠ [] → d.tr.state.writeBuf ≠ []
  watches : (c.tr.state.writeBuf ≠ [] → c.watches .writable = true) →
    d.tr.state.writeBuf ≠ [] → d.watches .writable = true
  resumes : .resume ∈ c.stack → .resume ∈ d.stack

theorem Quiet.trans {b c d : Cfg σ} (first : Quiet b c) (second : Quiet c d) : Quiet b d where
  same := first.same.trans second.same
  closing := second.closing.trans first.closing
  waiting := second.waiting ∘ first.waiting
  watches := second.watches ∘ first.watches
  resumes := second.resumes ∘ first.resumes

/-- Code that leaves the buffer and its registration as they are. -/
theorem Quiet.of_eq {c d : Cfg σ} (same : Same c d) (closing : d.tr.closing = c.tr.closing)
    (buf : d.tr.state.writeBuf = c.tr.state.writeBuf)
    (watches : c.watches .writable = true → d.watches .writable = true)
    (resumes : .resume ∈ c.stack → .resume ∈ d.stack) : Quiet c d where
  same := same
  closing := closing
  waiting h := buf ▸ h
  watches before h := watches (before (buf ▸ h))
  resumes := resumes

theorem Quiet.refl (c : Cfg σ) : Quiet c c := .of_eq (.refl c) rfl rfl id id

theorem Quiet.emit (c : Cfg σ) {o : Obs} (alive : o.lostWith = none) : Quiet c (c.emit o) :=
  .of_eq (.emit c alive) rfl rfl id id

theorem Quiet.call (c : Cfg σ) {e : Callback} {frame : Frame}
    (alive : (Obs.callback e c.tr.state.writeBuf).lostWith = none)
    (other : frame.afterLost = none) : Quiet c (c.call e frame) :=
  .of_eq (.call c alive other) rfl rfl id (List.mem_cons_of_mem _)

theorem Quiet.stopReading (c : Cfg σ) : Quiet c (c.streamRem .readable) :=
  .of_eq ⟨rfl, rfl, id, rfl, rfl, rfl⟩ rfl rfl
    (fun h => by rwa [watches_streamRem_other (by decide)]) id

theorem Quiet.startReading (c : Cfg σ) : Quiet c (c.streamAdd .readable) :=
  .of_eq ⟨rfl, rfl, id, rfl, rfl, rfl⟩ rfl rfl watches_streamAdd_mono id

theorem Quiet.popped {c : Cfg σ} {frame : Frame} {stack : List Frame} (h : c.stack = frame :: stack)
    (other : frame.afterLost = none) (apart : frame ≠ .resume) : Quiet c
    { c with stack := stack } := by
  refine .of_eq (.popped h other) rfl rfl id fun there => ?_
  rw [h] at there
  exact (List.mem_cons.mp there).resolve_left apart.symm

theorem pushBack_quiet {c : Cfg σ} (size : c.tr.state.writeBufDsize = 0 ↔ c.tr.state.writeBuf = [])
    (data : Bytes) : Quiet c (pushBack c data) where
  same := pushBack_same c data
  closing := by
    simp only [pushBack, bufAdded, grow]
    split_ifs <;> rfl
  waiting _ := by
    simp only [pushBack, bufAdded, grow]
    split_ifs <;> exact List.append_ne_nil_of_right_ne_nil _ (List.cons_ne_nil _ _)
  watches before _ := by
    by_cases zero : c.tr.state.writeBufDsize = 0
    · have added : ∀ e : Cfg σ, (e.streamAdd .writable).watches .writable = true :=
        fun e => watches_streamAdd_same e .writable
      simp only [pushBack, bufAdded, grow, Cfg.setState, zero, if_true]
      split_ifs <;> exact added _
    · have there := before (mt size.mpr zero)
      simp only [pushBack, bufAdded, grow, Cfg.setState, zero, if_false]
      split_ifs <;> exact there
  resumes h := by
    simp only [pushBack, bufAdded, grow]
    split_ifs
    all_goals first | exact List.mem_cons_of_mem _ h | exact h

theorem tryWrite_quiet {c : Cfg σ} (h : Intact c) (data : Bytes) {env : Env}
    (alive : env.nextWrite.isFatal = false) : Quiet c (tryWrite c data env) := by
  have noTls : (c.emit (.accepted data)).tr.state.tlsConn.isSome = false := by
    rw [Cfg.emit, h.plain]
    rfl
  have pushed : ∀ (obs : List Obs) (rest : Bytes),
      Quiet { c with log := obs } (pushBack { c with log := obs } rest) :=
    fun obs rest => pushBack_quiet (c := { c with log := obs }) h.empty_iff rest
  simp only [tryWrite, noTls, Bool.false_eq_true, if_false]
  split_ifs with weof empty held zero
  · exact .emit c rfl
  · exact .refl c
  · exact .of_eq ⟨rfl, rfl, id, rfl, rfl, rfl⟩ rfl rfl id id
  · have wrote : Quiet c ((c.emit (.accepted data)).emit (.write data env.nextWrite)) :=
      (Quiet.emit c rfl).trans (.emit _ rfl)
    simp only [directWrite]
    split
    · split_ifs
      · exact wrote
      · exact wrote.trans (pushed _ _)
    · exact wrote.trans (pushed _ _)
    · exact wrote.trans (pushed _ _)
    next failed =>
      rw [failed] at alive
      cases alive
  · exact (Quiet.emit c (o := .accepted data) rfl).trans (pushed _ _)

theorem Tuned.quiet {c d : Cfg σ} (h : Tuned c d) : Quiet c d := by
  have moved : ∀ e : Cfg σ, e.tr.state = c.tr.state → e.tr.closing = c.tr.closing →
    e.tables = c.tables →
      e.stack = c.stack → e.log = c.log → Quiet c e := by
    intro e state closing tables stack log
    refine .of_eq ⟨by rw [state], by rw [state], by rw [closing]; exact id, by rw [tables],
      by rw [Cfg.lostCalls, log]; rfl, by rw [Cfg.lostFrames, stack]; rfl⟩ closing
      (by rw [state]) ?_ (by rw [stack]; exact id)
    rw [Cfg.watches, Cfg.watches, tables]
    exact id
  cases h with
  | unchanged => exact .refl c
  | set | borrowed => exact moved _ rfl rfl rfl rfl rfl
  | raised => exact .emit c rfl
  | shutdown =>
      exact Quiet.trans (c := { c with tr := { c.tr with weof := true } })
        (moved _ rfl rfl rfl rfl rfl) (.emit _ rfl)
  | pauseReading =>
      exact Quiet.trans (c := { c with tr := { c.tr with paused := true } })
        (moved _ rfl rfl rfl rfl rfl) (.stopReading _)
  | resumeReading =>
      exact Quiet.trans (c := { c with tr := { c.tr with paused := false } })
        (moved _ rfl rfl rfl rfl rfl) (.startReading _)
  | pauseWriting waterHi waterLo =>
      exact Quiet.trans (c := { c with tr := { c.tr with
        waterHi := waterHi
        waterLo := waterLo
        protoPaused := true } }) (moved _ rfl rfl rfl rfl rfl) (.call _ rfl rfl)

theorem method_quiet {c : Cfg σ} (h : Intact c) {m : Method} (orderly : m.orderly = true)
    (opened : m ≠ .close) {env : Env} (alive : env.nextWrite.isFatal = false) : Quiet c
    (m.run R c env) := by
  cases m with
  | write data => exact tryWrite_quiet h data alive
  | writelines data => exact tryWrite_quiet h data.flatten alive
  | close => exact absurd rfl opened
  | abort | callConnectionLost => cases orderly
  | writeEof | pauseReading | resumeReading | setWriteBufferLimits | isTls | getWriteBufferSize =>
      exact (Method.tuned rfl c env).quiet

theorem received_quiet (c : Cfg σ) (data : Option Bytes)
    (eof : Bool) : Quiet c (received (c, data, eof)) := by
  cases data with
  | some data => exact .call c rfl rfl
  | none =>
      cases eof with
      | true => exact (Quiet.stopReading c).trans (.call _ rfl rfl)
      | false => exact .refl c

theorem readRound_quiet {c : Cfg σ} (plain : c.tr.state.tlsConn = none)
    (env : Env) : Quiet c (readRound R c env) := by
  simp only [readRound]
  split_ifs
  · exact .call c rfl rfl
  · simp only [recvDirect, plain]
    exact (Quiet.emit c rfl).trans (received_quiet _ _ _)

/-- The end of a write handle that leaves the connection open. -/
theorem finishWrite_quiet (c : Cfg σ) {streamClose : Option Bool} (half : streamClose ≠ some true)
    (env : Env) : Quiet c (finishWrite R c streamClose env) := by
  have drained : Quiet c (if c.tr.state.writeBuf = [] then c.streamRem .writable else c) := by
    split_ifs with empty
    · exact ⟨⟨rfl, rfl, id, rfl, rfl, rfl⟩, rfl, id, fun _ waiting => absurd empty waiting, id⟩
    · exact .refl c
  simp only [finishWrite]
  split
  · exact absurd rfl half
  · exact drained.trans (.emit _ rfl)
  · exact drained

/-- `connection_lost` comes only while the transport is closing, and what waits is
watched by the poller. -/
structure Standing (c : Cfg σ) : Prop where
  intact : Intact c
  noPending : c.tr.state.tlsPendingClose = false
  closed : c.lostCalls ≠ [] → c.tr.closing = true
  returning : c.lostFrames ≠ [] → c.lostCalls ≠ []
  watched : c.tr.state.writeBuf ≠ [] → c.watches .writable = true

/-- A closing transport has been lost, or still has code to run for it. -/
def Due (c : Cfg σ) : Prop :=
  c.tr.closing = true → c.lostCalls = [] → c.tr.state.writeBuf ≠ [] ∨ .resume ∈ c.stack

theorem Quiet.standing {c d : Cfg σ} (h : Quiet c d) (intact : Intact d) (standing : Standing c) :
    Standing d where
  intact := intact
  noPending := h.same.pending.trans standing.noPending
  closed lost := h.closing.trans (standing.closed (h.same.calls ▸ lost))
  returning frames := h.same.calls ▸ standing.returning (h.same.frames ▸ frames)
  watched := h.watches standing.watched

theorem Quiet.due {c d : Cfg σ} (h : Quiet c d) (due : Due c) : Due d := fun closing alive =>
  (due (h.closing ▸ closing) (h.same.calls ▸ alive)).imp h.waiting h.resumes

theorem lostCall_calls (c : Cfg σ) (k : AfterLost) : (callConnLost c none k).lostCalls ≠ [] := by
  rw [lostCalls_call]
  exact List.append_ne_nil_of_right_ne_nil _ (List.cons_ne_nil _ _)

theorem Standing.lost {c : Cfg σ} (h : Standing c) (closing : c.tr.closing = true)
    (empty : c.tr.state.writeBuf = []) (k : AfterLost) : Standing (callConnLost c none k) where
  intact := h.intact.lost empty none _
  noPending := h.noPending
  closed _ := closing
  returning _ := lostCall_calls c k
  watched := h.watched

theorem due_lost (c : Cfg σ) (k : AfterLost) : Due (callConnLost c none k) :=
  fun _ alive => absurd alive (lostCall_calls c k)

/-- The transport is in the table until it is lost. -/
def Known (c : Cfg σ) : Prop := c.tables.bound = true ∨ c.lostCalls ≠ []

/-- The end of a piece of code that may lose the connection. -/
structure Settles (c d : Cfg σ) (closing : Bool) : Prop where
  standing : Standing d
  due : Due d
  closing : d.tr.closing = closing
  known : Known c → Known d

theorem Quiet.known {c d : Cfg σ} (h : Quiet c d) (known : Known c) : Known d := by
  rw [Known, h.same.bound, h.same.calls]
  exact known

/-- After the queue is written a closing transport is lost. -/
theorem Standing.afterWrite {c : Cfg σ} (h : Standing c) (env : Env) :
    Settles c (afterWrite R c env) c.tr.closing := by
  have finished : ∀ streamClose : Option Bool, streamClose ≠ some true →
      (streamClose = some false → c.tr.state.writeBuf = []) →
      (c.tr.closing = true → c.tr.state.writeBuf ≠ []) →
      Settles c (finishWrite R c streamClose env) c.tr.closing := by
    intro streamClose half drained waiting
    have quiet := finishWrite_quiet (R := R) c half env
    refine ⟨quiet.standing (h.intact.finishWrite drained env) h, fun closing _ => .inl ?_,
      quiet.closing, quiet.known⟩
    exact quiet.waiting (waiting (quiet.closing ▸ closing))
  simp only [Tcp.afterWrite, h.noPending, Bool.false_eq_true, if_false, closeFromWriteHandle]
  split_ifs with empty closing
  · exact ⟨h.lost closing empty .writeHandle, due_lost c .writeHandle, rfl,
      fun _ => .inr (lostCall_calls c .writeHandle)⟩
  · exact finished _ (by simp) (fun _ => empty) fun c => absurd c closing
  · exact finished _ (by simp) (fun _ => empty) fun c => absurd c closing
  · exact finished _ (by simp) (by simp) fun _ => empty

theorem Standing.of_eq {c d : Cfg σ} (h : Standing c) (state : d.tr.state = c.tr.state)
    (closing : c.tr.closing = true → d.tr.closing = true) (log : d.log = c.log)
    (frames : d.lostFrames ≠ [] → c.lostFrames ≠ [])
    (watches : c.tr.state.writeBuf ≠ [] → c.watches .writable = true → d.watches .writable = true) :
    Standing d := by
  have calls : d.lostCalls = c.lostCalls := by
    rw [Cfg.lostCalls, log]
    rfl
  refine ⟨h.intact.of_eq state log, state ▸ h.noPending, ?_, ?_, ?_⟩
  · intro lost
    exact closing (h.closed (calls ▸ lost))
  · intro returning
    exact calls ▸ h.returning (frames returning)
  · intro waiting
    rw [state] at waiting
    exact watches waiting (h.watched waiting)

theorem eofReceived_standing {c : Cfg σ} (h : Standing c) (due : Due c) (truthy : Bool)
    (env : Env) : Settles c (eofReceived R c truthy env) (c.tr.closing || !truthy) := by
  have plain : c.setClosing.tr.state.tlsConn = none := h.intact.plain
  simp only [eofReceived, closeFromReadHandle, h.intact.plain, plain, Option.isSome_none,
    Bool.false_eq_true, false_and, if_false]
  split_ifs with answer closing waiting
  · exact ⟨h, due, by simp [answer], id⟩
  · exact ⟨h, due, by simp [closing], id⟩
  · have closed : (c.tr.closing || !truthy) = true := by simp [answer]
    exact ⟨h.of_eq rfl (fun _ => rfl) rfl id fun _ => id, fun _ _ => .inl waiting, closed.symm, id⟩
  · have closed : (c.tr.closing || !truthy) = true := by simp [answer]
    have empty : c.tr.state.writeBuf = [] := not_not.mp waiting
    have stopped : Standing (c.setClosing.streamRem .writable) :=
      h.of_eq rfl (fun _ => rfl) rfl id fun waiting => absurd empty waiting
    exact ⟨stopped.lost rfl empty .readHandle, due_lost _ .readHandle, closed.symm,
      fun _ => .inr (lostCall_calls _ .readHandle)⟩

/-- What the end of a lost plain connection leaves. -/
theorem tcpStreamClose_keeps {c : Cfg σ} (plain : c.tr.state.tlsConn = none) (held : Bool)
    (env : Env) : (tcpStreamClose R c held env).tr = c.tr ∧
    (tcpStreamClose R c held env).log = c.log ∧
      (tcpStreamClose R c held env).stack = c.stack ∧
      (tcpStreamClose R c held env).tables.interest = c.tables.interest := by
  have noTls : c.unbind.tr.state.tlsConn.isSome = false := by
    rw [Cfg.unbind, plain]
    rfl
  simp only [tcpStreamClose, noTls, Bool.false_eq_true, if_false, Cfg.unlist]
  split_ifs <;> exact ⟨rfl, rfl, rfl, rfl⟩

theorem lostReturn_standing {c : Cfg σ} (h : Standing c) {k : AfterLost} {stack : List Frame}
    (hstack : c.stack = .lost k :: stack) (r : Ret) (env : Env) :
    Standing ((Frame.lost k).after R { c with stack := stack } r env) ∧
      ((Frame.lost k).after R { c with stack := stack } r env).lostCalls ≠ [] ∧
      ((Frame.lost k).after R { c with stack := stack } r env).tr.closing = c.tr.closing := by
  have frames : c.lostFrames ≠ [] := by
    rw [Cfg.lostFrames, hstack]
    exact List.cons_ne_nil _ _
  have ended : ∀ e : Cfg σ, e.tr = c.tr → e.log = c.log →
      (c.tr.state.writeBuf ≠ [] → e.tables.interest = c.tables.interest) → ∀ held,
      Standing (tcpStreamClose R e held env) ∧ (tcpStreamClose R e held env).lostCalls ≠ [] ∧
        (tcpStreamClose R e held env).tr.closing = c.tr.closing := by
    intro e tr log interest held
    obtain ⟨tr', log', -, interest'⟩ :=
      tcpStreamClose_keeps (R := R) (by rw [tr]; exact h.intact.plain) held env
    have calls : (tcpStreamClose R e held env).lostCalls = c.lostCalls := by
      rw [Cfg.lostCalls, log', log]
      rfl
    refine ⟨h.of_eq (by rw [tr', tr]) (by rw [tr', tr]; exact id) (log'.trans log)
      (fun _ => frames) ?_, calls ▸ h.returning frames, by rw [tr', tr]⟩
    intro waiting watched
    rw [Cfg.watches, interest', interest waiting]
    exact watched
  cases k with
  | writeHandle =>
      simp only [Frame.after, finishWrite]
      split_ifs with empty
      · exact ended (Cfg.streamRem { c with stack := stack } .writable) rfl rfl
          (fun waiting => absurd empty waiting) _
      · exact ended { c with stack := stack } rfl rfl (fun _ => rfl) _
  | callConnLost | tryWrite | recvEof
  | readHandle => exact ended { c with stack := stack } rfl rfl (fun _ => rfl) _

theorem writeHandleRun_standing {c : Cfg σ} (h : Standing c) {env : Env}
    (alive : ∀ r ∈ env.writes, r.isFatal = false) :
    Settles c (writeHandleRun R c env) c.tr.closing := by
  have noTimeout : closeTimedOut c.tr.state env.now = false := by
    simp [closeTimedOut, h.intact.plain]
  obtain ⟨n, ret, intact⟩ := h.intact.writePlain alive
  have untouched := writePlain_untouched c env
  have calls : (writePlain c env).1.lostCalls = c.lostCalls :=
    Untouched.lostCalls rfl (writeLoop_silent env.writes c.tr.state.writeBuf)
  have known : Known c → Known (writePlain c env).1 := by
    rw [Known, Known, calls, untouched.tables]
    exact id
  have wrote : Standing (writePlain c env).1 := by
    refine ⟨intact, h.noPending, calls ▸ h.closed, calls ▸ h.returning, fun waiting => ?_⟩
    exact h.watched (mt untouched.empty waiting)
  have closing : (writePlain c env).1.tr.closing = c.tr.closing := rfl
  simp only [writeHandleRun, noTimeout, Bool.false_eq_true, if_false, h.intact.plain]
  generalize writePlain c env = result at ret wrote closing known
  obtain ⟨d, _⟩ := result
  cases ret
  simp only [written]
  split_ifs
  · have resumed : Quiet d ({ d with tr := { d.tr with protoPaused := false } }.call .resumeWriting
        .resume) :=
      Quiet.trans (c := { d with tr := { d.tr with protoPaused := false } })
        (.of_eq ⟨rfl, rfl, id, rfl, rfl, rfl⟩ rfl rfl id id) (.call _ rfl rfl)
    refine ⟨resumed.standing ?_ wrote, fun _ _ => .inr List.mem_cons_self,
      resumed.closing.trans closing, fun there => resumed.known (known there)⟩
    exact (wrote.intact.of_eq (d := { d with tr := { d.tr with protoPaused := false } }) rfl
      rfl).call (by simp) _
  · obtain ⟨standing, due, same, still⟩ := wrote.afterWrite (R := R) env
    exact ⟨standing, due, same.trans closing, fun there => still (known there)⟩

/-- Frames of a handle, which runs for a transport in the table. -/
def Frame.isHandle : Frame → Bool
  | .getBuffer | .data _ | .eof | .resume => true
  | _ => false

structure Answered.Sound (s : Answered σ) : Prop where
  standing : Standing s.cfg
  due : Due s.cfg
  closing : s.cfg.tr.closing = s.declined
  known : s.answered = true ∨ (∃ f ∈ s.cfg.stack, f.isHandle = true) → Known s.cfg

theorem Answered.Sound.view {s : Answered σ} (h : s.Sound) : s.view.Kept where
  stays lost := h.closing.symm.trans (h.standing.closed lost)
  whole := by
    have balanced := h.standing.intact.balanced
    simpa [Answered.view, ByteLedger.Conserved] using balanced
  serves answered _ waiting alive :=
      ⟨(h.known (.inl answered)).resolve_right alive, h.standing.watched waiting⟩
  closes declined idle empty alive := by
    rcases h.due (h.closing.trans declined) alive with waiting | resume
    · exact waiting empty
    · rw [show s.cfg.stack = [] from idle] at resume
      cases resume
  flushes := by
    rintro ⟨err, buffered, there, waiting⟩
    exact waiting (h.standing.intact.drained _ there)

theorem Answered.Sound.quiet {s : Answered σ} {d : Cfg σ} (h : s.Sound) (quiet : Quiet s.cfg d)
    (intact : Intact d) (there : (∃ f ∈ d.stack, f.isHandle = true) → Known s.cfg) :
    Answered.Sound { s with cfg := d } where
  standing := quiet.standing intact h.standing
  due := quiet.due h.due
  closing := quiet.closing.trans h.closing
  known known := quiet.known (known.elim (fun answered => h.known (.inl answered)) there)

/-- A frame above a handle's frame is not a handle's. -/
theorem Nests.handle {c d : Cfg σ} (h : Nests c d) (there : ∃ f ∈ d.stack, f.isHandle = true) :
    ∃ f ∈ c.stack, f.isHandle = true := by
  obtain ⟨f, hf, handle⟩ := there
  rcases h with same | ⟨frame, nested, one⟩
  · exact ⟨f, same ▸ hf, handle⟩
  · rw [one] at hf
    rcases List.mem_cons.mp hf with rfl | below
    · cases f <;> contradiction
    · exact ⟨f, below, handle⟩

/-- A handle's frame stands for a transport in the table, or a lost one. -/
theorem Answered.Sound.handled {s : Answered σ} (h : s.Sound) {frame : Frame} {stack : List Frame}
    (hstack : s.cfg.stack = frame :: stack) (handle : frame.isHandle = true) : Known s.cfg :=
  h.known (.inr ⟨frame, hstack ▸ List.mem_cons_self, handle⟩)

theorem Answered.Sound.returned {s : Answered σ} (h : s.Sound) {frame : Frame} {stack : List Frame}
    (hstack : s.cfg.stack = frame :: stack) (other : frame ≠ .eof) (r : Ret) (env : Env)
    (intact : Intact (frame.after R { s.cfg with stack := stack } r env)) :
    Answered.Sound { s with cfg := frame.after R { s.cfg with stack := stack } r env } := by
  have below : (∃ f ∈ stack, f.isHandle = true) → Known s.cfg := by
    rintro ⟨f, hf, handle⟩
    exact h.known (.inr ⟨f, hstack ▸ List.mem_cons_of_mem _ hf, handle⟩)
  have popped : frame.afterLost = none → frame ≠ .resume →
      Quiet s.cfg { s.cfg with stack := stack } :=
    Quiet.popped hstack
  cases frame with
  | attach =>
      simp only [Frame.after] at intact ⊢
      split_ifs at intact ⊢
      · exact h.quiet (popped rfl Frame.noConfusion) intact below
      · have quiet := popped rfl Frame.noConfusion
        refine ⟨?_, ?_, h.closing, fun _ => .inl rfl⟩
        · refine (quiet.standing (h.standing.intact.of_eq rfl rfl) h.standing).of_eq rfl id rfl id
            fun _ => ?_
          exact watches_streamAdd_mono (d := .readable)
        · exact quiet.due h.due
  | connectionMade => exact h.quiet (popped rfl Frame.noConfusion) intact below
  | pause inWrite => exact h.quiet (popped rfl Frame.noConfusion) intact below
  | getBuffer =>
      refine h.quiet ((popped rfl Frame.noConfusion).trans ?_) intact fun _ => h.handled hstack rfl
      simp only [Frame.after]
      split
      · exact (Quiet.emit _ rfl).trans (received_quiet _ _ _)
      · exact .of_eq ⟨rfl, rfl, id, rfl, rfl, rfl⟩ rfl rfl id id
  | data ended =>
      refine h.quiet ((popped rfl Frame.noConfusion).trans ?_) intact fun _ => h.handled hstack rfl
      simp only [Frame.after]
      split_ifs
      · exact (Quiet.stopReading _).trans (.call _ rfl rfl)
      · exact readRound_quiet (c := { s.cfg with stack := stack }) h.standing.intact.plain env
  | eof => exact absurd rfl other
  | lost k =>
      obtain ⟨standing, calls, closing⟩ := lostReturn_standing (R := R) h.standing hstack r env
      exact ⟨standing, fun _ alive => absurd alive calls, closing.trans h.closing, fun _ =>
        .inr calls⟩
  | resume =>
      have start : Standing { s.cfg with stack := stack } := by
        refine h.standing.of_eq rfl id rfl ?_ fun _ => id
        rw [Cfg.lostFrames, Cfg.lostFrames, hstack]
        exact id
      obtain ⟨standing, due, closing, known⟩ := start.afterWrite (R := R) env
      exact ⟨standing, due, closing.trans h.closing, fun _ => known (h.handled hstack rfl)⟩

theorem Answered.Sound.step {s t : Answered σ} {a : Act × Env} (h : s.Sound) (gentle : Gentle a)
    (hstep : answerStep R s a = some t) : t.Sound := by
  obtain ⟨d, hd, rfl⟩ := Option.map_eq_some_iff.mp hstep
  obtain ⟨act, env⟩ := a
  obtain ⟨undisturbed, noClose, noServer⟩ := gentle
  have intact := h.standing.intact.step undisturbed hd
  obtain ⟨alive, orderly⟩ := undisturbed
  cases (step_stepped hd).2 with
  | call m =>
      have quiet : Quiet s.cfg (m.run R s.cfg env) :=
        method_quiet h.standing.intact orderly (fun close => noClose (congrArg Act.call close))
          (nextWrite_alive alive)
      exact h.quiet quiet intact fun there =>
        h.known (.inr ((method_nests s.cfg env m).handle there))
  | server aborts => exact absurd rfl (noServer aborts)
  | ret r frame stack hstack =>
      cases frame with
      | eof =>
          have start : Quiet s.cfg { s.cfg with stack := stack } :=
            .popped hstack rfl Frame.noConfusion
          have standing := start.standing (h.standing.intact.of_eq rfl rfl) h.standing
          obtain ⟨after, due, closing, known⟩ :=
            eofReceived_standing (R := R) standing (start.due h.due) (r == .truthy) env
          simp only [hstack]
          refine ⟨after, due, ?_, fun _ => known (h.handled hstack rfl)⟩
          rw [show s.declined = s.cfg.tr.closing from h.closing.symm]
          exact closing
      | attach | connectionMade | getBuffer | data | lost | pause | resume =>
          simp only [hstack]
          exact h.returned hstack Frame.noConfusion r env intact
  | poll dir =>
      exact h.quiet (.of_eq ⟨rfl, rfl, id, rfl, rfl, rfl⟩ rfl rfl id id) intact fun there =>
        h.known (.inr there)
  | fire dir free event =>
      have taken : Quiet s.cfg { s.cfg with tables := { s.cfg.tables with event := none } } :=
        .of_eq ⟨rfl, rfl, id, rfl, rfl, rfl⟩ rfl rfl id id
      have idle : ¬ ∃ f ∈ s.cfg.stack, f.isHandle = true := by simp [free]
      simp only [fire] at intact ⊢
      split_ifs at intact ⊢ with bound
      · cases dir with
        | readable =>
            have plain := h.standing.intact.plain
            refine h.quiet (taken.trans ?_) intact fun _ => .inl bound
            exact readRound_quiet (c :=
              { s.cfg with tables := { s.cfg.tables with event := none } }) plain env
        | writable =>
            have start := taken.standing (h.standing.intact.of_eq rfl rfl) h.standing
            obtain ⟨standing, due, closing, known⟩ := writeHandleRun_standing (R := R) start alive
            exact ⟨standing, due, closing.trans h.closing, fun _ => known (.inl bound)⟩
      · exact h.quiet taken intact fun there => absurd there idle
  | made free =>
      refine h.quiet (Quiet.trans (c := { s.cfg with
        tables := { s.cfg.tables with pendingMade := false }
        exposed := true }) (.of_eq ⟨rfl, rfl, id, rfl, rfl, rfl⟩ rfl rfl id id) (.call _ rfl rfl))
            intact ?_
      rintro ⟨f, hf, handle⟩
      rcases List.mem_cons.mp hf with rfl | below
      · cases handle
      · exact h.known (.inr ⟨f, below, handle⟩)

theorem PlainStart.sound {c : Cfg σ} (h : PlainStart R c) : Answered.Sound ⟨c, false, false⟩ := by
  cases h with
  | accepted lfd protoBuffered timeout =>
      refine ⟨⟨(PlainStart.accepted (R := R) lfd protoBuffered timeout).intact, rfl, ?_, ?_, ?_⟩,
        ?_, rfl, ?_⟩
      · exact fun lost => absurd rfl lost
      · exact fun frames => absurd rfl frames
      · exact fun waiting => absurd rfl waiting
      · exact fun closing => by cases closing
      · rintro (answered | ⟨f, hf, -⟩)
        · cases answered
        · cases hf
  | connected protoBuffered timeout =>
      refine ⟨⟨(PlainStart.connected (R := R) protoBuffered timeout).intact, rfl, ?_, ?_, ?_⟩, ?_,
        rfl, ?_⟩
      · exact fun lost => absurd rfl lost
      · exact fun frames => absurd rfl frames
      · exact fun waiting => absurd rfl waiting
      · exact fun closing => by cases closing
      · rintro (answered | ⟨f, hf, handle⟩)
        · cases answered
        · cases List.mem_singleton.mp hf
          cases handle

/-- RLoop's plain transport keeps the contract in every gentle run. -/
theorem plain_keeps_half_close {start : Cfg σ} (hstart : PlainStart R start)
    {actions : List (Act × Env)} (gentle : ∀ a ∈ actions, Gentle a) :
    Always (answerStep R) (fun s => s.view.Kept) ⟨start, false, false⟩ actions :=
  (always_of_guarded (fun _ _ _ sound good hstep => sound.step good hstep) hstart.sound
    (guarded_of_forall gentle)).mono fun _ sound => sound.view

end Tcp

end TokioLoop
