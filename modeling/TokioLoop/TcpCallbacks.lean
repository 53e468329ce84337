import Mathlib.Data.List.Induction
import TokioLoop.TcpFrames
import TokioLoop.TcpOutbound

/-!
The order of the calls into the protocol of a plain transport. `Phase` is the automaton
that the protocol expects the transport to follow; `Allowed` says of each step what it
must not meet for the transport to do so.
-/
namespace TokioLoop.Tcp

variable {σ : Type} {R : Rustls σ}

inductive Phase where
  | start
  | opened
  | ended
  | lost
  deriving DecidableEq, Repr

/-- `connection_made` is first, no data follows the end of the stream, and nothing
follows `connection_lost`. -/
def Phase.next : Phase → Callback → Option Phase
  | .start, .connectionMade => some .opened
  | .opened, .getBuffer | .opened, .dataReceived _ | .opened, .pauseWriting | .opened,
      .resumeWriting => some .opened
  | .opened, .eofReceived => some .ended
  | .ended, .getBuffer | .ended, .pauseWriting | .ended, .resumeWriting => some .ended
  | .opened, .connectionLost _ | .ended, .connectionLost _ => some .lost
  | _, _ => none

/-- The automaton follows the calls so far, and `connection_made` is scheduled as long
as it was not called. -/
structure Orderly (c : Cfg σ) : Prop where
  follows : (Runs.run Phase.next .start c.callbacks).isSome = true
  scheduled : .connectionMade ∉ c.callbacks → c.tables.pendingMade = true

/-- The calls that lead to a phase. -/
def Phase.Describes (past : List Callback) : Phase → Prop
  | .start => past = []
  | .opened => .connectionMade ∈ past ∧ .eofReceived ∉ past ∧ ∀ err, .connectionLost err ∉ past
  | .ended => .connectionMade ∈ past ∧ .eofReceived ∈ past ∧ ∀ err, .connectionLost err ∉ past
  | .lost => .connectionMade ∈ past ∧ ∃ err, .connectionLost err ∈ past

theorem phase_describes {past : List Callback} {phase : Phase}
    (h : Runs.run Phase.next .start past = some phase) :
    phase.Describes past := by
  induction past using List.reverseRecOn generalizing phase with
  | nil =>
      cases h
      rfl
  | append_singleton past e ih =>
      obtain ⟨before, hbefore, hlast⟩ := Runs.run_append_iff.mp h
      obtain ⟨_, hnext, hend⟩ := Runs.run_cons_iff.mp hlast
      cases hend
      have described := ih hbefore
      cases before <;> cases e <;> cases hnext <;> simp_all [Phase.Describes]

/-- The call comes too late. -/
def Callback.late (past : List Callback) : Callback → Prop
  | .dataReceived _ | .eofReceived => .eofReceived ∈ past ∨ ∃ err, .connectionLost err ∈ past
  | _ => ∃ err, .connectionLost err ∈ past

/-- Once `connection_made` was called, the automaton follows each call that is neither
late nor another `connection_made`. -/
theorem follows_iff {past : List Callback} {e : Callback}
    (h : (Runs.run Phase.next .start past).isSome = true) (made : .connectionMade ∈ past)
    (other : e ≠ .connectionMade) : (Runs.run Phase.next .start (past ++ [e])).isSome = true ↔
    ¬ e.late past := by
  obtain ⟨phase, hphase⟩ := Option.isSome_iff_exists.mp h
  have described := phase_describes hphase
  have last : (Runs.run Phase.next .start (past ++ [e])).isSome = true ↔
      (phase.next e).isSome = true := by
    simp only [Option.isSome_iff_exists, Runs.run_append_iff, hphase, Runs.run_cons_iff,
      Runs.run_nil]
    simp
  rw [last]
  cases phase with
  | start =>
      rw [show past = [] from described] at made
      cases made
  | opened =>
      obtain ⟨_, open', alive⟩ := described
      cases e <;> simp_all [Phase.next, Callback.late]
  | ended =>
      obtain ⟨_, ended, alive⟩ := described
      cases e <;> simp_all [Phase.next, Callback.late]
  | lost =>
      obtain ⟨_, lost⟩ := described
      cases e <;> simp_all [Phase.next, Callback.late]

/-- `eof_received` was called. -/
def Cfg.ended (c : Cfg σ) : Prop := .eofReceived ∈ c.callbacks

/-- Code of a plain transport that makes the call `e`, or none. -/
structure Turn (c d : Cfg σ) (e : Option Callback) : Prop where
  callbacks : d.callbacks = c.callbacks ++ e.toList
  plain : d.tr.state.tlsConn = c.tr.state.tlsConn
  noAlert : d.tr.state.tlsPendingClose = c.tr.state.tlsPendingClose
  closing : c.tr.closing = true → d.tr.closing = true
  closed : ∀ err, e = some (.connectionLost err) → d.tr.closing = true
  pendingMade : d.tables.pendingMade = c.tables.pendingMade
  exposed : d.exposed = c.exposed
  notMade : e ≠ some .connectionMade

def Timely (c : Cfg σ) (e : Option Callback) : Prop :=
  ∀ call, e = some call → ¬ call.late c.callbacks

@[simp] theorem timely_none (c : Cfg σ) : Timely c none ↔ True := by simp [Timely]

@[simp] theorem timely_lost (c : Cfg σ) (err : Option String) :
    Timely c (some (.connectionLost err)) ↔ ¬ c.lost := by
  simp [Timely, Callback.late, Cfg.lost]

@[simp] theorem timely_data (c : Cfg σ) (data : Bytes) :
    Timely c (some (.dataReceived data)) ↔ ¬ (c.ended ∨ c.lost) := by
  simp [Timely, Callback.late, Cfg.ended, Cfg.lost]

@[simp] theorem timely_eof (c : Cfg σ) : Timely c (some .eofReceived) ↔ ¬ (c.ended ∨ c.lost) := by
  simp [Timely, Callback.late, Cfg.ended, Cfg.lost]

@[simp] theorem timely_getBuffer (c : Cfg σ) : Timely c (some .getBuffer) ↔ ¬ c.lost := by
  simp [Timely, Callback.late, Cfg.lost]

@[simp] theorem timely_pause (c : Cfg σ) : Timely c (some .pauseWriting) ↔ ¬ c.lost := by
  simp [Timely, Callback.late, Cfg.lost]

@[simp] theorem timely_resume (c : Cfg σ) : Timely c (some .resumeWriting) ↔ ¬ c.lost := by
  simp [Timely, Callback.late, Cfg.lost]

theorem Turn.silent {c d : Cfg σ} {obs : List Obs} (log : d.log = c.log ++ obs)
    (mute : obs.filterMap Obs.asCallback = []) (plain : d.tr.state.tlsConn = c.tr.state.tlsConn)
    (noAlert : d.tr.state.tlsPendingClose = c.tr.state.tlsPendingClose)
    (closing : c.tr.closing = true → d.tr.closing = true)
    (pendingMade : d.tables.pendingMade = c.tables.pendingMade) (exposed : d.exposed = c.exposed) :
    Turn c d none where
  callbacks := by rw [Cfg.callbacks, log, List.filterMap_append, mute]; rfl
  plain := plain
  noAlert := noAlert
  closing := closing
  closed _ h := by cases h
  pendingMade := pendingMade
  exposed := exposed
  notMade h := by cases h

/-- What a step that makes no call leaves alone. -/
def Cfg.face (c : Cfg σ) : List Obs × Option σ × Bool × Bool × Bool :=
  (c.log, c.tr.state.tlsConn, c.tr.state.tlsPendingClose, c.tables.pendingMade, c.exposed)

theorem Turn.same {c d : Cfg σ} (face : d.face = c.face)
    (closing : c.tr.closing = true → d.tr.closing = true) :
    Turn c d none := by
  simp only [Cfg.face, Prod.mk.injEq] at face
  obtain ⟨log, plain, noAlert, pendingMade, exposed⟩ := face
  exact .silent (show d.log = c.log ++ [] by rw [log, List.append_nil]) rfl plain noAlert closing
    pendingMade exposed

theorem Turn.emit (c : Cfg σ) {o : Obs} (mute : o.asCallback = none) : Turn c (c.emit o) none :=
  .silent rfl (by simp [mute]) rfl rfl id rfl rfl

theorem Turn.trans {c d f : Cfg σ} {e : Option Callback} (first : Turn c d none)
    (second : Turn d f e) : Turn c f e where
  callbacks := by rw [second.callbacks, first.callbacks, Option.toList_none, List.append_nil]
  plain := second.plain.trans first.plain
  noAlert := second.noAlert.trans first.noAlert
  closing := second.closing ∘ first.closing
  closed := second.closed
  pendingMade := second.pendingMade.trans first.pendingMade
  exposed := second.exposed.trans first.exposed
  notMade := second.notMade

theorem Turn.call {c : Cfg σ} (e : Callback) (frame : Frame)
    (closed : ∀ err, e = .connectionLost err → c.tr.closing = true)
    (notMade : e ≠ .connectionMade) : Turn c (c.call e frame) (some e) where
  callbacks := by simp [Cfg.callbacks, Cfg.call, Cfg.emit, Obs.asCallback]
  plain := rfl
  noAlert := rfl
  closing := id
  closed err h := closed err (Option.some.inj h)
  pendingMade := rfl
  exposed := rfl
  notMade h := notMade (Option.some.inj h)

/-- The code makes at most one call, which is in time exactly if `P` holds. -/
def Makes (c d : Cfg σ) (P : Prop) : Prop := ∃ e, Turn c d e ∧ (Timely c e ↔ P)

theorem Makes.nothing {c d : Cfg σ} {P : Prop} (turn : Turn c d none) (h : P) : Makes c d P :=
  ⟨none, turn, by simp [h]⟩

theorem Makes.after {c d f : Cfg σ} {P : Prop} (turn : Turn c d none) (h : Makes d f P) :
    Makes c f P := by
  obtain ⟨e, second, timely⟩ := h
  have same : d.callbacks = c.callbacks := by
    rw [turn.callbacks, Option.toList_none, List.append_nil]
  refine ⟨e, turn.trans second, ?_⟩
  rw [← timely, Timely, Timely, same]

theorem Makes.iff {c d : Cfg σ} {P Q : Prop} (h : Makes c d P) (same : P ↔ Q) : Makes c d Q := by
  obtain ⟨e, turn, timely⟩ := h
  exact ⟨e, turn, timely.trans same⟩

theorem Makes.lost {c : Cfg σ} (err : Option String) (frame : Frame)
    (closing : c.tr.closing = true) : Makes c (c.call (.connectionLost err) frame) (¬ c.lost) :=
  ⟨_, .call _ frame (fun _ _ => closing) (by simp), timely_lost c err⟩

/-- What holds of a plain transport in any run, in order or not. -/
structure Tracked (c : Cfg σ) : Prop where
  plain : c.tr.state.tlsConn = none
  noAlert : c.tr.state.tlsPendingClose = false
  closed : c.lost → c.tr.closing = true
  made : c.tables.pendingMade = true ↔ .connectionMade ∉ c.callbacks
  exposed : c.exposed = true → c.tables.pendingMade = false
  fresh : c.callbacks = [] → c.tr.closing = false ∧ c.tr.state.writeBufDsize = 0 ∧ c.stack = []

theorem Turn.tracked {c d : Cfg σ} {e : Option Callback} (turn : Turn c d e) (tracked : Tracked c)
    (busy : c.callbacks ≠ [] ∨ e ≠ none) : Tracked d where
  plain := turn.plain.trans tracked.plain
  noAlert := turn.noAlert.trans tracked.noAlert
  closed := by
    rintro ⟨err, hmem⟩
    rw [turn.callbacks, List.mem_append] at hmem
    rcases hmem with old | fresh
    · exact turn.closing (tracked.closed ⟨err, old⟩)
    · exact turn.closed err (Option.mem_toList.mp fresh)
  made := by
    have same : Callback.connectionMade ∈ c.callbacks ++ e.toList ↔
        .connectionMade ∈ c.callbacks := by
      rw [List.mem_append, Option.mem_toList]
      exact or_iff_left turn.notMade
    rw [turn.pendingMade, turn.callbacks, same]
    exact tracked.made
  exposed := by
    rw [turn.exposed, turn.pendingMade]
    exact tracked.exposed
  fresh none := by
    rw [turn.callbacks, List.append_eq_nil_iff, Option.toList_eq_nil_iff] at none
    rcases busy with some | some
    · exact absurd none.1 some
    · exact absurd none.2 some

theorem Turn.orderly_iff {c d : Cfg σ} {e : Option Callback} (turn : Turn c d e)
    (made : .connectionMade ∈ c.callbacks) (orderly : Orderly c) : Orderly d ↔ Timely c e := by
  have there : .connectionMade ∈ d.callbacks := by
    rw [turn.callbacks]
    exact List.mem_append_left _ made
  have follows : Orderly d ↔ (Runs.run Phase.next .start d.callbacks).isSome = true :=
    ⟨Orderly.follows, fun follows => ⟨follows, fun missing => absurd there missing⟩⟩
  rw [follows, turn.callbacks]
  cases e with
  | none => simp [orderly.follows]
  | some call =>
      have other : call ≠ .connectionMade := fun same => turn.notMade (congrArg some same)
      rw [Option.toList_some, follows_iff orderly.follows made other]
      simp [Timely]

/-- The bytes of a `write` that stay in the buffer. -/
def unsent (c : Cfg σ) (data : Bytes) (env : Env) : Nat :=
  data.length - if c.tr.state.writeBufDsize = 0 then (env.nextWrite.taken data).length else 0

/-- After `connection_lost` a `write` neither fails directly nor fills the buffer over
its limit. -/
def WriteAllowed (c : Cfg σ) (data : Bytes) (env : Env) : Prop :=
  c.lost → c.tr.weof = true ∨ data = [] ∨ c.borrowed = true ∨
    (c.tr.state.writeBufDsize = 0 → env.nextWrite.isFatal = false) ∧
      (c.tr.protoPaused = true ∨ c.tr.state.writeBufDsize + unsent c data env ≤ c.tr.waterHi)

theorem pushBack_makes (c : Cfg σ) (data : Bytes) : Makes c (pushBack c data)
    (c.lost → c.tr.protoPaused = true ∨ c.tr.state.writeBufDsize + data.length ≤ c.tr.waterHi) := by
  have grown : ∀ d : Cfg σ, d = grow
    (c.setState { c.tr.state with writeBuf := c.tr.state.writeBuf ++ [data] })
      data.length → Turn c d none ∧ d.tr.state.writeBufDsize = c.tr.state.writeBufDsize +
      data.length ∧
        d.tr.waterHi = c.tr.waterHi ∧ d.tr.protoPaused = c.tr.protoPaused := by
    rintro d rfl
    simp only [grow]
    split_ifs <;> exact ⟨.same rfl id, rfl, rfl, rfl⟩
  obtain ⟨turn, hsize, hhigh, hpaused⟩ := grown _ rfl
  simp only [pushBack, bufAdded]
  split_ifs with crosses
  all_goals rw [hhigh, hsize, hpaused] at crosses
  · have flag : Turn c { grow (c.setState
      { c.tr.state with writeBuf := c.tr.state.writeBuf ++ [data] })
        data.length with tr := { (grow
            (c.setState { c.tr.state with writeBuf := c.tr.state.writeBuf ++ [data] })
          data.length).tr with protoPaused := true } } none := turn.trans (.same rfl id)
    refine ⟨_, flag.trans (.call .pauseWriting (.pause true) (by simp) (by simp)), ?_⟩
    rw [timely_pause]
    have crossed : ¬ (c.tr.protoPaused = true ∨
        c.tr.state.writeBufDsize + data.length ≤ c.tr.waterHi) := by
      rw [not_or, Nat.not_le, crosses.2]
      exact ⟨by simp, crosses.1⟩
    simp only [crossed, imp_false]
  · refine .nothing turn fun _ => ?_
    rw [not_and_or, Nat.not_lt, Bool.not_eq_false] at crosses
    exact crosses.symm

theorem directWrite_makes {c : Cfg σ} (data : Bytes) (r : WriteResult)
    (zero : c.tr.state.writeBufDsize = 0) : Makes c (directWrite c data r)
    (c.lost → r.isFatal = false ∧ (c.tr.protoPaused = true ∨
      c.tr.state.writeBufDsize + (data.length - (r.taken data).length) ≤ c.tr.waterHi)) := by
  have wrote : Turn c (c.emit (.write data r)) none := .emit _ rfl
  have buffered : ∀ rest : Bytes, Makes c (pushBack (c.emit (.write data r)) rest)
      (c.lost → c.tr.protoPaused = true ∨ c.tr.state.writeBufDsize + rest.length ≤ c.tr.waterHi) :=
    fun rest => (Makes.after wrote (pushBack_makes _ rest)).iff (imp_congr_left (lost_emit rfl))
  cases r with
  | ok n =>
      simp only [directWrite]
      split_ifs with fits
      · refine .nothing wrote fun _ => ⟨rfl, .inr ?_⟩
        simp only [WriteResult.taken, List.length_take, zero]
        omega
      · have left : (data.drop n).length = data.length - (WriteResult.taken data
            (.ok n)).length := by
          simp only [List.length_drop, WriteResult.taken, List.length_take]
          omega
        refine (buffered (data.drop n)).iff ?_
        rw [left]
        simp [WriteResult.isFatal]
  | interrupted | wouldBlock =>
      refine (buffered data).iff ?_
      simp [WriteResult.isFatal, WriteResult.taken]
  | fatal text =>
      have closed : ∀ d : Cfg σ, Turn c d none → d.tr.closing = true →
          Makes c (callConnLost d (some text) .tryWrite) (c.lost → False) := by
        intro d turn closing
        have same : d.lost ↔ c.lost := by simp [Cfg.lost, turn.callbacks]
        exact (Makes.after turn (.lost _ _ closing)).iff (not_congr same)
      simp only [directWrite, WriteResult.isFatal, Bool.true_eq_false, false_and]
      split_ifs with closing
      · exact closed _ wrote closing
      · exact closed _ (wrote.trans (.same rfl (fun _ => rfl))) rfl

theorem tryWrite_makes {c : Cfg σ} (tracked : Tracked c) (data : Bytes) (env : Env) :
    Makes c (tryWrite c data env) (WriteAllowed c data env) := by
  have plain : (c.emit (.accepted data)).tr.state.tlsConn.isSome = false := by
    rw [show (c.emit (.accepted data)).tr.state.tlsConn = none from tracked.plain]
    rfl
  have took : Turn c (c.emit (.accepted data)) none := .emit _ rfl
  simp only [tryWrite, plain, Bool.false_eq_true, if_false]
  split_ifs with weof empty borrowed zero
  · exact .nothing (.emit _ rfl) fun _ => .inl weof
  · exact .nothing (.same rfl id) fun _ => .inr (.inl empty)
  · exact .nothing (.same rfl id) fun _ => .inr (.inr (.inl borrowed))
  · refine (Makes.after took (directWrite_makes data env.nextWrite zero)).iff ?_
    have zero' : c.tr.state.writeBufDsize = 0 := zero
    simp only [lost_emit (show (Obs.accepted data).isLost = false from rfl), WriteAllowed, unsent,
      weof, empty, borrowed, if_pos zero', imp_iff_right zero', false_or, Bool.false_eq_true]
    exact Iff.rfl
  · refine (Makes.after took (pushBack_makes _ data)).iff ?_
    have some' : c.tr.state.writeBufDsize ≠ 0 := zero
    simp only [lost_emit (show (Obs.accepted data).isLost = false from rfl), WriteAllowed, unsent,
      weof, empty, borrowed, some', if_false, Nat.sub_zero, false_or, Bool.false_eq_true,
      false_imp_iff, true_and]
    exact Iff.rfl

theorem close_makes {c : Cfg σ} (tracked : Tracked c)
    (env : Env) : Makes c (close R c env) True := by
  have plain : c.setClosing.tr.state.tlsConn = none := tracked.plain
  simp only [close, plain, closePlain]
  split_ifs with closing
  · exact .nothing (.same rfl id) trivial
  · exact .nothing (.same rfl (fun _ => rfl)) trivial
  · have turn : Turn c ((c.setClosing.streamRem .readable).streamRem .writable) none :=
      .same rfl (fun _ => rfl)
    have alive : ¬ ((c.setClosing.streamRem .readable).streamRem .writable).lost :=
      fun lost => closing (tracked.closed lost)
    exact (Makes.after turn (.lost none _ rfl)).iff (iff_true_intro alive)
  · exact .nothing (.same rfl (fun _ => rfl)) trivial

theorem abort_makes (c : Cfg σ) : Makes c (abort c) (c.borrowed = true ∨ ¬ c.lost) := by
  have called : ∀ d : Cfg σ, c.borrowed ≠ true → Turn c d none → d.tr.closing = true →
      Makes c (callConnLost d none .callConnLost) (c.borrowed = true ∨ ¬ c.lost) := by
    intro d free turn closing
    have same : d.lost ↔ c.lost := by simp [Cfg.lost, turn.callbacks]
    refine (Makes.after turn (.lost _ _ closing)).iff ?_
    rw [same, or_iff_right free]
  simp only [abort]
  split_ifs with borrowed _ closing closing
  · exact .nothing (.same rfl id) (.inl borrowed)
  · exact called _ borrowed (.same rfl id) closing
  · exact called _ borrowed (.same rfl (fun _ => rfl)) rfl
  · exact called _ borrowed (.same rfl id) closing
  · exact called _ borrowed (.same rfl (fun _ => rfl)) rfl

theorem readState_silent (c : Cfg σ) : Turn c (readState c) none := by
  unfold readState
  split_ifs <;> exact .same rfl id

theorem method_silent {c : Cfg σ} {m : Method} (env : Env)
    (h : m = .writeEof ∨ m = .pauseReading ∨ m = .resumeReading) : Turn c (m.run R c env) none := by
  rcases h with rfl | rfl | rfl
  · simp only [Method.run, writeEof]
    split_ifs
    · exact .same rfl id
    · exact .same rfl id
    · exact .same rfl id
    · have flag : Turn c { c with tr := { c.tr with weof := true } } none := .same rfl id
      exact flag.trans (.emit _ (o := .shutdown c.tr.state.writeBuf) rfl)
    · exact .same rfl id
  · simp only [Method.run, pauseReading]
    split_ifs <;> exact .same rfl id
  · simp only [Method.run, resumeReading]
    split_ifs <;> exact .same rfl id

theorem tcpStreamClose_silent {c : Cfg σ} (plain : c.tr.state.tlsConn = none) (held : Bool)
    (env : Env) : Turn c (tcpStreamClose R c held env) none := by
  have unbound : c.unbind.tr.state.tlsConn.isSome = false := by
    rw [show c.unbind.tr.state.tlsConn = none from plain]
    rfl
  simp only [tcpStreamClose, unbound, Bool.false_eq_true, if_false, Cfg.unlist]
  split_ifs <;> exact .same rfl id

/-- A read after the end of the stream or `connection_lost` gets nothing; a buffered
protocol is not asked for a buffer after `connection_lost`. -/
def ReadAllowed (c : Cfg σ) (env : Env) : Prop :=
  if c.tr.protoBuffered then ¬ c.lost
  else c.ended ∨ c.lost → readInto readBufSize env.reads = ([], false)

theorem recvEof_makes (c : Cfg σ) : Makes c (recvEof c) (¬ (c.ended ∨ c.lost)) := by
  have removed : Turn c (c.streamRem .readable) none := .same rfl id
  exact ⟨_, removed.trans (.call .eofReceived .eof (by simp) (by simp)), timely_eof c⟩

theorem received_makes (c : Cfg σ) (got : Bytes × Bool) :
    Makes c (received (c.emit (.recv got.1), if got.1 = [] then none else some got.1, got.2))
      (c.ended ∨ c.lost → got = ([], false)) := by
  have read : Turn c (c.emit (.recv got.1)) none := .emit _ rfl
  obtain ⟨bytes, closed⟩ := got
  by_cases empty : bytes = []
  · subst empty
    cases closed with
    | true =>
        refine (Makes.after read (recvEof_makes _)).iff ?_
        have same : (c.emit (.recv [])).ended ∨ (c.emit (.recv [])).lost ↔ c.ended ∨ c.lost := by
          simp [Cfg.ended, Cfg.lost, Cfg.callbacks, Cfg.emit, Obs.asCallback]
        rw [same]
        simp
    | false => exact .nothing read fun _ => rfl
  · simp only [empty, if_false]
    refine ⟨_, read.trans (.call (.dataReceived bytes) (.data closed) (by simp) (by simp)), ?_⟩
    simp [empty]

theorem readRound_makes {c : Cfg σ} (plain : c.tr.state.tlsConn = none) (env : Env) :
    Makes c (readRound R c env) (ReadAllowed c env) := by
  cases buffered : c.tr.protoBuffered with
  | true =>
      simp only [readRound, ReadAllowed, buffered, if_true]
      exact ⟨_, .call .getBuffer .getBuffer (by simp) (by simp), timely_getBuffer c⟩
  | false =>
      simp only [readRound, ReadAllowed, buffered, Bool.false_eq_true, if_false, recvDirect, plain]
      exact received_makes c (readInto readBufSize env.reads)

theorem eofReceived_makes {c : Cfg σ} (tracked : Tracked c) (truthy : Bool) (env : Env) :
    Makes c (eofReceived R c truthy env) True := by
  have plain : c.setClosing.tr.state.tlsConn.isSome = false := by
    rw [show c.setClosing.tr.state.tlsConn = none from tracked.plain]
    rfl
  simp only [eofReceived, closeFromReadHandle, tracked.plain, plain, Option.isSome_none,
    Bool.false_eq_true, false_and, if_false]
  split_ifs with _ closing
  · exact .nothing (.same rfl id) trivial
  · exact .nothing (.same rfl id) trivial
  · exact .nothing (.same rfl (fun _ => rfl)) trivial
  · have turn : Turn c (c.setClosing.streamRem .writable) none := .same rfl (fun _ => rfl)
    have alive : ¬ (c.setClosing.streamRem .writable).lost :=
      fun lost => closing (tracked.closed lost)
    exact (Makes.after turn (.lost none _ rfl)).iff (iff_true_intro alive)

theorem finishWrite_silent {c : Cfg σ} (plain : c.tr.state.tlsConn = none)
    (streamClose : Option Bool) (env : Env) : Turn c (finishWrite R c streamClose env) none := by
  have removed : Turn c (if c.tr.state.writeBuf = [] then c.streamRem .writable else c) none := by
    split_ifs <;> exact .same rfl id
  simp only [finishWrite]
  split
  · exact removed.trans (tcpStreamClose_silent (removed.plain.trans plain) _ env)
  · exact removed.trans (.emit _ rfl)
  · exact removed

theorem closeFromWriteHandle_makes {c : Cfg σ} (tracked : Tracked c) (errored : Bool) (env : Env) :
    Makes c (closeFromWriteHandle R c errored env) (¬ c.lost) := by
  by_cases closing : c.tr.closing = true
  · simp only [closeFromWriteHandle, closing, if_true]
    exact .lost _ _ closing
  · simp only [closeFromWriteHandle, closing, Bool.false_eq_true, if_false]
    exact .nothing (finishWrite_silent tracked.plain _ env) fun lost =>
      closing (tracked.closed lost)

theorem afterWrite_makes {c : Cfg σ} (tracked : Tracked c) (env : Env) :
    Makes c (afterWrite R c env) (c.lost → c.tr.state.writeBuf ≠ []) := by
  simp only [afterWrite, tracked.noAlert, Bool.false_eq_true, if_false]
  split_ifs with empty
  · refine (closeFromWriteHandle_makes tracked false env).iff ?_
    simp [empty]
  · exact .nothing (finishWrite_silent tracked.plain none env) fun _ => empty

/-- After `connection_lost` the handle leaves data in the buffer, and does not bring a
paused protocol down to the low limit. -/
def HandleAllowed (c : Cfg σ) (env : Env) : Prop :=
  c.lost → (writeLoop env.writes c.tr.state.writeBuf).1 ≠ [] ∧
    ∀ n, (writeLoop env.writes c.tr.state.writeBuf).2.1 = some n → 0 < n → c.tr.protoPaused = true →
      c.tr.waterLo < c.tr.state.writeBufDsize - n

theorem written_makes {c : Cfg σ} (tracked : Tracked c) (n : Nat)
    (env : Env) : Makes c (written R c n env) (c.lost → c.tr.state.writeBuf ≠ [] ∧
      (0 < n → c.tr.protoPaused = true → c.tr.waterLo < c.tr.state.writeBufDsize)) := by
  simp only [written]
  split_ifs with resumes
  · have flag : Turn c { c with tr := { c.tr with protoPaused := false } } none := .same rfl id
    refine ⟨_, flag.trans (.call .resumeWriting .resume (by simp) (by simp)), ?_⟩
    rw [timely_resume]
    obtain ⟨some, low, paused⟩ := resumes
    constructor
    · intro alive lost
      exact absurd lost alive
    · intro allowed lost
      have := (allowed lost).2 some paused
      omega
  · refine (afterWrite_makes tracked env).iff (forall_congr' fun _ => ?_)
    rw [iff_self_and]
    intro _ some paused
    by_contra high
    exact resumes ⟨some, by omega, paused⟩

theorem writeHandleRun_makes {c : Cfg σ} (tracked : Tracked c) (busy : c.callbacks ≠ [])
    (env : Env) : Makes c (writeHandleRun R c env) (HandleAllowed c env) := by
  have noTimeout : closeTimedOut c.tr.state env.now = false := by
    simp [closeTimedOut, tracked.plain]
  obtain ⟨failed, -⟩ := writeLoop_held env.writes c.tr.state.writeBuf
  have mute := List.filterMap_eq_nil_iff.mpr (writeLoop_silent env.writes c.tr.state.writeBuf)
  have turn : Turn c (writePlain c env).1 none := .silent rfl mute rfl rfl id rfl rfl
  have tracked' := turn.tracked tracked (.inl busy)
  have same : (writePlain c env).1.lost ↔ c.lost := by simp [Cfg.lost, turn.callbacks]
  have hbuf : (writePlain c env).1.tr.state.writeBuf =
    (writeLoop env.writes c.tr.state.writeBuf).1 := rfl
  have hret : (writePlain c env).2 = (writeLoop env.writes c.tr.state.writeBuf).2.1 := rfl
  have hsize : (writePlain c env).1.tr.state.writeBufDsize =
      (writePlain c env).2.elim 0 (c.tr.state.writeBufDsize - ·) := rfl
  have hlow : (writePlain c env).1.tr.waterLo = c.tr.waterLo := rfl
  have hpaused : (writePlain c env).1.tr.protoPaused = c.tr.protoPaused := rfl
  simp only [writeHandleRun, noTimeout, Bool.false_eq_true, if_false, tracked.plain, HandleAllowed]
  rcases hwrite : writePlain c env with ⟨d, ret⟩
  simp only [hwrite] at turn tracked' same hbuf hret hsize hlow hpaused
  rw [← hret] at failed
  cases ret with
  | some n =>
      refine (Makes.after turn (written_makes tracked' n env)).iff ?_
      rw [same, hbuf, hsize, hlow, hpaused, ← hret]
      simp
  | none =>
      refine (Makes.after turn (closeFromWriteHandle_makes tracked' true env)).iff ?_
      rw [same]
      simp [failed rfl]

/-- What must not happen in a step. -/
def Allowed (c : Cfg σ) : Act × Env → Prop
  | (.call (.write data), env) => WriteAllowed c data env
  | (.call (.writelines data), env) => WriteAllowed c data.flatten env
  | (.call .abort, _) => c.borrowed = true ∨ ¬ c.lost
  | (.server aborts, _) =>
      c.tables.pendingMade = false ∧ (aborts = true → c.borrowed = true ∨ ¬ c.lost)
  | (.ret r, env) =>
      match c.stack with
      | .getBuffer :: _ =>
          ∀ size, r = .buffer size → c.ended ∨ c.lost → readInto size env.reads = ([], false)
      | .data true :: _ => ¬ (c.ended ∨ c.lost)
      | .data false :: _ => ReadAllowed c env
      | .resume :: _ => c.lost → c.tr.state.writeBuf ≠ []
      | _ => True
  | (.fire, env) =>
      c.tables.bound = true →
        match c.tables.event with
        | some .readable => ReadAllowed c env
        | some .writable => HandleAllowed c env
        | none => True
  | _ => True

/-- The methods a protocol calls: neither `set_write_buffer_limits` nor the direct
`call_connection_lost`. -/
def Act.common : Act → Bool
  | .call (.setWriteBufferLimits _ _) | .call .callConnectionLost => false
  | _ => true

theorem call_makes {c : Cfg σ} (tracked : Tracked c) {m : Method} (env : Env)
    (common : (Act.call m).common = true) : Makes c (m.run R c env) (Allowed c (.call m, env)) := by
  cases m with
  | write data => exact tryWrite_makes tracked data env
  | writelines data => exact tryWrite_makes tracked data.flatten env
  | close => exact close_makes tracked env
  | abort => exact abort_makes c
  | writeEof => exact .nothing (method_silent env (.inl rfl)) trivial
  | pauseReading => exact .nothing (method_silent env (.inr (.inl rfl))) trivial
  | resumeReading => exact .nothing (method_silent env (.inr (.inr rfl))) trivial
  | isTls | getWriteBufferSize => exact .nothing (readState_silent c) trivial
  | setWriteBufferLimits | callConnectionLost => cases common

theorem after_makes {c : Cfg σ} (tracked : Tracked c) {frame : Frame} {stack : List Frame} (r : Ret)
    (env : Env) (h : c.stack = frame :: stack) (busy : c.callbacks ≠ []) :
    Makes c (frame.after R { c with stack := stack } r env) (Allowed c (.ret r, env)) := by
  have popped : Turn c { c with stack := stack } none := .same rfl id
  have tracked' := popped.tracked tracked (.inl busy)
  simp only [Allowed, h]
  cases frame with
  | attach =>
      simp only [Frame.after, register]
      split_ifs <;> exact .nothing (.same rfl id) trivial
  | connectionMade | pause => exact .nothing popped trivial
  | getBuffer =>
      cases r with
      | buffer size =>
          refine (Makes.after popped (received_makes _ (readInto size env.reads))).iff ?_
          simp only [Ret.buffer.injEq, forall_eq']
          exact Iff.rfl
      | falsy | truthy | raised => exact .nothing (.same rfl id) (by simp)
  | data ended =>
      cases ended with
      | true => exact Makes.after popped (recvEof_makes _)
      | false => exact Makes.after popped (readRound_makes tracked'.plain env)
  | eof => exact Makes.after popped (eofReceived_makes tracked' _ env)
  | lost k =>
      cases k with
      | writeHandle =>
          exact .nothing (popped.trans (finishWrite_silent tracked'.plain (some true) env)) trivial
      | callConnLost | tryWrite | recvEof | readHandle =>
          exact .nothing (popped.trans (tcpStreamClose_silent tracked'.plain _ env)) trivial
  | resume => exact Makes.after popped (afterWrite_makes tracked' env)

/-- A step leads from `c` to `d` and keeps the order exactly if `P` holds. -/
structure Decides (c d : Cfg σ) (P : Prop) : Prop where
  tracked : Tracked d
  grows : ∃ more, d.callbacks = c.callbacks ++ more
  orderly : Orderly c → (Orderly d ↔ P)

theorem Orderly.made_of_busy {c : Cfg σ} (orderly : Orderly c) (busy : c.callbacks ≠ []) :
    .connectionMade ∈ c.callbacks := by
  obtain ⟨phase, hphase⟩ := Option.isSome_iff_exists.mp orderly.follows
  have described := phase_describes hphase
  cases phase with
  | start => exact absurd described busy
  | opened | ended | lost => exact described.1

theorem Makes.decides {c d : Cfg σ} {P : Prop} (h : Makes c d P) (tracked : Tracked c)
    (busy : c.callbacks ≠ []) :
    Decides c d P := by
  obtain ⟨e, turn, timely⟩ := h
  refine ⟨turn.tracked tracked (.inl busy), ⟨_, turn.callbacks⟩, fun orderly => ?_⟩
  rw [turn.orderly_iff (orderly.made_of_busy busy) orderly, timely]

theorem Tracked.busy {c : Cfg σ} (tracked : Tracked c) (h : c.tables.pendingMade = false) :
    c.callbacks ≠ [] := by
  intro none
  rw [tracked.made.mpr (by simp [none])] at h
  cases h

/-- A server that closes a connection before `connection_made` calls `connection_lost` first. -/
theorem server_unmade {c : Cfg σ} (tracked : Tracked c) (none : c.callbacks = []) (aborts : Bool)
    (env : Env) : ∃ err, Turn c (Method.run R c env (if aborts then .abort else .close))
    (some (.connectionLost err)) := by
  obtain ⟨closing, size, stack⟩ := tracked.fresh none
  have free : c.borrowed = false := by simp [Cfg.borrowed, stack]
  refine ⟨Option.none, ?_⟩
  cases aborts with
  | true =>
      have turn : Turn c (c.setClosing.streamRem .readable) Option.none := .same rfl (fun _ => rfl)
      simp only [if_true, Method.run, abort, free, Bool.false_eq_true, if_false, size,
        Nat.lt_irrefl, closing]
      exact turn.trans (.call _ _ (fun _ _ => rfl) (by simp))
  | false =>
      have turn : Turn c ((c.setClosing.streamRem .readable).streamRem .writable) Option.none :=
        .same rfl (fun _ => rfl)
      have free' : c.setClosing.borrowed = false := free
      have plain : c.setClosing.tr.state.tlsConn = Option.none := tracked.plain
      have size' : (c.setClosing.streamRem .readable).tr.state.writeBufDsize = 0 := size
      simp only [Bool.false_eq_true, if_false, Method.run, close, closing, free', plain, closePlain,
        size', if_true]
      exact turn.trans (.call _ _ (fun _ _ => rfl) (by simp))

theorem server_decides {c : Cfg σ} (tracked : Tracked c) (aborts : Bool) (env : Env) :
    Decides c (Method.run R c env (if aborts then .abort else .close))
    (Allowed c (.server aborts, env)) := by
  by_cases busy : c.callbacks = []
  · obtain ⟨err, turn⟩ := server_unmade (R := R) tracked busy aborts env
    have pending : c.tables.pendingMade = true := tracked.made.mpr (by simp [busy])
    refine ⟨turn.tracked tracked (.inr (by simp)), ⟨_, turn.callbacks⟩, fun _ => iff_of_false ?_ ?_⟩
    · intro orderly
      have follows := orderly.follows
      rw [turn.callbacks, busy] at follows
      cases follows
    · simp [Allowed, pending]
  · have makes : Makes c (Method.run R c env (if aborts then .abort else .close))
        (aborts = true → c.borrowed = true ∨ ¬ c.lost) := by
      cases aborts with
      | true => exact (abort_makes c).iff (by simp)
      | false => exact (close_makes tracked env).iff (by simp)
    have decided := makes.decides tracked busy
    refine ⟨decided.tracked, decided.grows, fun orderly => ?_⟩
    have made : c.tables.pendingMade = false := by
      rw [← Bool.not_eq_true, tracked.made, not_not]
      exact orderly.made_of_busy busy
    simp only [Allowed, made, true_and]
    exact decided.orderly orderly

theorem step_decides {c d : Cfg σ} {a : Act × Env} (tracked : Tracked c)
    (common : a.1.common = true) (h : step R c a = some d) : Decides c d (Allowed c a) := by
  obtain ⟨act, env⟩ := a
  cases (step_stepped h).2 with
  | call m exposed =>
      exact (call_makes tracked env common).decides tracked (tracked.busy (tracked.exposed exposed))
  | server aborts => exact server_decides tracked aborts env
  | ret r frame stack hstack =>
      have busy : c.callbacks ≠ [] := by
        intro none
        rw [(tracked.fresh none).2.2] at hstack
        cases hstack
      exact (after_makes tracked r env hstack busy).decides tracked busy
  | poll =>
      exact ⟨⟨tracked.plain, tracked.noAlert, tracked.closed, tracked.made, tracked.exposed,
        tracked.fresh⟩,
      ⟨[], (List.append_nil _).symm⟩, fun orderly =>
      iff_of_true ⟨orderly.follows, orderly.scheduled⟩ trivial⟩
  | fire dir _ event made =>
      have busy := tracked.busy made
      have taken : Turn c { c with tables := { c.tables with event := none } } none := .same rfl id
      have tracked' := taken.tracked tracked (.inl busy)
      have makes : Makes c (fire R { c with tables := { c.tables with event := none } } dir env)
          (Allowed c (.fire, env)) := by
        simp only [fire, Allowed, event]
        split_ifs with bound
        · have bound' : c.tables.bound = true := bound
          cases dir with
          | readable =>
              exact (Makes.after taken (readRound_makes tracked'.plain env)).iff
                (imp_iff_right bound').symm
          | writable =>
              exact (Makes.after taken (writeHandleRun_makes tracked' busy env)).iff
                (imp_iff_right bound').symm
        · exact .nothing taken fun bound' => absurd bound' bound
      exact makes.decides tracked busy
  | made free pending =>
      have grown : ({ c with tables := { c.tables with pendingMade := false }, exposed :=
        true }.call
          .connectionMade .connectionMade).callbacks = c.callbacks ++ [.connectionMade] := by
        simp [Cfg.callbacks, Cfg.call, Cfg.emit, Obs.asCallback]
      refine ⟨⟨tracked.plain, tracked.noAlert, ?_, ?_, fun _ => rfl, ?_⟩, ⟨_, grown⟩,
        fun orderly => iff_of_true ⟨?_, ?_⟩ trivial⟩
      · rintro ⟨err, hmem⟩
        rw [grown] at hmem
        exact tracked.closed ⟨err, by simpa using hmem⟩
      · rw [grown]
        simp [Cfg.call, Cfg.emit]
      · rw [grown]
        simp
      · have none : c.callbacks = [] := by
          by_contra busy
          exact tracked.made.mp pending (orderly.made_of_busy busy)
        rw [grown, none]
        rfl
      · rw [grown]
        simp

theorem PlainStart.tracked {c : Cfg σ} (h : PlainStart R c) : Tracked c ∧ Orderly c := by
  cases h with
  | accepted =>
      refine ⟨⟨rfl, rfl, ?_, ?_, ?_, fun _ => ⟨rfl, rfl, rfl⟩⟩, ⟨rfl, fun _ => rfl⟩⟩
      · rintro ⟨err, hmem⟩
        cases hmem
      · simp [Tcp.accepted, Cfg.callbacks]
      · simp [Tcp.accepted]
  | connected =>
      refine ⟨⟨rfl, rfl, ?_, ?_, fun _ => rfl, ?_⟩, ⟨rfl, ?_⟩⟩
      · rintro ⟨err, hmem⟩
        simp [Tcp.connected, Cfg.callbacks, Cfg.call, Cfg.emit, Obs.asCallback] at hmem
      all_goals simp [Tcp.connected, Cfg.callbacks, Cfg.call, Cfg.emit, Obs.asCallback]

/-- The calls into the protocol follow the automaton in a run exactly if every step of
it is allowed. -/
theorem callbacks_orderly_iff (R : Rustls σ) (actions : List (Act × Env)) (start c : Cfg σ)
    (hstart : PlainStart R start) (h : Runs.run (step R) start actions = some c)
    (common : ∀ a ∈ actions, a.1.common = true) :
    Orderly c ↔ Runs.Guarded (step R) Allowed start actions := by
  obtain ⟨tracked, orderly⟩ := hstart.tracked
  refine Runs.run_exact (I := Tracked) ?_ ?_ ?_ h common tracked orderly
  · intro s a t ha hs hstep
    exact (step_decides hs ha hstep).tracked
  · intro s a t ha hs hp hstep
    exact (step_decides hs ha hstep).orderly hp
  · intro s a t ha hs hp hstep later
    obtain ⟨more, hmore⟩ := (step_decides hs ha hstep).grows
    refine hp ⟨?_, fun missing => hs.made.mpr missing⟩
    obtain ⟨phase, hphase⟩ := Option.isSome_iff_exists.mp later.follows
    rw [hmore] at hphase
    obtain ⟨before, hbefore, _⟩ := Runs.run_append_iff.mp hphase
    rw [hbefore]
    rfl

/-- An accepted connection that is aborted after it was closed. -/
def closedThenAborted : List (Act × Env) :=
  [(.made, ⟨[], [], 0⟩), (.ret .falsy, ⟨[], [], 0⟩), (.call .close, ⟨[], [], 0⟩),
      (.ret .falsy, ⟨[], [], 0⟩),
    (.call .abort, ⟨[], [], 0⟩)]

theorem abort_loses_twice :
    ¬ ∀ c, Runs.Reachable (step noTls) (accepted 3 none false 1000) c → Orderly c := by
  intro always
  obtain ⟨c, hrun, hcalls⟩ : ∃ c, Runs.run (step noTls)
    (accepted 3 none false 1000) closedThenAborted = some c ∧
      c.callbacks = [.connectionMade, .connectionLost none, .connectionLost none] := ⟨_, rfl, rfl⟩
  have follows := (always c ⟨_, hrun⟩).follows
  rw [hcalls] at follows
  cases follows

/-- The same connection without the abort. -/
theorem close_loses_once :
    ∃ c, Runs.run (step noTls) (accepted 3 none false 1000) (closedThenAborted.take 4) = some c ∧
      c.callbacks = [.connectionMade, .connectionLost none] ∧ Orderly c := by
  refine ⟨_, rfl, rfl, ?_⟩
  refine (callbacks_orderly_iff noTls (closedThenAborted.take 4) _ _ (.accepted 3 false 1000) rfl
    (by decide)).mpr ?_
  refine Runs.guarded_cons rfl trivial ?_
  refine Runs.guarded_cons rfl trivial ?_
  refine Runs.guarded_cons rfl trivial ?_
  exact Runs.guarded_cons rfl trivial trivial

end TokioLoop.Tcp
