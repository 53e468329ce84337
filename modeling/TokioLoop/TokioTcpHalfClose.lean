import TokioLoop.TokioTcpClose
import TokioLoop.TcpHalfClose

/-!
The half-close of a `TokioTCPTransport` against the contract that RLoop's transport
keeps. The task ignores what `eof_received` returns and leaves its loop by a condition
on the end of input and the write buffer alone.
-/
namespace TokioLoop.TokioTcp
open ByteLedger

/-- The task, what `eof_received` has answered so far, and whether `connection_lost` was
delivered while bytes waited. -/
structure Answering where
  world : World
  answered : Bool
  declined : Bool
  lostHolding : Bool

def Answering.start : Answering := ⟨TokioTcp.start, false, false, false⟩

/-- The callback that returns is `eof_received`. -/
def returnsEof (w : World) : Action → Bool
  | .callbackReturned => w.notices.getLast? == some .eofReceived
  | _ => false

/-- An action comes with the truth value that a callback returning in it gives back. -/
def Answering.step (s : Answering) (a : Action × Bool) : Option Answering :=
  (TokioTcp.step s.world a.1).map fun world => {
    world
    answered := s.answered || returnsEof s.world a.1
    declined := s.declined || returnsEof s.world a.1 && !a.2
    lostHolding := s.lostHolding || decide (s.world.pc ≠ .ended ∧ world.pc = .ended ∧
      (s.world.inFlight ≠ [] ∨ s.world.state.writeBuf ≠ [])) }

def Answering.view (s : Answering) : HalfCloseView where
  answered := s.answered = true
  declined := s.declined = true
  lost := .connectionLost ∈ s.world.notices
  lostHolding := s.lostHolding = true
  accepted := s.world.written
  sent := s.world.sent
  flying := s.world.inFlight
  queue := s.world.state.writeBuf
  idle := s.world.pc = .top
  served := s.world.state.paused = false

/-- After the end of input the loop stands at its top with bytes to write, and is paused. -/
def Answering.HeldUp (s : Answering) : Prop :=
  s.answered = true ∧ s.world.pc = .top ∧ s.world.state.writeBuf ≠ [] ∧ s.world.state.paused = true

/-- Bytes wait while reading is paused. -/
def State.Stalled (s : State) : Prop := s.writeBuf ≠ [] ∧ s.paused = true

/-- After the end of input the task does not go back to its top with bytes to write while it
is paused, and what is committed there does not bring that about. -/
def Serves (s : Answering) : Action → Prop
  | .check | .wake => s.answered = true → ¬ s.world.state.Stalled
  | .commit thread => s.answered = true → s.world.pc = .top →
      ∀ u ∈ s.world.calls thread, ¬ (u.apply s.world.state).Stalled
  | .enter _ _ | .top | .guards | .pollWrite _ | .writeDone | .readDone
      _ | .sleepDone | .callbackReturned => True

/-- No `select!` drops a chunk in part, the exit condition is met only after `eof_received`
declined, and pausing holds up no write. -/
def HalfCloses (s : Answering) (a : Action × Bool) : Prop :=
  KeepsChunk s.world a.1 ∧
    (a.1 = .check → shouldExit s.world.state = true → s.declined = true) ∧ Serves s a.1

/-- The program points between the end of an iteration and the next `select!`. -/
def Pc.Turning : Pc → Prop
  | .top | .sleeping | .guards _ => True
  | _ => False

theorem apply_waiting {u : Update} (noAbort : u ≠ .abortClosing) (s : State)
    (waiting : s.writeBuf ≠ []) : (u.apply s).writeBuf ≠ [] := by
  cases u with
  | push data => exact List.append_ne_nil_of_left_ne_nil waiting _
  | abortClosing => exact absurd rfl noAbort
  | setWeof | setPaused | setClosing => exact waiting

/-- A step that leads to one of these points comes from another or from the check. -/
theorem step_turning {w t : World} {a : Action}
    (noAbort : ∀ thread, w.calls thread ≠ some .abortClosing) (h : step w a = some t)
    (turning : t.pc.Turning) : (w.pc.Turning ∧ (w.state.writeBuf ≠ [] → t.state.writeBuf ≠ [])) ∨
      (shouldExit w.state = false ∧ t.state = w.state) := by
  cases step_stepped h with
  | enter => exact .inl ⟨turning, id⟩
  | commit thread u pending =>
      exact .inl ⟨turning, apply_waiting (fun abort => noAbort thread (abort ▸ pending)) w.state⟩
  | closing hpc | paused hpc | running hpc | wake hpc => exact .inl ⟨by rw [hpc]; trivial, id⟩
  | pollWrite result reads future t hpc polled =>
      obtain ⟨⟨f, pc⟩, _⟩ := pollWrite_frame polled
      rw [pc] at turning
      exact turning.elim
  | readDone result => cases result <;> exact turning.elim
  | again hpc stays => exact .inr ⟨stays, rfl⟩
  | guards | writeDone | sleepDone | callbackReturned | exits => exact turning.elim

structure Answering.Inv (s : Answering) : Prop where
  noClose : s.world.NoClose
  isOpen : s.world.state.closing = false
  lost : .connectionLost ∈ s.world.notices ↔ s.world.pc = .ended
  account : s.world.Whole ∨ s.world.Short
  eof : .eofReceived ∈ s.world.notices → s.world.state.readEof = true
  answered : s.answered = true → s.world.state.readEof = true
  declined : s.declined = true → s.answered = true
  waits : s.declined = true → s.world.pc.Turning → s.world.state.writeBuf ≠ []
  flushed : s.lostHolding = false

theorem inv_answering_start : Answering.start.Inv := by
  refine ⟨fun thread => ⟨?_, ?_⟩, rfl, ⟨?_, ?_⟩, .inl rfl, ?_, ?_, ?_, ?_, rfl⟩ <;> intro h <;>
    cases h

theorem step_isOpen {w t : World} {a : Action} (noClose : w.NoClose) (h : step w a = some t)
    (isOpen : w.state.closing = false) : t.state.closing = false := by
  rcases step_marks h with marks | ⟨thread, u, _, pending, state⟩
  · exact (congrArg Flags.closing marks).trans isOpen
  · rw [state]
    cases u with
    | setClosing => exact absurd pending (noClose thread).1
    | abortClosing => exact absurd pending (noClose thread).2
    | push | setWeof | setPaused => exact isOpen

theorem step_lost {w t : World} {a : Action} (h : step w a = some t)
    (lost : .connectionLost ∈ w.notices ↔ w.pc = .ended) : .connectionLost ∈ t.notices ↔
    t.pc = .ended := by
  cases step_life h with
  | outside notices pc => rwa [notices, pc]
  | inside notices alive going =>
      exact iff_of_false (fun there => alive (lost.mp (notices ▸ there))) going
  | notice result n _ _ other notices alive going =>
      refine iff_of_false (fun there => ?_) going
      rcases List.mem_append.mp (notices ▸ there) with old | new
      · exact alive (lost.mp old)
      · exact other (List.mem_singleton.mp new).symm
  | left left =>
      rw [left]
      exact iff_of_true (List.mem_append_right _ List.mem_cons_self) rfl

theorem step_eof {w t : World} {a : Action} (h : step w a = some t) :
    (w.state.readEof = true → t.state.readEof = true) ∧
      (.eofReceived ∈ t.notices → .eofReceived ∈ w.notices ∨ t.state.readEof = true) := by
  cases step_life h with
  | outside notices _ _ eof => exact ⟨fun h => eof.trans h, fun there => .inl (notices ▸ there)⟩
  | inside notices _ _ eof => exact ⟨fun h => eof.trans h, fun there => .inl (notices ▸ there)⟩
  | left left =>
      rw [left]
      exact ⟨id, fun there => .inl (by simpa [leave] using there)⟩
  | notice result n ha =>
      subst ha
      cases step_stepped h
      cases result with
      | eof => exact ⟨fun _ => rfl, fun _ => .inr rfl⟩
      | data | wouldBlock | error =>
          exact ⟨id, fun there => .inl (by simpa [readDone, leave] using there)⟩

/-- `connection_lost` is delivered with nothing in flight and nothing queued. -/
theorem step_flushed {w t : World} {a : Action} (clean : a.Clean) (isOpen : w.state.closing = false)
    (h : step w a = some t) (alive : w.pc ≠ .ended) (ended : t.pc = .ended) :
    a = .check ∧ shouldExit w.state = true ∧ w.inFlight = [] ∧ w.state.writeBuf = [] := by
  cases step_life h with
  | outside _ pc => exact absurd (pc ▸ ended) alive
  | inside _ _ going => exact absurd ended going
  | notice _ _ _ _ _ _ _ going => exact absurd ended going
  | left _ _ leaves =>
      cases leaves with
      | closing closing => rw [isOpen] at closing; cases closing
      | exhausted eof empty flight => exact ⟨rfl, by simp [shouldExit, eof, empty], flight, empty⟩
      | readError => exact clean.elim

theorem returnsEof_check {w t : World} {a : Action} (h : step w a = some t)
    (returns : returnsEof w a = true) : .eofReceived ∈ w.notices ∧ t.pc = .check ∧
    t.state = w.state := by
  cases a with
  | callbackReturned =>
      cases step_stepped h
      exact ⟨List.mem_of_getLast? (by simpa [returnsEof] using returns), rfl, rfl⟩
  | _ => cases returns

theorem Answering.Inv.step {s t : Answering} {a : Action × Bool} (inv : s.Inv) (clean : a.1.Clean)
    (h : s.step a = some t) : t.Inv := by
  obtain ⟨w, hw, rfl⟩ := Option.map_eq_some_iff.mp h
  obtain ⟨keepsEof, newEof⟩ := step_eof hw
  refine ⟨step_noClose clean inv.noClose hw, step_isOpen inv.noClose hw inv.isOpen,
    step_lost hw inv.lost, ?_, ?_, ?_, ?_, ?_, ?_⟩
  · rcases inv.account with whole | short
    · exact (step_whole_iff clean inv.noClose hw whole).2
    · exact .inr (step_short clean inv.noClose hw short)
  · intro there
    exact (newEof there).elim (fun old => keepsEof (inv.eof old)) id
  · intro answered
    rcases Bool.or_eq_true_iff.mp answered with before | returns
    · exact keepsEof (inv.answered before)
    · exact keepsEof (inv.eof (returnsEof_check hw returns).1)
  · intro declined
    rcases Bool.or_eq_true_iff.mp declined with before | now
    · exact Bool.or_eq_true_iff.mpr (.inl (inv.declined before))
    · exact Bool.or_eq_true_iff.mpr (.inr (Bool.and_eq_true_iff.mp now).1)
  · intro declined turning
    have before : s.declined = true := by
      refine (Bool.or_eq_true_iff.mp declined).resolve_right fun now => ?_
      have pc := (returnsEof_check hw (Bool.and_eq_true_iff.mp now).1).2.1
      rw [show w.pc = .check from pc] at turning
      exact turning
    rcases step_turning (fun thread => (inv.noClose thread).2) hw turning with
      ⟨was, grows⟩ | ⟨stays, state⟩
    · exact grows (inv.waits before was)
    · have eof := inv.answered (inv.declined before)
      rw [show w.state = s.world.state from state]
      intro empty
      simp [shouldExit, eof, empty] at stays
  · have flushed := inv.flushed
    simp only [flushed, Bool.false_or, decide_eq_false_iff_not]
    rintro ⟨alive, ended, waiting⟩
    obtain ⟨_, _, flight, empty⟩ := step_flushed clean inv.isOpen hw alive ended
    exact waiting.elim (fun h => h flight) fun h => h empty

/-- Under the invariant three clauses of the contract are left. -/
theorem kept_iff {s : Answering} (inv : s.Inv) :
    s.view.Kept ↔ s.world.Whole ∧ (s.world.pc = .ended → s.declined = true) ∧ ¬ s.HeldUp := by
  constructor
  · intro kept
    refine ⟨?_, fun ended => kept.stays (inv.lost.mpr ended), ?_⟩
    · rw [World.Whole, Conserved, List.flatten_cons, ← List.append_assoc]
      exact kept.whole
    · rintro ⟨answered, top, waiting, paused⟩
      have served := kept.serves answered top waiting fun lost => by
        rw [inv.lost.mp lost] at top
        cases top
      rw [show s.world.state.paused = false from served] at paused
      cases paused
  · rintro ⟨whole, stays, served⟩
    refine ⟨fun lost => stays (inv.lost.mp lost), ((integrity_iff_whole s.world).mpr whole).2, ?_,
      ?_, ?_⟩
    · intro answered top waiting _
      exact Bool.eq_false_iff.mpr fun paused => served ⟨answered, top, waiting, paused⟩
    · intro declined top empty
      refine absurd empty (inv.waits declined ?_)
      rw [show s.world.pc = .top from top]
      trivial
    · rw [show s.view.lostHolding = (s.lostHolding = true) from rfl, inv.flushed]
      exact Bool.false_ne_true

/-- A task that is not held up stays so exactly if the step serves it. -/
theorem heldUp_iff {s t : Answering} {a : Action × Bool} (going : ¬ s.HeldUp)
    (h : s.step a = some t) : ¬ t.HeldUp ↔ Serves s a.1 := by
  obtain ⟨action, truth⟩ := a
  obtain ⟨w, hw, rfl⟩ := Option.map_eq_some_iff.mp h
  have away : ∀ {answered declined lost}, w.pc ≠ .top → ¬ Answering.HeldUp
      ⟨w, answered, declined, lost⟩ :=
    fun other held => other held.2.1
  cases step_stepped hw with
  | enter thread method free =>
      refine iff_of_true (fun held => going ?_) trivial
      exact ⟨by simpa [returnsEof] using held.1, held.2.1, held.2.2.1, held.2.2.2⟩
  | commit thread u pending =>
      simp only [Answering.HeldUp, Serves, State.Stalled, returnsEof, Bool.or_false, pending,
        Option.mem_some_iff, forall_eq', not_and]
  | wake hpc =>
      simp only [Answering.HeldUp, Serves, State.Stalled, returnsEof, Bool.or_false, not_and,
        forall_const]
  | again hpc stays =>
      simp only [Answering.HeldUp, Serves, State.Stalled, returnsEof, Bool.or_false, not_and,
        forall_const]
  | exits hpc exits =>
      refine iff_of_true (away Pc.noConfusion) ?_
      rintro - ⟨waiting, -⟩
      simp [shouldExit, waiting] at exits
  | pollWrite result reads future w hpc polled =>
      obtain ⟨⟨f, pc⟩, _⟩ := pollWrite_frame polled
      exact iff_of_true (away fun top => Pc.noConfusion (pc.symm.trans top)) trivial
  | readDone result write hpc =>
      exact iff_of_true (away (by cases result <;> exact Pc.noConfusion)) trivial
  | closing | paused | running | guards | writeDone | sleepDone | callbackReturned =>
      exact iff_of_true (away Pc.noConfusion) trivial

theorem Answering.Inv.keeps {s t : Answering} {a : Action × Bool} (inv : s.Inv) (clean : a.1.Clean)
    (kept : s.view.Kept) (h : s.step a = some t) : t.view.Kept ↔ HalfCloses s a := by
  have after := inv.step clean h
  rw [kept_iff after]
  obtain ⟨whole, stays, going⟩ := (kept_iff inv).mp kept
  rw [heldUp_iff going h]
  obtain ⟨w, hw, rfl⟩ := Option.map_eq_some_iff.mp h
  have returns : a.1 = .check → returnsEof s.world a.1 = false := fun check => by rw [check]; rfl
  refine and_congr (step_whole_iff clean inv.noClose hw whole).1 (and_congr_left fun _ => ?_)
  constructor
  · intro leaves check exits
    have ended : w.pc = .ended := by
      rw [check] at hw
      cases step_stepped hw with
      | exits => rfl
      | again hpc stays => exact absurd exits (Bool.eq_false_iff.mp stays)
    simpa [returns check] using leaves ended
  · intro exits ended
    refine Bool.or_eq_true_iff.mpr (.inl ?_)
    by_cases alive : s.world.pc = .ended
    · exact stays alive
    · obtain ⟨check, exit, _⟩ := step_flushed clean inv.isOpen hw alive ended
      exact exits check exit

/-- The same contract for both transports. RLoop's plain transport keeps it in every run
without close, abort and socket error. A `TokioTCPTransport` keeps it in every state of
such a run exactly when each step of the run meets `HalfCloses`. -/
theorem half_close_agrees {σ : Type} (R : Tcp.Rustls σ) (start : Tcp.Cfg σ)
    (events : List (Tcp.Act × Tcp.Env)) (hstart : Tcp.PlainStart R start)
    (gentle : ∀ a ∈ events, Tcp.Gentle a) (actions : List (Action × Bool))
    (s : Answering) (h : Runs.run Answering.step Answering.start actions = some s)
    (clean : ∀ a ∈ actions, a.1.Clean) : Runs.Always (Tcp.answerStep R)
    (fun s => s.view.Kept) ⟨start, false, false⟩ events ∧
      (Runs.Always Answering.step (fun s => s.view.Kept) Answering.start actions ↔
        Runs.Guarded Answering.step HalfCloses Answering.start actions) := by
  refine ⟨Tcp.plain_keeps_half_close hstart gentle, ?_⟩
  have start : Answering.start.view.Kept := by
    refine (kept_iff inv_answering_start).mpr ⟨rfl, ?_, ?_⟩
    · intro ended
      cases ended
    · rintro ⟨answered, _⟩
      cases answered
  exact Runs.always_iff_guarded_admitted (C := fun a => a.1.Clean) (I := Answering.Inv)
    (fun _ _ _ clean inv hstep => inv.step clean hstep)
    (fun _ _ _ clean inv kept hstep => inv.keeps clean kept hstep) h clean inv_answering_start start

/-- The peer ends its direction, `eof_received` answers, and the transport goes on. -/
def eofOnPlain : List (Tcp.Act × Tcp.Env) :=
  [(.made, ⟨[], [], 0⟩), (.ret .falsy, ⟨[], [], 0⟩), (.poll .readable, ⟨[], [], 0⟩),
      (.fire, ⟨[.eof], [], 0⟩),
    (.ret .truthy, ⟨[], [], 0⟩), (.call (.write [7]), ⟨[], [.ok 1], 0⟩)]

/-- The end of input on an idle connection, with the answer of `eof_received`. -/
def eofOnTask (truthy : Bool) : List (Action × Bool) :=
  [(.top, true), (.guards, true), (.readDone .eof, true), (.callbackReturned, truthy),
    (.check, true)]

theorem half_close_agrees_idle :
    Runs.Always (Tcp.answerStep Tcp.noTls) (fun s => s.view.Kept) ⟨Tcp.accepted 3 none false 1000,
      false, false⟩
        eofOnPlain ∧
      Runs.Always Answering.step (fun s => s.view.Kept) Answering.start (eofOnTask false) := by
  have agrees := half_close_agrees Tcp.noTls _ eofOnPlain (.accepted 3 false 1000)
    (by simp [eofOnPlain, Tcp.Gentle, Tcp.Undisturbed, Tcp.Method.orderly, Tcp.WriteResult.isFatal])
    (eofOnTask false) _ rfl (by simp [eofOnTask, Action.Clean])
  refine ⟨agrees.1, agrees.2.mpr ?_⟩
  refine Runs.guarded_cons rfl ⟨trivial, Action.noConfusion, trivial⟩
    (Runs.guarded_cons rfl ⟨trivial, Action.noConfusion, trivial⟩
    (Runs.guarded_cons rfl ⟨rfl, Action.noConfusion, trivial⟩
    (Runs.guarded_cons rfl ⟨trivial, Action.noConfusion, trivial⟩
    (Runs.guarded_cons rfl ⟨trivial, fun _ _ => rfl, ?_⟩ trivial))))
  rintro - ⟨waiting, -⟩
  exact waiting rfl

/-- A truthy answer with an empty write buffer: the connection is lost at once. -/
theorem truthy_eof_is_lost :
    ¬ ∀ (actions : List (Action × Bool)) (s : Answering),
    Runs.run Answering.step Answering.start actions = some s →
      (∀ a ∈ actions, a.1.Clean) → s.view.Kept := by
  intro always
  obtain ⟨s, hrun, notices, answer⟩ :
    ∃ s, Runs.run Answering.step Answering.start (eofOnTask true) = some s ∧
      s.world.notices = [.eofReceived, .connectionLost] ∧ s.declined = false := ⟨_, rfl, rfl, rfl⟩
  have kept := always (eofOnTask true) s hrun (by simp [eofOnTask, Action.Clean])
  have declined : s.declined = true := kept.stays (by simp [Answering.view, notices])
  rw [answer] at declined
  cases declined

end TokioLoop.TokioTcp
