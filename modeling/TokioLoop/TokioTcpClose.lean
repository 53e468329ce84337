import TokioLoop.TokioTcpOutbound

/-! `close()` on a `TokioTCPTransport` against its I/O task: what has to hold in a run for
everything accepted before `close()` to be with the kernel when `connection_lost` is
delivered. -/
namespace TokioLoop.TokioTcp
open ByteLedger

/-- `accepted` is the data of the writes made before `close()` was called. -/
structure Session where
  world : World
  accepted : Bytes

def Session.start : Session := ⟨TokioTcp.start, []⟩

/-- `close()` is called when it exchanges the atomic flag. -/
def Session.step (s : Session) (a : Action) : Option Session :=
  (TokioTcp.step s.world a).map fun t =>
    ⟨t, if s.world.flags.closing then s.accepted else t.written⟩

/-- Neither a socket error nor an abort. -/
def Action.Gentle : Action → Prop
  | .enter _ .abort | .pollWrite .error | .readDone .error => False
  | _ => True

def Session.Flushed (s : Session) : Prop := .connectionLost ∈ s.world.notices →
    s.accepted <+: s.world.sent

/-- The steps that do not leave accepted bytes behind: a `select!` drops the write branch
only when nothing of its chunk is unsent, the loop finds `closing` set only with an empty
write buffer, and no write before `close()` comes after the task has ended. -/
def Drains (s : Session) : Action → Prop
  | .readDone _ | .sleepDone => s.world.inFlight = []
  | .top => s.world.state.closing = true → s.world.state.writeBuf = []
  | .commit thread => s.world.pc = .ended → s.world.flags.closing = false →
      ∀ update ∈ s.world.calls thread, update.data = []
  | _ => True

instance (s : Session) (a : Action) : Decidable (Drains s a) := by
  unfold Drains
  split <;> infer_instance

theorem Action.Gentle.noError {a : Action} (gentle : a.Gentle) : a.NoError := by
  cases a with
  | pollWrite result | readDone result => cases result <;> exact gentle
  | _ => trivial

theorem Drains.keepsChunk {s : Session} {a : Action} (drains : Drains s a) :
    KeepsChunk s.world a := by
  cases a with
  | readDone | sleepDone => exact drains
  | _ => trivial

theorem enter_abort {f : Flags} {m : Method} (h : (m.enter f).2 = some .abortClosing) :
    m = .abort := by
  cases m <;> simp only [Method.enter] at h <;> split_ifs at h <;> simp_all

/-- Why the loop is left. -/
inductive Leaves (w : World) : Action → Prop where
  | closing : w.state.closing = true → w.inFlight = [] → Leaves w .top
  | exhausted : w.state.readEof = true → w.state.writeBuf = [] → w.inFlight = [] → Leaves w .check
  | readError : Leaves w (.readDone .error)

/-- What a step does to the life of the task: a call from outside leaves it alone, a
step inside the loop delivers nothing or the outcome of a read, and the loop is left
with `connection_lost`. -/
inductive LifeMove (w : World) (a : Action) (t : World) : Prop where
  | outside : t.notices = w.notices → t.pc = w.pc → t.sent = w.sent →
      t.state.readEof = w.state.readEof → LifeMove w a t
  | inside : t.notices = w.notices → w.pc ≠ .ended → t.pc ≠ .ended →
      t.state.readEof = w.state.readEof → LifeMove w a t
  | notice (result : ReadResult) (n : Notice) : a = .readDone result → result ≠ .wouldBlock →
      n ≠ .connectionLost → t.notices = w.notices ++ [n] → w.pc ≠ .ended → t.pc ≠ .ended →
      LifeMove w a t
  | left : t = leave w → w.pc ≠ .ended → Leaves w a → LifeMove w a t

theorem apply_readEof (s : State) (u : Update) : (u.apply s).readEof = s.readEof := by
  cases u <;> rfl

theorem step_life {w t : World} {a : Action} (h : step w a = some t) : LifeMove w a t := by
  have alive {pc : Pc} (hpc : w.pc = pc) (other : pc ≠ .ended) : w.pc ≠ .ended := hpc ▸ other
  cases step_stepped h with
  | enter => exact .outside rfl rfl rfl rfl
  | commit => exact .outside rfl rfl rfl (apply_readEof _ _)
  | closing hpc closing =>
      exact .left rfl (alive hpc Pc.noConfusion) (.closing closing (by simp [World.inFlight, hpc]))
  | exits hpc exits =>
      have both : w.state.readEof = true ∧ w.state.writeBuf = [] := by
        simp only [shouldExit, Bool.or_eq_true, Bool.and_eq_true, List.isEmpty_iff] at exits
        rcases exits with ⟨eof, empty⟩ | ⟨⟨eof, _⟩, empty⟩ <;> exact ⟨eof, empty⟩
      exact .left rfl (alive hpc Pc.noConfusion)
        (.exhausted both.1 both.2 (by simp [World.inFlight, hpc]))
  | pollWrite result reads future t hpc polled =>
      obtain ⟨⟨f, pc⟩, notices, eof, _⟩ := pollWrite_frame polled
      exact .inside notices (alive hpc Pc.noConfusion) (by rw [pc]; exact Pc.noConfusion) eof
  | readDone result write hpc =>
      have alive := alive hpc Pc.noConfusion
      cases result with
      | eof =>
          exact .notice .eof .eofReceived rfl ReadResult.noConfusion Notice.noConfusion rfl alive
            Pc.noConfusion
      | data first rest =>
          exact .notice (.data first rest)
            (.dataReceived (first :: rest)) rfl ReadResult.noConfusion
            Notice.noConfusion rfl alive Pc.noConfusion
      | wouldBlock => exact .inside rfl alive Pc.noConfusion rfl
      | error => exact .left rfl alive .readError
  | paused hpc | running hpc | wake hpc | guards _ hpc | writeDone _ hpc | sleepDone _ _ hpc
  | callbackReturned hpc
  | again hpc => exact .inside rfl (alive hpc Pc.noConfusion) Pc.noConfusion rfl

theorem enter_closing {f : Flags} (m : Method) (h : f.closing = true) :
    (m.enter f).1.closing = true := by
  cases m <;> simp only [Method.enter] <;> split_ifs <;> simp_all

theorem step_flags {w t : World} {a : Action} (h : step w a = some t) :
    t.flags = w.flags ∨ ∃ thread method, a = .enter thread method ∧
    t.flags = (method.enter w.flags).1 := by
  cases step_stepped h with
  | enter thread method => exact .inr ⟨thread, method, rfl, rfl⟩
  | pollWrite _ _ _ _ _ polled => exact .inl (pollWrite_frame polled).2.2.2.2.1
  | readDone result => cases result <;> exact .inl rfl
  | _ => exact .inl rfl

theorem step_closing {w t : World} {a : Action} (h : step w a = some t)
    (closing : w.flags.closing = true) : t.flags.closing = true := by
  rcases step_flags h with same | ⟨thread, method, _, entered⟩
  · rwa [same]
  · rw [entered]
    exact enter_closing method closing

theorem Moves.written_grows {w t : World} (m : Moves w t) : w.written <+: t.written := by
  cases m with
  | push data _ hw => exact ⟨data, hw.symm⟩
  | idle _ hw | pop _ hw | send _ _ hw => exact hw ▸ List.prefix_refl _

/-- `ended` is what has to be shown; the other fields carry it. -/
structure CloseInv (s : Session) : Prop where
  noAbort : ∀ thread, s.world.calls thread ≠ some .abortClosing
  whole : s.world.Whole
  unclosed : s.world.flags.closing = false → s.accepted = s.world.written
  before : s.accepted <+: s.world.written
  lost : .connectionLost ∈ s.world.notices → s.world.pc = .ended
  ended : s.world.pc = .ended → s.accepted <+: s.world.sent

theorem closeInv_start : CloseInv Session.start where
  noAbort _ := nofun
  whole := rfl
  unclosed _ := rfl
  before := List.prefix_refl _
  lost := by simp [Session.start, TokioTcp.start]
  ended h := by cases h

/-- A commit after the end of the task adds nothing before `close()`. -/
theorem written_at_end {s : Session} {t : World} {a : Action} (drains : Drains s a)
    (ended : s.world.pc = .ended) (isOpen : s.world.flags.closing = false)
    (h : TokioTcp.step s.world a = some t) : t.written = s.world.written := by
  cases step_stepped h with
  | enter => rfl
  | commit thread update pending => simp [drains ended isOpen update pending]
  | pollWrite _ _ _ _ hpc | closing hpc | paused hpc | running hpc | wake hpc | guards _ hpc
  | writeDone _ hpc
  | readDone _ _ hpc | sleepDone _ _ hpc | callbackReturned hpc | exits hpc | again hpc =>
      cases ended.symm.trans hpc

theorem CloseInv.step {s t : Session} {a : Action} (inv : CloseInv s) (gentle : a.Gentle)
    (drains : Drains s a) (h : s.step a = some t) : CloseInv t := by
  obtain ⟨w, hw, rfl⟩ := Option.map_eq_some_iff.mp h
  have moves := step_moves gentle.noError inv.noAbort drains.keepsChunk hw
  have whole := moves.whole inv.whole
  have before : (if s.world.flags.closing then s.accepted else w.written) <+: w.written := by
    split_ifs
    · exact inv.before.trans moves.written_grows
    · exact List.prefix_refl _
  refine ⟨?_, whole, ?_, before, ?_, ?_⟩
  · refine step_never_pending hw ?_ inv.noAbort
    rintro thread method rfl asks
    rw [enter_abort asks] at gentle
    exact gentle
  · intro isOpen
    have wasOpen : s.world.flags.closing = false := by
      by_contra closing
      rw [step_closing hw (Bool.not_eq_false _ ▸ closing)] at isOpen
      cases isOpen
    simp [wasOpen]
  · intro lost
    cases step_life hw with
    | outside notices pc => exact pc.trans (inv.lost (notices ▸ lost))
    | inside notices alive => exact absurd (inv.lost (notices ▸ lost)) alive
    | notice result n _ _ other notices alive =>
        rcases List.mem_append.mp (notices ▸ lost) with old | fresh
        · exact absurd (inv.lost old) alive
        · exact absurd (List.mem_singleton.mp fresh).symm other
    | left left => rw [left]; rfl
  · intro ended
    cases step_life hw with
    | outside _ pc sent =>
        have atEnd := pc ▸ ended
        have flushed := inv.ended atEnd
        cases closing : s.world.flags.closing with
        | true => simpa [closing, sent] using flushed
        | false =>
            simpa [closing, sent, written_at_end drains atEnd closing hw, inv.unclosed closing]
              using flushed
    | inside _ _ alive | notice _ _ _ _ _ _ _ alive => exact absurd ended alive
    | left left _ leaves =>
        -- nothing is in flight or queued, so what was written is what was sent
        obtain ⟨flight, empty⟩ : s.world.inFlight = [] ∧ s.world.state.writeBuf = [] := by
          cases leaves with
          | closing closing flight => exact ⟨flight, drains closing⟩
          | exhausted _ empty flight => exact ⟨flight, empty⟩
          | readError => exact gentle.elim
        have all : w.sent = w.written := by
          have account : s.world.sent = s.world.written := by
            simpa [World.Whole, Conserved, flight, empty] using inv.whole
          rw [left]
          exact account
        rw [all]
        exact before

/-- In a run without abort and socket error whose steps drain, `connection_lost` comes
after everything accepted before `close()` has been handed to the kernel. -/
theorem close_flushes (actions : List Action) (s : Session)
    (h : Runs.run Session.step Session.start actions = some s) (gentle : ∀ a ∈ actions, a.Gentle)
    (drains : Runs.Guarded Session.step Drains Session.start actions) : s.Flushed := by
  have inv : CloseInv s :=
    Runs.run_preserves (fun _ _ _ inv good hstep => inv.step good.1 good.2 hstep) h closeInv_start
      ((Runs.guarded_of_forall gentle).and drains)
  intro lost
  exact inv.ended (inv.lost lost)

/-- A chunk is written before the loop finds the transport closed. -/
def writtenThenClosed : List Action :=
  [.enter 0 (.write [1, 2]), .commit 0, .top, .guards, .pollWrite (.progress 0), .enter 0 .close,
      .commit 0,
    .pollWrite (.progress 2), .pollWrite (.progress 0), .writeDone, .check, .top]

theorem close_flushes_written :
    ∃ s, Runs.run Session.step Session.start writtenThenClosed = some s ∧ s.accepted = [1, 2] ∧
      .connectionLost ∈ s.world.notices ∧ s.Flushed := by
  refine ⟨_, rfl, rfl, by decide, ?_⟩
  exact close_flushes writtenThenClosed _ rfl (by simp [writtenThenClosed, Action.Gentle])
    (by decide)

/-- `write` and `close` before the loop gets to its top. -/
def closedAtOnce : List Action :=
  [.enter 0 (.write [1, 2]), .commit 0, .enter 0 .close, .commit 0, .top]

theorem close_drops_buffer :
    ¬ ∀ (actions : List Action) (s : Session),
    Runs.run Session.step Session.start actions = some s →
      (∀ a ∈ actions, a.Gentle) → s.Flushed := by
  intro always
  obtain ⟨s, hrun, haccepted, hsent, hlost⟩ :
    ∃ s, Runs.run Session.step Session.start closedAtOnce = some s ∧
      s.accepted = [1, 2] ∧ s.world.sent = [] ∧ .connectionLost ∈ s.world.notices :=
    ⟨_, rfl, rfl, rfl, by decide⟩
  have flushed := always closedAtOnce s hrun (by simp [closedAtOnce, Action.Gentle]) hlost
  rw [haccepted, hsent] at flushed
  simp at flushed

end TokioLoop.TokioTcp
