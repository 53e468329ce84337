import TokioLoop.TokioTcpFlags

/-!
What `pause_reading` does to the two directions of a `TokioTCPTransport`: the test of
`paused` at the top of `io_processing_loop` comes too late for a read that has already
started, and it puts off the writes too.
-/
namespace TokioLoop.TokioTcp

def Notice.data? : Notice → Option Bytes
  | .dataReceived data => some data
  | .eofReceived | .connectionLost => none

/-- The calls of `data_received`, oldest first. -/
def World.received (w : World) : List Bytes := w.notices.filterMap Notice.data?

/-- The loop is past its test of `paused` with the read branch enabled. -/
def Pc.Reading : Pc → Prop
  | .guards readEof => readEof = false
  | .select reads _ => reads = true
  | _ => False

/-- No read has started, and the next top of the loop starts none. -/
def World.Silent (w : World) : Prop :=
  ¬ w.pc.Reading ∧ (w.state.closing = true ∨ w.state.readEof = true ∨ w.pc = .ended ∨
    w.state.paused = true)

/-- No `resume_reading` is in progress. -/
def Split.NoResume (s : Split) : Prop :=
  ∀ thread, s.loaded thread ≠ some .resumeReading ∧ s.world.calls thread ≠ some (.setPaused false)

/-- The three returns of `pause_reading`: the transport is closing, the flag is set
already, or the copy has been written. -/
def ReturnsPause (s : Split) : SplitAction → Prop
  | .load _ method => method = .pauseReading ∧ s.world.flags.closing = true
  | .exchange thread => s.loaded thread = some .pauseReading ∧ s.world.flags.paused = true
  | .plain (.commit thread) => s.world.calls thread = some (.setPaused true)
  | .plain _ => False

/-- A `resume_reading` that overlaps the return may count as the later call. -/
def PauseReturned (s : Split) (a : SplitAction) (t : Split) : Prop := ReturnsPause s a ∧ t.NoResume

def SplitAction.Resumes : SplitAction → Prop
  | .load _ method => method = .resumeReading
  | _ => False

/-- Until `resume_reading` is called no data is delivered. -/
def Split.Holds (s : Split) : Prop :=
  ∀ (more : List SplitAction) (u : Split), Runs.run Split.step s more = some u →
    (∀ a ∈ more, ¬ a.Resumes) → u.world.received = s.world.received

/-- An iteration of an open transport gets to its `select!`, and there it enables the
write branch, whenever something is to be written or shut down. -/
def Offers (s : Split) (a : SplitAction) (t : Split) : Prop :=
  match a with
  | .plain .top => s.world.state.closing = false → writeEnabled s.world.state = true →
      ∃ readEof, t.world.pc = .guards readEof
  | .plain .guards =>
      writeEnabled s.world.state = true → ∃ reads, t.world.pc = .select reads (some .notPolled)
  | _ => True

/-- Pausing stops the read side, and the read side only. -/
def PausesReadsOnly (s : Split) (a : SplitAction) : Prop :=
  ∀ t, s.step a = some t → (PauseReturned s a t → t.Holds) ∧ Offers s a t

/-- The loop's top finds an open transport paused with something to write. -/
def PutsOffWrites (s : Split) : SplitAction → Prop
  | .plain .top => s.world.state.closing = false ∧ s.world.state.paused = true ∧
      writeEnabled s.world.state = true
  | _ => False

/-- Every `pause_reading` returns while no read is under way or due, and no paused
iteration has something to write. -/
def PausesIdly (s : Split) (a : SplitAction) : Prop :=
  ∀ t, s.step a = some t → (PauseReturned s a t → t.world.Silent) ∧ ¬ PutsOffWrites s a

theorem received_same {w t : World} (notices : t.notices = w.notices) :
    t.received = w.received := by
  rw [World.received, notices]
  rfl

theorem received_append {w t : World} {n : Notice} (notices : t.notices = w.notices ++ [n])
    (other : n.data? = none) : t.received = w.received := by
  simp [World.received, notices, other]

theorem leave_received (w : World) : (leave w).received = w.received :=
  received_append (n := .connectionLost) rfl rfl

/-- An update never reopens a transport, and only a resume unpauses it. -/
theorem apply_keeps {s : State} {u : Update} (quiet : u ≠ .setPaused false) :
    (s.closing = true → (u.apply s).closing = true) ∧ (u.apply s).readEof = s.readEof ∧
      (s.paused = true → (u.apply s).paused = true) := by
  cases u with
  | push | setWeof => exact ⟨id, rfl, id⟩
  | setPaused paused =>
      cases paused with
      | false => exact absurd rfl quiet
      | true => exact ⟨id, rfl, fun _ => rfl⟩
  | setClosing | abortClosing => exact ⟨fun _ => rfl, rfl, id⟩

theorem silent_of {w t : World} (stopped : ¬ t.pc.Reading)
    (why : w.state.closing = true ∨ w.state.readEof = true ∨ w.pc = .ended ∨ w.state.paused = true)
    (alive : w.pc ≠ .ended) (same : t.state = w.state) : t.Silent := by
  refine ⟨stopped, ?_⟩
  rw [same]
  rcases why with closing | eof | ended | paused
  · exact .inl closing
  · exact .inr (.inl eof)
  · exact absurd ended alive
  · exact .inr (.inr (.inr paused))

theorem Silent.step {w t : World} {a : Action} (silent : w.Silent)
    (quiet : ∀ thread, w.calls thread ≠ some (.setPaused false)) (h : step w a = some t) :
    t.Silent ∧ t.received = w.received := by
  obtain ⟨stopped, why⟩ := silent
  have goesOn {pc : Pc} (hpc : w.pc = pc) (other : pc ≠ .ended) {u : World} (still : ¬ u.pc.Reading)
      (same : u.state = w.state) : u.Silent := silent_of still why (hpc ▸ other) same
  cases step_stepped h with
  | enter => exact ⟨⟨stopped, why⟩, rfl⟩
  | commit thread u pending =>
      obtain ⟨closing, eof, paused⟩ := apply_keeps (s := w.state) (u := u) fun hu =>
        quiet thread (hu ▸ pending)
      exact ⟨⟨stopped, why.imp closing (Or.imp (eof ▸ id) (Or.imp_right paused))⟩, rfl⟩
  | closing | exits => exact ⟨⟨id, .inr (.inr (.inl rfl))⟩, leave_received w⟩
  | running hpc isOpen awake =>
      have eof : w.state.readEof = true := by
        rcases why with closing | eof | ended | paused
        · exact absurd closing (Bool.eq_false_iff.mp isOpen)
        · exact eof
        · cases ended.symm.trans hpc
        · exact absurd paused (Bool.eq_false_iff.mp awake)
      exact ⟨goesOn hpc Pc.noConfusion (by simp [Pc.Reading, eof]) rfl, rfl⟩
  | guards readEof hpc =>
      rw [hpc] at stopped
      refine ⟨goesOn hpc Pc.noConfusion ?_ rfl, rfl⟩
      simpa [Pc.Reading] using stopped
  | pollWrite result reads future t hpc polled =>
      obtain ⟨⟨f, pc⟩, notices, eof, marks, _⟩ := pollWrite_frame polled
      rw [hpc] at stopped why
      have closing : t.state.closing = w.state.closing := congrArg Flags.closing marks
      have paused : t.state.paused = w.state.paused := congrArg Flags.paused marks
      refine ⟨⟨?_, ?_⟩, received_same notices⟩
      · rw [pc]
        exact stopped
      · rw [closing, eof, paused, pc]
        simpa using why
  | readDone result write hpc =>
      rw [hpc] at stopped
      exact absurd rfl stopped
  | paused hpc | wake hpc | writeDone _ hpc | sleepDone _ _ hpc | callbackReturned hpc
  | again hpc =>
      exact ⟨goesOn hpc Pc.noConfusion id rfl, rfl⟩

theorem exchange_quiet {f : Flags} {m : Method} (other : m ≠ .resumeReading) :
    (m.exchange f).2 ≠ some (.setPaused false) := by
  cases m <;> simp only [Method.exchange] <;> split_ifs <;> simp_all

theorem NoResume.step {s t : Split} {a : SplitAction} (quiet : s.NoResume) (new : ¬ a.Resumes)
    (h : s.step a = some t) : t.NoResume := by
  intro thread
  cases a with
  | load other method =>
      obtain ⟨_, _, _, rfl⟩ := Split.step_load h
      split_ifs
      · exact quiet thread
      · refine ⟨?_, (quiet thread).2⟩
        by_cases same : thread = other
        · subst same
          simpa [SplitAction.Resumes] using new
        · simpa [Function.update_of_ne same] using (quiet thread).1
  | exchange other =>
      obtain ⟨method, held, loaded, world⟩ := Split.step_exchange h
      rw [loaded, world]
      by_cases same : thread = other
      · subst same
        simp only [Function.update_self, ne_eq, reduceCtorEq, not_false_eq_true, true_and]
        exact exchange_quiet fun resume => (quiet thread).1 (resume ▸ held)
      · simpa [Function.update_of_ne same] using quiet thread
  | plain action =>
      obtain ⟨admitted, loaded, hw⟩ := Split.step_plain h
      refine ⟨loaded ▸ (quiet thread).1, ?_⟩
      refine step_never_pending hw ?_ (fun other => (quiet other).2) thread
      rintro caller method rfl
      rw [enter_eq_exchange, Split.admits_single admitted caller method rfl]
      refine exchange_quiet ?_
      rintro rfl
      cases Split.admits_single admitted caller _ rfl

theorem Split.step_silent {s t : Split} {a : SplitAction} (silent : s.world.Silent)
    (quiet : s.NoResume) (h : s.step a = some t) : t.world.Silent ∧
    t.world.received = s.world.received := by
  cases a with
  | load thread method =>
      obtain ⟨_, _, _, rfl⟩ := Split.step_load h
      split_ifs <;> exact ⟨silent, rfl⟩
  | exchange thread =>
      obtain ⟨method, _, _, world⟩ := Split.step_exchange h
      rw [world]
      exact ⟨silent, rfl⟩
  | plain action =>
      obtain ⟨_, _, hw⟩ := Split.step_plain h
      exact Silent.step silent (fun thread => (quiet thread).2) hw

theorem holds_of_silent {s : Split} (quiet : s.NoResume) (silent : s.world.Silent) : s.Holds := by
  intro more u h noResume
  refine (Runs.run_preserves (I := fun v => v.NoResume ∧ v.world.Silent ∧
    v.world.received = s.world.received) (G := fun _ a => ¬ a.Resumes) ?_ h ⟨quiet, silent, rfl⟩
    (Runs.guarded_of_forall noResume)).2.2
  rintro v a w ⟨hquiet, hsilent, received⟩ new hstep
  obtain ⟨after, same⟩ := Split.step_silent hsilent hquiet hstep
  exact ⟨NoResume.step hquiet new hstep, after, same.trans received⟩

/-- Once the end of the stream is read the read branch stays off. -/
def World.StopsAtEof (w : World) : Prop :=
  match w.pc with
  | .guards readEof => readEof = w.state.readEof
  | .select reads _ => reads = !w.state.readEof
  | _ => True

theorem StopsAtEof.step {w t : World} {a : Action} (stops : w.StopsAtEof) (h : step w a = some t) :
    t.StopsAtEof := by
  cases step_stepped h with
  | enter => exact stops
  | commit thread u pending =>
      have eof : (u.apply w.state).readEof = w.state.readEof := by cases u <;> rfl
      simpa only [World.StopsAtEof, eof] using stops
  | pollWrite result reads future t hpc polled =>
      obtain ⟨⟨f, pc⟩, _, eof, _⟩ := pollWrite_frame polled
      simp only [World.StopsAtEof, hpc] at stops
      simpa only [World.StopsAtEof, pc, eof] using stops
  | guards readEof hpc =>
      simp only [World.StopsAtEof, hpc] at stops
      simp only [World.StopsAtEof, stops]
  | running => rfl
  | readDone result => cases result <;> trivial
  | _ => trivial

/-- Some continuation without a call of any method gets data to the protocol. -/
def Split.Delivers (s : Split) : Prop :=
  ∃ (tasks : List Action) (u : Split), Runs.run Split.step s (tasks.map .plain) = some u ∧
    u.world.received ≠ s.world.received

theorem Delivers.not_holds {s : Split} (delivers : s.Delivers) : ¬ s.Holds := by
  intro holds
  obtain ⟨tasks, u, hrun, changed⟩ := delivers
  refine changed (holds _ u hrun ?_)
  intro a ha
  obtain ⟨task, _, rfl⟩ := List.mem_map.mp ha
  exact id

theorem delivers_step {s t : Split} {a : Action} (h : s.step (.plain a) = some t)
    (same : t.world.received = s.world.received) (delivers : t.Delivers) : s.Delivers := by
  obtain ⟨tasks, u, hrun, changed⟩ := delivers
  exact ⟨a :: tasks, u, Runs.run_cons_iff.mpr ⟨t, h, hrun⟩, same ▸ changed⟩

/-- The action of the task that takes the loop on from `s`. -/
theorem plain_of {s : Split} {a : Action} {w : World} (task : s.admits a = true)
    (h : step s.world a = some w) : s.step (.plain a) = some { s with world := w } := by
  simp [Split.step, task, h]

theorem delivers_of_select {s : Split} {write : Option WriteFuture}
    (hpc : s.world.pc = .select true write) :
    s.Delivers := by
  refine ⟨[.readDone (.data 0 [])], { s with world := readDone s.world (.data 0 []) }, ?_, ?_⟩
  · exact Runs.run_cons_iff.mpr ⟨_, plain_of rfl (by simp [step, hpc]), rfl⟩
  · simp [readDone, World.received, Notice.data?]

theorem delivers_of_guards {s : Split} (hpc : s.world.pc = .guards false) : s.Delivers := by
  refine delivers_step (a := .guards) (t := { s with world := { s.world with
    pc := .select true (if writeEnabled s.world.state then some .notPolled else none) } })
    (plain_of rfl ?_) rfl (delivers_of_select rfl)
  simp [step, hpc]

theorem delivers_of_top {s : Split} (hpc : s.world.pc = .top)
    (isOpen : s.world.state.closing = false) (running : s.world.state.paused = false)
    (noEof : s.world.state.readEof = false) : s.Delivers := by
  refine delivers_step (t := { s with world := { s.world with pc := .guards false } }) (a := .top)
    (plain_of rfl ?_) rfl (delivers_of_guards rfl)
  simp [step, hpc, isOpen, running, noEof]

theorem delivers_of_check {s : Split} (hpc : s.world.pc = .check)
    (isOpen : s.world.state.closing = false) (running : s.world.state.paused = false)
    (noEof : s.world.state.readEof = false) : s.Delivers := by
  refine delivers_step (t := { s with world := { s.world with pc := .top } }) (a := .check)
    (plain_of rfl ?_) rfl (delivers_of_top rfl isOpen running noEof)
  simp [step, hpc, shouldExit, noEof]

theorem delivers_of_loud {s : Split} (stops : s.world.StopsAtEof) (loud : ¬ s.world.Silent) :
    s.Delivers := by
  by_cases reading : s.world.pc.Reading
  · cases hpc : s.world.pc with
    | guards readEof =>
        rw [hpc] at reading
        exact delivers_of_guards (reading ▸ hpc)
    | select reads write =>
        rw [hpc] at reading
        exact delivers_of_select (reading ▸ hpc)
    | top | sleeping | callback | check | ended =>
        rw [hpc] at reading
        exact reading.elim
  · have calm : ¬ (s.world.state.closing = true ∨ s.world.state.readEof = true ∨
      s.world.pc = .ended ∨
        s.world.state.paused = true) := fun why => loud ⟨reading, why⟩
    simp only [not_or, Bool.not_eq_true] at calm
    obtain ⟨isOpen, noEof, alive, running⟩ := calm
    cases hpc : s.world.pc with
    | top => exact delivers_of_top hpc isOpen running noEof
    | check => exact delivers_of_check hpc isOpen running noEof
    | sleeping =>
        refine delivers_step (t := { s with world := { s.world with pc := .top } }) (a := .wake)
          (plain_of rfl ?_) rfl (delivers_of_top rfl isOpen running noEof)
        simp [step, hpc]
    | callback =>
        refine delivers_step (t := { s with world := { s.world with pc := .check } })
          (a := .callbackReturned) (plain_of rfl ?_) rfl
          (delivers_of_check rfl isOpen running noEof)
        simp [step, hpc]
    | guards readEof =>
        simp only [World.StopsAtEof, hpc] at stops
        rw [hpc] at reading
        exact absurd (stops.trans noEof) reading
    | select reads write =>
        simp only [World.StopsAtEof, hpc, noEof, Bool.not_false] at stops
        rw [hpc] at reading
        exact absurd stops reading
    | ended => exact absurd hpc alive

/-- What has just been promised holds exactly in a silent state. -/
theorem holds_iff_silent {s : Split} (quiet : s.NoResume) (stops : s.world.StopsAtEof) :
    s.Holds ↔ s.world.Silent := by
  constructor
  · intro holds
    by_contra loud
    exact Delivers.not_holds (delivers_of_loud stops loud) holds
  · exact holds_of_silent quiet

theorem stopsAtEof_start : Split.start.world.StopsAtEof := trivial

theorem Split.step_stopsAtEof {s t : Split} {a : SplitAction} (stops : s.world.StopsAtEof)
    (h : s.step a = some t) :
    t.world.StopsAtEof := by
  cases a with
  | load thread method =>
      obtain ⟨_, _, _, rfl⟩ := Split.step_load h
      split_ifs <;> exact stops
  | exchange thread =>
      obtain ⟨method, _, _, world⟩ := Split.step_exchange h
      rw [world]
      exact stops
  | plain action =>
      obtain ⟨_, _, hw⟩ := Split.step_plain h
      exact StopsAtEof.step stops hw

/-- The top of the loop leaves out the write branch exactly when it sleeps. -/
theorem offers_iff {s t : Split} {a : SplitAction} (h : s.step a = some t) :
    Offers s a t ↔ ¬ PutsOffWrites s a := by
  cases a with
  | load | exchange => exact iff_of_true trivial id
  | plain action =>
      obtain ⟨w, loaded⟩ := t
      obtain ⟨_, _, hw⟩ := Split.step_plain h
      cases TokioTcp.step_stepped hw with
      | closing _ closing => simp [Offers, PutsOffWrites, closing]
      | paused _ isOpen paused => simp [Offers, PutsOffWrites, isOpen, paused]
      | running _ _ awake => simp [Offers, PutsOffWrites, awake]
      | guards =>
          refine iff_of_true ?_ id
          intro enabled
          simp [enabled]
      | _ => exact iff_of_true trivial id

/-- In a run every returned `pause_reading` stops `data_received` until `resume_reading`
and leaves the writes alone, exactly when no `pause_reading` returns while a read is
under way or due and no paused iteration has something to write. -/
theorem pauses_reads_only_iff (actions : List SplitAction) (s : Split)
    (h : Runs.run Split.step Split.start actions = some s) :
    Runs.Guarded Split.step PausesReadsOnly Split.start actions ↔
      Runs.Guarded Split.step PausesIdly Split.start actions := by
  refine Runs.guarded_congr_run (I := fun v => v.world.StopsAtEof)
    (fun v a u stops hstep => Split.step_stopsAtEof stops hstep) ?_ h stopsAtEof_start
  intro v a u stops hstep
  simp only [PausesReadsOnly, PausesIdly, hstep, Option.some.injEq, forall_eq']
  refine and_congr ?_ (offers_iff hstep)
  have stopsAfter := Split.step_stopsAtEof stops hstep
  constructor
  · intro kept returned
    exact (holds_iff_silent returned.2 stopsAfter).mp (kept returned)
  · intro silent returned
    exact (holds_iff_silent returned.2 stopsAfter).mpr (silent returned)

/-- A protocol that pauses in `data_received`, before the loop is at its top again. -/
def pausedInCallback : List SplitAction :=
  [.plain .top, .plain .guards, .plain (.readDone (.data 7 [])), .load 1 .pauseReading, .exchange 1,
    .plain (.commit 1)]

theorem pauses_reads_only_in_callback :
    Runs.Guarded Split.step PausesReadsOnly Split.start pausedInCallback := by
  refine (pauses_reads_only_iff pausedInCallback _ rfl).mpr ?_
  have quiet : ∀ (s : Split) (a : SplitAction), ¬ ReturnsPause s a → ¬ PutsOffWrites s a →
      PausesIdly s a :=
    fun s a other idle t _ => ⟨fun returned => absurd returned.1 other, idle⟩
  refine Runs.guarded_cons rfl (quiet _ _ id ?_) (Runs.guarded_cons rfl (quiet _ _ id id)
    (Runs.guarded_cons rfl (quiet _ _ id id) (Runs.guarded_cons rfl (quiet _ _ ?_ id)
      (Runs.guarded_cons rfl (quiet _ _ ?_ id) (Runs.guarded_cons rfl ?_ trivial)))))
  · rintro ⟨_, paused, _⟩
    cases paused
  · rintro ⟨_, closing⟩
    cases closing
  · rintro ⟨_, paused⟩
    cases paused
  · rintro t ht
    obtain rfl := Option.some.inj ht
    exact ⟨fun _ => ⟨id, .inr (.inr (.inr rfl))⟩, id⟩

/-- The pause returns while the read of an idle connection is pending. -/
def pausedWhileReading : List SplitAction :=
  [.plain .top, .plain .guards, .load 1 .pauseReading, .exchange 1, .plain (.commit 1)]

theorem pause_leaves_pending_read :
    ¬ ∀ (actions : List SplitAction) (s : Split), Runs.run Split.step Split.start actions = some s →
      Runs.Guarded Split.step PausesReadsOnly Split.start actions := by
  intro always
  have guarded : Runs.Guarded Split.step PausesReadsOnly Split.start
      (pausedWhileReading.take 4 ++ [.plain (.commit 1)]) := always pausedWhileReading _ rfl
  have returned := guarded.next rfl
  have holds := (returned _ rfl).1 ⟨rfl, ?_⟩
  · have same := holds [.plain (.readDone (.data 7 []))] _ rfl (by simp [SplitAction.Resumes])
    cases same
  · intro thread
    by_cases first : thread = 1
    · subst first
      constructor <;> intro resuming <;> cases resuming
    · simp [Split.start, TokioTcp.start, Function.update_of_ne first]

end TokioLoop.TokioTcp
