import TokioLoop.TokioTcpTask
import TokioLoop.Lib.ByteLedger

/-! Integrity of the byte stream that the I/O task of a `TokioTCPTransport` hands to
the kernel, and its exact condition: no `select!` may drop the write branch while the
chunk it popped has bytes left. -/
namespace TokioLoop.TokioTcp
open ByteLedger

/-- The part of the chunk in flight that the kernel has not taken. -/
def World.inFlight (w : World) : Bytes :=
  match w.pc with
  | .select _ (some (.writing data sent _)) => data.drop sent
  | _ => []

/-- The bytes sent are a prefix of those written, and with the chunk in flight and the
write buffer they make up exactly those written. -/
def World.Integrity (w : World) : Prop :=
  w.sent <+: w.written ∧ w.sent ++ w.inFlight ++ w.state.writeBuf.flatten = w.written

/-- Neither a socket error nor a close or abort. -/
def Action.Clean : Action → Prop
  | .enter _ .close | .enter _ .abort | .pollWrite .error | .readDone .error => False
  | _ => True

def Action.NoError : Action → Prop
  | .pollWrite .error | .readDone .error => False
  | _ => True

theorem Action.Clean.noError {a : Action} (clean : a.Clean) : a.NoError := by
  cases a with
  | pollWrite result | readDone result => cases result <;> exact clean
  | _ => trivial

/-- Another branch wins the `select!` only when nothing of a popped chunk is unsent. -/
def KeepsChunk (w : World) : Action → Prop
  | .readDone _ | .sleepDone => w.inFlight = []
  | _ => True

/-- Neither a pending close nor a pending abort. -/
def World.NoClose (w : World) : Prop :=
  ∀ thread, w.calls thread ≠ some .setClosing ∧ w.calls thread ≠ some .abortClosing

/-- Everything a step that keeps its chunk can do to the stream: nothing, accept a
push, pop a chunk, or send part of the chunk in flight. -/
inductive Moves (w t : World) : Prop where
  | idle : t.sent = w.sent → t.written = w.written → t.inFlight = w.inFlight →
      t.state.writeBuf = w.state.writeBuf → Moves w t
  | push (data : Bytes) : t.sent = w.sent → t.written = w.written ++ data →
      t.inFlight = w.inFlight → t.state.writeBuf = w.state.writeBuf ++ [data] → Moves w t
  | pop : t.sent = w.sent → t.written = w.written → w.inFlight = [] →
      w.state.writeBuf = t.inFlight :: t.state.writeBuf → Moves w t
  | send (taken : Bytes) : t.sent = w.sent ++ taken → t.written = w.written →
      w.inFlight = taken ++ t.inFlight → t.state.writeBuf = w.state.writeBuf → Moves w t

theorem enter_noClose (f : Flags) (m : Method) (hc : m ≠ .close) (ha : m ≠ .abort) :
    (m.enter f).2 ≠ some .setClosing ∧ (m.enter f).2 ≠ some .abortClosing := by
  cases m <;> simp only [Method.enter] <;> split_ifs <;> simp_all

theorem drop_take_split (data : Bytes) (sent n : Nat) :
    data.drop sent = (data.drop sent).take n ++
      (data.drop (sent + ((data.drop sent).take n).length)) := by
  conv_lhs => rw [← List.take_append_drop n (data.drop sent)]
  rw [List.append_cancel_left_eq, ← List.drop_drop]
  by_cases short : n ≤ (data.drop sent).length
  · rw [List.length_take_of_le short]
  · rw [List.take_of_length_le (by omega), List.drop_length, List.drop_eq_nil_of_le (by omega)]

theorem pollWrite_moves {w t : World} {reads : Bool} {n : Nat} {future : WriteFuture}
    (hpc : w.pc = .select reads (some future))
    (h : pollWrite w reads (.progress n) future = some t) : Moves w t := by
  cases future with
  | notPolled =>
      cases hbuf : w.state.writeBuf with
      | nil =>
          simp only [pollWrite, popChunk, hbuf, Option.some.injEq] at h
          subst h
          refine .idle rfl rfl ?_ ?_
          · simp only [World.inFlight, hpc]
            split_ifs <;> rfl
          · simp [hbuf]
      | cons data rest =>
          simp only [pollWrite, popChunk, hbuf, Option.some.injEq] at h
          subst h
          exact .pop rfl rfl (by simp [World.inFlight, hpc]) (by simp [World.inFlight, hbuf])
  | writing data sent shouldShutdown =>
      simp only [pollWrite, Option.some.injEq] at h
      subst h
      refine .send ((data.drop sent).take n) rfl rfl ?_ rfl
      have split := drop_take_split data sent n
      simp only [World.inFlight, hpc]
      split_ifs with whole
      · rwa [whole, List.drop_length] at split
      · exact split
  | flushing shouldShutdown =>
      simp only [pollWrite, afterWrite, Option.some.injEq] at h
      subst h
      refine .idle rfl rfl ?_ rfl
      simp only [World.inFlight, hpc]
      split_ifs <;> rfl
  | shuttingDown =>
      simp only [pollWrite, Option.some.injEq] at h
      subst h
      exact .idle rfl rfl (by simp [World.inFlight, hpc]) rfl
  | ready => simp [pollWrite] at h

theorem commit_moves {w t : World} {thread : Nat} (hw : w.calls thread ≠ some .abortClosing)
    (h : step w (.commit thread) = some t) : Moves w t := by
  cases hcall : w.calls thread with
  | none => simp [step, hcall] at h
  | some update =>
      simp only [step, hcall, Option.some.injEq] at h
      subst h
      cases update with
      | push data => exact .push data rfl rfl rfl rfl
      | setWeof => exact .idle rfl (by simp [Update.data]) rfl rfl
      | setPaused paused => exact .idle rfl (by simp [Update.data]) rfl rfl
      | setClosing => exact .idle rfl (by simp [Update.data]) rfl rfl
      | abortClosing => exact absurd hcall hw

theorem step_moves {w t : World} {a : Action} (clean : a.NoError)
    (hw : ∀ thread, w.calls thread ≠ some .abortClosing) (keeps : KeepsChunk w a)
    (h : step w a = some t) : Moves w t := by
  cases step_stepped h with
  | enter => exact .idle rfl rfl rfl rfl
  | commit thread => exact commit_moves (hw thread) h
  | closing hpc | paused hpc | running hpc | wake hpc | writeDone _ hpc | callbackReturned hpc
  | exits hpc
  | again hpc =>
      exact .idle rfl rfl (by simp [leave, World.inFlight, hpc]) rfl
  | guards readEof hpc =>
      refine .idle rfl rfl ?_ rfl
      simp only [World.inFlight, hpc]
      split_ifs <;> rfl
  | pollWrite result reads future t hpc polled =>
      cases result with
      | progress n => exact pollWrite_moves hpc polled
      | error => exact clean.elim
  | readDone result =>
      cases result with
      | error => exact clean.elim
      | eof => exact .idle rfl rfl keeps.symm rfl
      | data first rest => exact .idle rfl rfl keeps.symm rfl
      | wouldBlock => exact .idle rfl rfl keeps.symm rfl
  | sleepDone => exact .idle rfl rfl keeps.symm rfl

/-- The other branch won: what was in flight is gone, and nothing took its place. -/
theorem step_drops {w t : World} {a : Action} (clean : a.Clean) (loses : ¬ KeepsChunk w a)
    (h : step w a = some t) :
    w.inFlight ≠ [] ∧ t.sent = w.sent ∧ t.written = w.written ∧ t.inFlight = [] ∧
      t.state.writeBuf = w.state.writeBuf := by
  cases step_stepped h with
  | readDone result =>
      cases result with
      | error => exact clean.elim
      | eof => exact ⟨loses, rfl, rfl, rfl, rfl⟩
      | data first rest => exact ⟨loses, rfl, rfl, rfl, rfl⟩
      | wouldBlock => exact ⟨loses, rfl, rfl, rfl, rfl⟩
  | sleepDone => exact ⟨loses, rfl, rfl, rfl, rfl⟩
  | _ => exact absurd trivial loses

/-- The copies of the flags under the mutex. -/
def State.marks (s : State) : Flags := ⟨s.closing, s.paused, s.weof⟩

/-- A poll of the write branch leaves the read side and the flags as they were. -/
theorem pollWrite_frame {w t : World} {reads : Bool} {result : PollResult} {future : WriteFuture}
    (h : pollWrite w reads result future = some t) :
    (∃ f, t.pc = .select reads (some f)) ∧ t.notices = w.notices ∧
    t.state.readEof = w.state.readEof ∧
      t.state.marks = w.state.marks ∧ t.flags = w.flags ∧ t.calls = w.calls := by
  cases future with
  | notPolled =>
      simp only [pollWrite, popChunk, Option.some.injEq] at h
      subst h
      cases hbuf : w.state.writeBuf <;> exact ⟨⟨_, rfl⟩, rfl, rfl, rfl, rfl, rfl⟩
  | writing | flushing | shuttingDown | ready =>
      cases result <;> simp only [pollWrite, Option.some.injEq, reduceCtorEq] at h <;>
        subst h <;> exact ⟨⟨_, rfl⟩, rfl, rfl, rfl, rfl, rfl⟩

/-- The calls in progress change only when one is entered or ends. -/
theorem step_calls {w t : World} {a : Action} (h : step w a = some t) :
    t.calls = w.calls ∨ ∃ thread update, t.calls = Function.update w.calls thread update ∧
      ∀ u, update = some u → ∃ method, a = .enter thread method ∧
      (method.enter w.flags).2 = some u := by
  cases step_stepped h with
  | enter thread method => exact .inr ⟨thread, _, rfl, fun u hu => ⟨method, rfl, hu⟩⟩
  | commit thread =>
      exact .inr ⟨thread, none, rfl, fun u hu => absurd hu (Option.some_ne_none u).symm⟩
  | pollWrite _ _ _ _ _ polled => exact .inl (pollWrite_frame polled).2.2.2.2.2
  | readDone result => cases result <;> exact .inl rfl
  | _ => exact .inl rfl

/-- The copies of the flags change only when a call makes its update. -/
theorem step_marks {w t : World} {a : Action} (h : step w a = some t) :
    t.state.marks = w.state.marks ∨
      ∃ thread u, a = .commit thread ∧ w.calls thread = some u ∧ t.state = u.apply w.state := by
  cases step_stepped h with
  | commit thread u pending => exact .inr ⟨thread, u, rfl, pending, rfl⟩
  | pollWrite _ _ _ _ _ polled => exact .inl (pollWrite_frame polled).2.2.2.1
  | readDone result => cases result <;> exact .inl rfl
  | _ => exact .inl rfl

/-- An update that no entered method asks for is never pending. -/
theorem step_never_pending {w t : World} {a : Action} {u : Update} (h : step w a = some t)
    (none_asks : ∀ thread method, a = .enter thread method → (method.enter w.flags).2 ≠ some u)
    (hw : ∀ thread, w.calls thread ≠ some u) (thread : Nat) : t.calls thread ≠ some u := by
  rcases step_calls h with same | ⟨other, update, same, asked⟩
  · rw [same]
    exact hw thread
  · rw [same]
    by_cases eq : thread = other
    · subst eq
      rw [Function.update_self]
      intro hu
      obtain ⟨method, ha, henter⟩ := asked u hu
      exact none_asks thread method ha henter
    · rw [Function.update_of_ne eq]
      exact hw thread

theorem step_noClose {w t : World} {a : Action} (clean : a.Clean) (hw : w.NoClose)
    (h : step w a = some t) : t.NoClose := by
  have asks : ∀ thread method, a = .enter thread method →
      (method.enter w.flags).2 ≠ some .setClosing ∧
      (method.enter w.flags).2 ≠ some .abortClosing := by
    rintro thread method rfl
    refine enter_noClose w.flags method ?_ ?_ <;> rintro rfl <;> exact clean
  intro thread
  constructor
  · exact step_never_pending h (fun thread method ha => (asks thread method ha).1)
      (fun thread => (hw thread).1) thread
  · exact step_never_pending h (fun thread method ha => (asks thread method ha).2)
      (fun thread => (hw thread).2) thread

/-- The equation of `Integrity`, as a ledger whose first chunk is the one in flight. -/
def World.Whole (w : World) : Prop := Conserved w.written w.sent (w.inFlight :: w.state.writeBuf)

theorem integrity_iff_whole (w : World) : w.Integrity ↔ w.Whole := by
  simp only [World.Integrity, World.Whole, Conserved, List.flatten_cons, List.append_assoc]
  exact ⟨fun h => h.2, fun h => ⟨⟨_, h⟩, h⟩⟩

/-- Bytes are missing: fewer are accounted for than were written. -/
def World.Short (w : World) : Prop :=
  w.sent.length + w.inFlight.length + held w.state.writeBuf < w.written.length

theorem Whole.not_short {w : World} (h : w.Whole) : ¬ w.Short := by
  have lengths := congrArg List.length h
  simp only [List.length_append, List.flatten_cons, length_flatten_eq_held] at lengths
  unfold World.Short
  omega

theorem Moves.whole {w t : World} (m : Moves w t) (h : w.Whole) : t.Whole := by
  unfold World.Whole at h ⊢
  cases m with
  | idle hs hw hf hb => rwa [hs, hw, hf, hb]
  | push data hs hw hf hb =>
      rw [hs, hw, hf, hb]
      exact h.push data
  | pop hs hw hf hb =>
      rw [hs, hw]
      rwa [hf, hb] at h
  | send taken hs hw hf hb =>
      rw [hs, hw, hb]
      rw [hf] at h
      have moved := h.advance taken.length
      rwa [List.take_left, List.drop_left] at moved

theorem Moves.short {w t : World} (m : Moves w t) (h : w.Short) : t.Short := by
  unfold World.Short at h ⊢
  cases m with
  | idle hs hw hf hb => rwa [hs, hw, hf, hb]
  | push data hs hw hf hb =>
      rw [hs, hw, hf, hb, held_append, List.length_append, held_cons, held_nil]
      omega
  | pop hs hw hf hb =>
      rw [hs, hw]
      rw [hf, hb, held_cons] at h
      simp only [List.length_nil] at h
      omega
  | send taken hs hw hf hb =>
      rw [hs, hw, hb, List.length_append]
      rw [hf, List.length_append] at h
      omega

theorem step_short {w t : World} {a : Action} (clean : a.Clean) (hw : w.NoClose)
    (h : step w a = some t) (short : w.Short) : t.Short := by
  by_cases keeps : KeepsChunk w a
  · exact (step_moves clean.noError (fun thread => (hw thread).2) keeps h).short short
  · obtain ⟨_, hs, hwr, hf, hb⟩ := step_drops clean keeps h
    unfold World.Short at short ⊢
    rw [hs, hwr, hf, hb, List.length_nil]
    omega

theorem step_whole_iff {w t : World} {a : Action} (clean : a.Clean) (hw : w.NoClose)
    (h : step w a = some t) (whole : w.Whole) : (t.Whole ↔ KeepsChunk w a) ∧
    (t.Whole ∨ t.Short) := by
  by_cases keeps : KeepsChunk w a
  · have after := (step_moves clean.noError (fun thread => (hw thread).2) keeps h).whole whole
    exact ⟨iff_of_true after keeps, .inl after⟩
  · obtain ⟨hne, hs, hwr, hf, hb⟩ := step_drops clean keeps h
    have short : t.Short := by
      have lengths := congrArg List.length whole
      have lost := List.length_pos_of_ne_nil hne
      simp only [List.length_append, List.flatten_cons, length_flatten_eq_held] at lengths
      unfold World.Short
      rw [hs, hwr, hf, hb, List.length_nil]
      omega
    exact ⟨iff_of_false (fun after => Whole.not_short after short) keeps, .inr short⟩

/-- Without socket error, close or abort, a run has kept the stream intact exactly
when no `select!` of it dropped a write branch with bytes of its chunk unsent. -/
theorem outbound_integrity_iff (actions : List Action) (w : World)
    (h : Runs.run step start actions = some w) (clean : ∀ a ∈ actions, a.Clean) :
    w.Integrity ↔ Runs.Guarded step KeepsChunk start actions := by
  rw [integrity_iff_whole]
  have begin_whole : start.Whole := rfl
  refine Runs.run_exact (C := Action.Clean) (I := fun v => v.NoClose ∧ (v.Whole ∨ v.Short))
    ?_ ?_ ?_ h clean ⟨fun thread => by simp [start], .inl begin_whole⟩ begin_whole
  · rintro v a u ha ⟨hv, account⟩ hstep
    refine ⟨step_noClose ha hv hstep, ?_⟩
    rcases account with whole | short
    · exact (step_whole_iff ha hv hstep whole).2
    · exact .inr (step_short ha hv hstep short)
  · rintro v a u ha ⟨hv, _⟩ whole hstep
    exact (step_whole_iff ha hv hstep whole).1
  · rintro v a u ha ⟨hv, account⟩ broken hstep after
    exact Whole.not_short after (step_short ha hv hstep (account.resolve_left broken))

/-- One write of two bytes; the kernel takes the first and would block, and the
one-millisecond sleep wins the `select!`. -/
def cancelledWrite : List Action :=
  [.enter 0 (.write [1, 2]), .commit 0, .top, .guards, .pollWrite (.progress 0),
    .pollWrite (.progress 1), .sleepDone]

theorem cancelledWrite_loses_byte :
    ¬ ∀ (actions : List Action) (w : World), Runs.run step start actions = some w →
      (∀ a ∈ actions, a.Clean) → w.Integrity := by
  intro always
  obtain ⟨w, hrun, hsent, hwritten, hflight, hbuf⟩ :
    ∃ w, Runs.run step start cancelledWrite = some w ∧
      w.sent = [1] ∧ w.written = [1, 2] ∧ w.inFlight = [] ∧ w.state.writeBuf = [] :=
    ⟨_, rfl, rfl, rfl, rfl, rfl⟩
  have intact := (always cancelledWrite w hrun (by simp [cancelledWrite, Action.Clean])).2
  rw [hsent, hwritten, hflight, hbuf] at intact
  simp at intact

/-- The same write, polled until it is done. -/
theorem completedWrite_intact :
    ∃ w, Runs.run step start [.enter 0 (.write [1, 2]), .commit 0, .top, .guards,
        .pollWrite (.progress 0), .pollWrite (.progress 1), .pollWrite (.progress 1),
        .pollWrite (.progress 0), .writeDone] = some w ∧ w.sent = [1, 2] ∧ w.Integrity := by
  refine ⟨_, rfl, rfl, ?_⟩
  rw [outbound_integrity_iff [.enter 0 (.write [1, 2]), .commit 0, .top, .guards,
    .pollWrite (.progress 0), .pollWrite (.progress 1), .pollWrite (.progress 1),
    .pollWrite (.progress 0), .writeDone] _ rfl (by simp [Action.Clean])]
  simp [Runs.Guarded, KeepsChunk]

end TokioLoop.TokioTcp
