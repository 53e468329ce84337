import TokioLoop.PipeTransports

/-!
What holds of a pipe transport in every run: `_closing` is set before a completion is
scheduled, the three references are dropped after `connection_lost` and no callback that
needs them is then in progress, and the order of the queue.
-/
namespace TokioLoop.Pipes

open Tcp (Bytes)

variable {kind : Kind} {c d : Cfg}

/-- The callback of a completion. -/
def Item.completes : Item → Bool
  | .callConnectionLost _ => true
  | _ => false

/-- Executions of `_call_connection_lost`, past and scheduled. -/
def Cfg.begun (c : Cfg) : Nat := c.queue.countP Item.completes + c.lost.length

/-- Frames of calls that methods make, which may stand on top of others. -/
def Frame.nested : Frame → Bool
  | .pauseWriting | .pauseFailed | .fatal _ _ => true
  | _ => false

/-- The calls after which `_write_ready` goes on. -/
def Frame.resuming : Frame → Bool
  | .resumeWriting | .resumeFailed => true
  | _ => false

/-- `_write_ready` goes on after the call that ends so. -/
def Frame.resumes (r : Ret) : Frame → Bool
  | .resumeWriting => r = .returned
  | .resumeFailed => r ≠ .exits
  | _ => false

/-- The calls made through a reference that was read earlier. -/
def Frame.unbound : Frame → Bool
  | .connectionMade | .eofReceived => true
  | _ => false

/-- The frame of a callback of the loop is at the bottom. -/
def Grounded : List Frame → Prop
  | [] => True
  | frame :: stack => (frame.nested = false → stack = []) ∧ Grounded stack

/-- The order in which two items may stand in the queue. -/
def Item.Precedes (kind : Kind) (x y : Item) : Prop :=
  (y = .addReader → x = .connectionMade) ∧ (kind = .read → y = .readReady → x.completes = false)

/-- An item a completion may put behind any other. -/
def Item.Plain (item : Item) : Prop := item ≠ .addReader ∧ item ≠ .readReady ∧ item ≠ .writeReady

structure Cfg.Sound (kind : Kind) (c : Cfg) : Prop where
  grounded : Grounded c.stack
  closed : c.gone = true → c.closing = true
  unbound : c.gone = true → ∀ frame ∈ c.stack, frame.unbound = true
  begun : c.begun ≠ 0 → c.closing = true
  shown : c.lost ≠ [] ↔ c.gone = true ∨ .connectionLost ∈ c.stack
  emptied : kind = .write → c.begun ≠ 0 → c.buffer = [] ∨ ∃ entry ∈ c.lost, entry.2 ≠ []
  ordered : c.queue.Pairwise (Item.Precedes kind)
  adding : .addReader ∈ c.queue → c.lost = [] ∧ ∀ frame ∈ c.stack, frame.resuming = false
  reading : kind = .read → c.reader = true → c.closing = false
  unread : kind = .read → .readReady ∈ c.queue → c.lost = []
  writing : kind = .read → c.writer = false ∧ .writeReady ∉ c.queue
  resuming : kind = .read → ∀ frame ∈ c.stack, frame.resuming = false

theorem deref_alive (f : Cfg → Cfg) (alive : c.gone = false) : c.deref f = f c := by
  rw [Cfg.deref, if_neg (by rw [alive]; exact Bool.false_ne_true)]

theorem deref_gone (f : Cfg → Cfg) (gone : c.gone = true) :
    c.deref f = { c with broken := true } := by
  rw [Cfg.deref, if_pos gone]

theorem Cfg.Sound.deref {f : Cfg → Cfg} (h : c.Sound kind)
    (sound : c.gone = false → (f c).Sound kind) : (c.deref f).Sound kind := by
  cases alive : c.gone with
  | false =>
      rw [deref_alive f alive]
      exact sound alive
  | true =>
      rw [deref_gone f alive]
      exact { h with }

theorem Cfg.Sound.alive (h : c.Sound kind) (unclosed : c.closing = false) : c.gone = false := by
  cases alive : c.gone with
  | false => rfl
  | true =>
      rw [h.closed alive] at unclosed
      cases unclosed

theorem Cfg.Sound.fresh (h : c.Sound kind) (unclosed : c.closing = false) : c.begun = 0 := by
  by_contra some
  rw [h.begun some] at unclosed
  cases unclosed

theorem Cfg.Sound.begun_of_gone (h : c.Sound kind) (gone : c.gone = true) : c.begun ≠ 0 := by
  intro none
  exact h.shown.mpr (.inl gone) (List.length_eq_zero_iff.mp (Nat.add_eq_zero_iff.mp none).2)

/-- The references are there while a call made through them is in progress. -/
theorem Cfg.Sound.alive_of_bound (h : c.Sound kind) {frame : Frame} {stack : List Frame}
    (top : c.stack = frame :: stack) (bound : frame.unbound = false) : c.gone = false := by
  by_contra gone
  cases bound.symm.trans (h.unbound (Bool.not_eq_false _ ▸ gone) frame (top ▸ List.mem_cons_self))

theorem Cfg.Sound.push (h : c.Sound kind) {frame : Frame}
    (bottom : frame.nested = false → c.stack = []) (other : frame ≠ .connectionLost)
    (alive : frame.unbound = true ∨ c.gone = false)
    (later : frame.resuming = true → kind = .write ∧ .addReader ∉ c.queue) :
    (c.push frame).Sound kind :=
  { h with
    grounded := ⟨bottom, h.grounded⟩
    unbound := fun gone top htop => by
      rcases List.mem_cons.mp htop with rfl | below
      · exact alive.resolve_right fun alive => by cases alive.symm.trans gone
      · exact h.unbound gone top below
    shown := h.shown.trans (by simp only [Cfg.push, List.mem_cons, other.symm, false_or])
    adding := fun there => by
      obtain ⟨none, quiet⟩ := h.adding there
      refine ⟨none, fun top htop => ?_⟩
      rcases List.mem_cons.mp htop with rfl | below
      · exact Bool.eq_false_iff.mpr fun resuming => (later resuming).2 there
      · exact quiet top below
    resuming := fun reads top htop => by
      rcases List.mem_cons.mp htop with rfl | below
      · exact Bool.eq_false_iff.mpr fun resuming => by cases reads.symm.trans (later resuming).1
      · exact h.resuming reads top below }

theorem Cfg.Sound.enter (h : c.Sound kind) {frame : Frame}
    (bottom : frame.nested = false → c.stack = []) (other : frame ≠ .connectionLost)
    (later : frame.resuming = true → kind = .write ∧ .addReader ∉ c.queue) :
    (c.enter frame).Sound kind :=
  h.deref fun alive => h.push bottom other (.inr alive) later

theorem Cfg.Sound.fatalError (h : c.Sound kind) (exc : Exn) (message : String) :
    (c.fatalError exc message).Sound kind :=
  Cfg.Sound.enter (c := { c with ended := true }) { h with } (fun nested => by cases nested)
    Frame.noConfusion fun resuming => by cases resuming

theorem Cfg.Sound.callConnectionLost (h : c.Sound kind) (exc : Option Exn) (idle : c.stack = [])
    (closing : c.closing = true) (added : .addReader ∉ c.queue)
    (unread : kind = .read → .readReady ∉ c.queue) : (c.callConnectionLost exc).Sound kind := by
  have emptied : c.buffer = [] ∨ ∃ entry ∈ c.lost ++ [(exc, c.buffer)], entry.2 ≠ [] := by
    by_cases empty : c.buffer = []
    · exact .inl empty
    · exact .inr ⟨_, List.mem_append_right _ (List.mem_singleton_self _), empty⟩
  have shown : c.lost ++ [(exc, c.buffer)] ≠ [] :=
    List.append_ne_nil_of_right_ne_nil _ (List.cons_ne_nil _ _)
  cases alive : c.gone with
  | false =>
      rw [Cfg.callConnectionLost, Cfg.enter, deref_alive _ (by exact alive)]
      exact { h with
        grounded := ⟨fun _ => idle, h.grounded⟩
        resuming := fun _ top htop => by
          rw [Cfg.push, idle, List.mem_singleton] at htop
          rw [htop]
          rfl
        unbound := fun gone => by cases alive.symm.trans gone
        begun := fun _ => closing
        shown := iff_of_true shown (.inr List.mem_cons_self)
        emptied := fun _ _ => emptied
        adding := fun there => absurd there added
        unread := fun reads there => absurd there (unread reads) }
  | true =>
      rw [Cfg.callConnectionLost, Cfg.enter, deref_gone _ (by exact alive)]
      exact { h with
        begun := fun _ => closing
        shown := iff_of_true shown (.inl alive)
        emptied := fun _ _ => emptied
        adding := fun there => absurd there added
        unread := fun reads there => absurd there (unread reads) }

theorem begun_callSoon (c : Cfg) (item : Item) :
    (c.callSoon item).begun = c.begun + if item.completes then 1 else 0 := by
  simp only [Cfg.begun, Cfg.queue, Cfg.callSoon, ← List.append_assoc, List.countP_append,
    List.countP_singleton]
  omega

theorem queue_callSoon (c : Cfg) (item : Item) : (c.callSoon item).queue = c.queue ++ [item] :=
  (List.append_assoc _ _ _).symm

theorem mem_queue_callSoon {item other : Item} (different : other ≠ item) :
    other ∈ (c.callSoon item).queue ↔ other ∈ c.queue := by
  rw [queue_callSoon, List.mem_append, List.mem_singleton, or_iff_left different]

/-- Scheduling a completion, or what goes with it. -/
theorem Cfg.Sound.callSoon (h : c.Sound kind) {item : Item} (plain : item.Plain)
    (closing : item.completes = true → c.closing = true) (empty : kind = .write → c.buffer = []) :
    (c.callSoon item).Sound kind :=
  { h with
    begun := fun some => by
      cases completes : item.completes with
      | true => exact closing completes
      | false =>
          rw [begun_callSoon, completes] at some
          exact h.begun some
    emptied := fun writes _ => .inl (empty writes)
    ordered := by
      rw [queue_callSoon, List.pairwise_append]
      refine ⟨h.ordered, List.pairwise_singleton _ _, fun x _ y hy => ?_⟩
      obtain rfl := List.mem_singleton.mp hy
      exact ⟨fun adds => absurd adds plain.1, fun _ reads => absurd reads plain.2.1⟩
    adding := fun there => h.adding ((mem_queue_callSoon plain.1.symm).mp there)
    unread := fun reads there => h.unread reads ((mem_queue_callSoon plain.2.1.symm).mp there)
    writing := fun reads =>
      ⟨(h.writing reads).1, fun there =>
        (h.writing reads).2 ((mem_queue_callSoon plain.2.2.symm).mp there)⟩ }

theorem plain_eofReceived : Item.Plain .eofReceived :=
  ⟨Item.noConfusion, Item.noConfusion, Item.noConfusion⟩

theorem plain_callConnectionLost (exc : Option Exn) : Item.Plain (.callConnectionLost exc) :=
  ⟨Item.noConfusion, Item.noConfusion, Item.noConfusion⟩

/-- `_closing` is set and the reader removed, and a writer's buffer kept or cleared. -/
theorem Cfg.Sound.shut (h : c.Sound kind) {buffer : Bytes} (kept : buffer = c.buffer ∨ buffer = [])
    {writer : Bool} (writes : kind = .read → writer = false) (ended : Bool) :
    Cfg.Sound kind { c with closing := true, reader := false, buffer, writer, ended } :=
  { h with
    closed := fun _ => rfl
    begun := fun _ => rfl
    emptied := fun writes some => by
      rcases kept with rfl | rfl
      · exact h.emptied writes some
      · exact .inl rfl
    reading := fun _ reads => by cases reads
    writing := fun reads => ⟨writes reads, (h.writing reads).2⟩ }

/-- `_closing` is set by code that uses a reference next. -/
theorem Cfg.Sound.derefClosing (h : c.Sound kind) {f : Cfg → Cfg} (ended : Bool)
    (sound : c.gone = false → (f { c with closing := true, ended }).Sound kind) :
    ({ c with closing := true, ended }.deref f).Sound kind := by
  rcases c.gone.eq_false_or_eq_true with gone | alive
  · rw [deref_gone f (by exact gone)]
    have closing := h.closed gone
    exact { h with
      closed := fun _ => rfl
      begun := fun _ => rfl
      reading := fun reads reader => by cases closing.symm.trans (h.reading reads reader) }
  · rw [deref_alive f (by exact alive)]
    exact sound alive

/-- The end of `_call_connection_lost`. -/
theorem Cfg.Sound.release (h : c.Sound kind) {stack : List Frame}
    (top : c.stack = .connectionLost :: stack) : (Cfg.release { c with stack }).Sound kind := by
  have there : .connectionLost ∈ c.stack := top ▸ List.mem_cons_self
  have idle : stack = [] := (top ▸ h.grounded).1 rfl
  have shown : c.lost ≠ [] := h.shown.mpr (.inr there)
  have closing : c.closing = true := h.begun fun none =>
    shown (List.length_eq_zero_iff.mp (Nat.add_eq_zero_iff.mp none).2)
  have alive : c.gone = false := h.alive_of_bound top rfl
  rw [Cfg.release, deref_alive _ (by exact alive), idle]
  exact { h with
    grounded := trivial
    closed := fun _ => closing
    unbound := fun _ frame there => by cases there
    shown := iff_of_true shown (.inl rfl)
    adding := fun there => ⟨(h.adding there).1, fun frame there => by cases there⟩
    resuming := fun _ frame there => by cases there }

theorem Cfg.Sound.maybePauseProtocol (h : c.Sound kind) : c.maybePauseProtocol.Sound kind := by
  unfold Cfg.maybePauseProtocol
  split
  · exact h
  split
  · exact h
  · exact Cfg.Sound.enter (c := { c with protocolPaused := true }) { h with }
      (fun nested => by cases nested) Frame.noConfusion fun resuming => by cases resuming

theorem Cfg.Sound.setWriteBufferLimits (h : c.Sound kind) (high low : Option Int) :
    (c.setWriteBufferLimits high low).Sound kind := by
  unfold Cfg.setWriteBufferLimits
  split
  next high low _ =>
    exact Cfg.Sound.maybePauseProtocol (c := { c with highWater := high, lowWater := low })
      { h with }
  next => exact h

theorem Cfg.Sound.drained (h : c.Sound .write) (idle : c.stack = [])
    (added : .addReader ∉ c.queue) : c.drained.Sound .write := by
  unfold Cfg.drained
  split
  next closing =>
    refine h.deref fun _ => ?_
    exact Cfg.Sound.callConnectionLost (c := { c with reader := false })
      { h with reading := fun reads => by cases reads } none idle closing added fun reads =>
      by cases reads
  next => exact h

theorem Cfg.Sound.maybeResumeProtocol (h : c.Sound .write) (idle : c.stack = [])
    (added : .addReader ∉ c.queue) : c.maybeResumeProtocol.Sound .write := by
  unfold Cfg.maybeResumeProtocol
  split
  · exact Cfg.Sound.enter (c := { c with protocolPaused := false }) { h with } (fun _ => idle)
      Frame.noConfusion fun _ => ⟨rfl, added⟩
  · exact h.drained idle added

namespace Read

theorem closeWith_sound (h : c.Sound .read) (exc : Option Exn) : (closeWith c exc).Sound .read := by
  refine h.derefClosing c.ended fun _ => ?_
  exact (h.shut (.inl rfl) (fun reads => (h.writing reads).1) c.ended).callSoon
    (plain_callConnectionLost exc) (fun _ => rfl) fun writes => by cases writes

theorem addReader_sound (h : c.Sound .read) : (addReader c).Sound .read := by
  unfold addReader
  split
  next reading =>
    refine h.deref fun _ => { h with reading := fun _ _ => ?_ }
    simp only [isReading, Bool.and_eq_true, Bool.not_eq_true'] at reading
    exact reading.2
  next => exact h

theorem readReady_sound (h : c.Sound .read) (result : ReadResult) (idle : c.stack = []) :
    (readReady c result).Sound .read := by
  cases result with
  | blocked => exact h
  | failed exc => exact h.fatalError exc _
  | data => exact h.enter (fun _ => idle) Frame.noConfusion fun resuming => by cases resuming
  | eof =>
      rw [readReady]
      refine h.derefClosing true fun _ => ?_
      have first := (h.shut (.inl rfl) (fun reads => (h.writing reads).1) true).callSoon
        plain_eofReceived (fun completes => by cases completes) fun writes => by cases writes
      exact first.callSoon (plain_callConnectionLost none) (fun _ => rfl) fun writes =>
        by cases writes

theorem pauseReading_sound (h : c.Sound .read) : (pauseReading c).Sound .read := by
  unfold pauseReading
  split
  · exact Cfg.Sound.deref (c := { c with paused := true }) { h with } fun _ =>
      { h with reading := fun _ reads => by cases reads }
  · exact h

theorem resumeReading_sound (h : c.Sound .read) : (resumeReading c).Sound .read := by
  unfold resumeReading
  split
  · exact h
  next reading =>
    rw [not_or, Bool.not_eq_true] at reading
    exact Cfg.Sound.deref (c := { c with paused := false }) { h with } fun _ =>
      { h with reading := fun _ _ => reading.1 }

theorem close_sound (h : c.Sound .read) : (close c).Sound .read := by
  unfold close
  split
  · exact h
  · exact closeWith_sound h none

end Read

namespace Write

/-- No invariant of a write transport is about the reader. -/
theorem sound_reader (h : c.Sound .write) (reader : Bool) : Cfg.Sound .write { c with reader } :=
  { h with reading := fun reads => by cases reads }

theorem closeWith_sound (h : c.Sound .write) (exc : Option Exn) :
    (closeWith c exc).Sound .write := by
  refine h.derefClosing true fun _ => ?_
  exact (h.shut (.inr rfl) (fun reads => by cases reads) true).callSoon
    (plain_callConnectionLost exc) (fun _ => rfl) fun _ => rfl

theorem addReader_sound (h : c.Sound .write) : (addReader c).Sound .write :=
  h.deref fun _ => sound_reader h true

/-- A transport that is not closing may get any buffer. -/
theorem sound_buffer (h : c.Sound .write) (opened : c.closing = false) (buffer : Bytes) :
    Cfg.Sound .write { c with buffer } :=
  { h with emptied := fun _ some => absurd (h.fresh opened) some }

theorem wrote_sound (h : c.Sound .write) (opened : c.closing = false) (data : Bytes) (n : Nat) :
    (wrote c data n).Sound .write := by
  unfold wrote
  split
  · exact { h with }
  · refine Cfg.Sound.deref (c := { c with kernel := _, accepted := _ }) { h with } fun _ => ?_
    have queued := sound_buffer h opened (data.drop n)
    exact Cfg.Sound.maybePauseProtocol { queued with writing := fun reads => by cases reads }

theorem write_sound (h : c.Sound .write) (data : Bytes) (result : WriteResult) :
    (write c data result).Sound .write := by
  unfold write
  split
  · exact h
  split
  · exact { h with }
  next opened =>
    rw [not_or, Bool.not_eq_true] at opened
    split
    · cases result with
      | room n => exact wrote_sound h opened.2 data _
      | blocked => exact wrote_sound h opened.2 data 0
      | failed exc =>
          exact Cfg.Sound.fatalError (c := { c with connLost := c.connLost + 1 }) { h with } exc _
      | exits => exact h
    · have queued := sound_buffer h opened.2 (c.buffer ++ data)
      exact Cfg.Sound.maybePauseProtocol { queued with }

/-- A buffer only gets shorter. -/
theorem sound_dropped (h : c.Sound .write)
    (n : Nat) : Cfg.Sound .write { c with buffer := c.buffer.drop n } :=
  { h with
    emptied := fun writes some => (h.emptied writes some).imp_left fun empty => by
      rw [empty, List.drop_nil] }

theorem writeReady_sound (h : c.Sound .write) (result : WriteResult) (idle : c.stack = [])
    (added : .addReader ∉ c.queue) : (writeReady c result).Sound .write := by
  unfold writeReady
  split
  · exact { h with }
  cases result with
  | blocked => exact h
  | exits => exact h
  | failed exc =>
      have cleared : Cfg.Sound .write { c with buffer := [], connLost := c.connLost + 1 } :=
        { h with emptied := fun _ _ => .inl rfl }
      exact cleared.deref fun _ =>
        Cfg.Sound.fatalError (c := { c with
            buffer := [], connLost := c.connLost + 1, writer := false })
          { cleared with writing := fun reads => by cases reads } exc _
  | room n =>
      have taken := sound_dropped h (min n c.buffer.length)
      simp only [writeReadyWrote]
      split
      · refine Cfg.Sound.deref { taken with } fun _ => ?_
        exact Cfg.Sound.maybeResumeProtocol { taken with writing := fun reads => by cases reads }
          idle added
      · exact { taken with }

theorem writeEof_sound (h : c.Sound .write) : (writeEof c).Sound .write := by
  unfold writeEof
  split
  · exact h
  next opened =>
    dsimp only
    split
    next empty =>
      refine h.derefClosing c.ended fun _ => ?_
      exact (h.shut (.inl rfl) (fun reads => by cases reads) c.ended).callSoon
        (plain_callConnectionLost none) (fun _ => rfl) fun _ => empty
    next =>
      exact { h with
        closed := fun _ => rfl
        begun := fun _ => rfl
        reading := fun reads => by cases reads }

theorem close_sound (h : c.Sound .write) : (close c).Sound .write := by
  unfold close
  split
  · exact writeEof_sound h
  · exact h

end Write

theorem closeWith_sound (h : c.Sound kind) (exc : Option Exn) :
    (closeWith kind c exc).Sound kind := by
  cases kind with
  | read => exact Read.closeWith_sound h exc
  | write => exact Write.closeWith_sound h exc

/-- What stands behind the first item of the batch. -/
theorem Cfg.Sound.behind (h : c.Sound kind) {item : Item} {rest : List Item}
    (there : c.batch = item :: rest) : ∀ later ∈ rest ++ c.ready, item.Precedes kind later := by
  have ordered := h.ordered
  rw [Cfg.queue, there, List.cons_append] at ordered
  exact (List.pairwise_cons.mp ordered).1

theorem begun_next {item : Item} {rest : List Item} (there : c.batch = item :: rest) :
    c.begun = Cfg.begun { c with batch := rest } + if item.completes then 1 else 0 := by
  simp only [Cfg.begun, Cfg.queue, there, List.cons_append, List.countP_cons]
  omega

/-- The first item leaves the batch. -/
theorem Cfg.Sound.next (h : c.Sound kind) {item : Item} {rest : List Item}
    (there : c.batch = item :: rest) : Cfg.Sound kind { c with batch := rest } := by
  have queue : c.queue = item :: (rest ++ c.ready) := by rw [Cfg.queue, there, List.cons_append]
  have fewer : Cfg.begun { c with batch := rest } ≠ 0 → c.begun ≠ 0 := by
    rw [begun_next there]
    omega
  exact { h with
    begun := fun some => h.begun (fewer some)
    emptied := fun writes some => h.emptied writes (fewer some)
    ordered := (List.pairwise_cons.mp (queue ▸ h.ordered)).2
    adding := fun later => h.adding (queue ▸ List.mem_cons_of_mem _ later)
    unread := fun reads later => h.unread reads (queue ▸ List.mem_cons_of_mem _ later)
    writing := fun reads =>
      ⟨(h.writing reads).1, fun later => (h.writing reads).2 (queue ▸ List.mem_cons_of_mem _ later)⟩
        }

/-- The frame of a call that has ended. -/
theorem Cfg.Sound.below (h : c.Sound kind) {frame : Frame} {stack : List Frame}
    (top : c.stack = frame :: stack) (other : frame ≠ .connectionLost) : Cfg.Sound kind
    { c with stack } :=
  { h with
    grounded := (top ▸ h.grounded).2
    unbound := fun gone below there => h.unbound gone below (top ▸ List.mem_cons_of_mem _ there)
    shown := by
      refine h.shown.trans ?_
      rw [top, List.mem_cons, or_iff_right other.symm]
    adding := fun there =>
      ⟨(h.adding there).1, fun below hb =>
        (h.adding there).2 below (top ▸ List.mem_cons_of_mem _ hb)⟩
    resuming := fun reads below hb => h.resuming reads below (top ▸ List.mem_cons_of_mem _ hb) }

theorem call_sound (h : c.Sound kind) {m : Method} {write : WriteResult}
    (ran : m.run c write kind = some d) :
    d.Sound kind := by
  cases run_called ran with
  | write data => exact Write.write_sound h data write
  | writeEof => exact Write.writeEof_sound h
  | abort => exact Write.closeWith_sound h none
  | setWriteBufferLimits high low => exact h.setWriteBufferLimits high low
  | closeWrite => exact Write.close_sound h
  | pauseReading => exact Read.pauseReading_sound h
  | resumeReading => exact Read.resumeReading_sound h
  | closeRead => exact Read.close_sound h

theorem run_sound (h : c.Sound kind) {item : Item} {rest : List Item}
    (there : c.batch = item :: rest) (idle : c.stack = []) (read : ReadResult)
    (write : WriteResult) : (item.run kind { c with batch := rest } read write).Sound kind := by
  have next := h.next there
  have behind := h.behind there
  have added : item ≠ .connectionMade → .addReader ∉ rest ++ c.ready :=
    fun other later => other ((behind _ later).1 rfl)
  cases item with
  | connectionMade =>
      exact next.push (fun _ => idle) Frame.noConfusion (.inl rfl) fun resuming => by cases resuming
  | eofReceived =>
      exact next.push (fun _ => idle) Frame.noConfusion (.inl rfl) fun resuming => by cases resuming
  | waiter => exact next
  | callConnectionLost exc =>
      refine next.callConnectionLost exc idle (h.begun ?_)
        (added Item.noConfusion) fun reads later => ?_
      · rw [begun_next there]
        exact Nat.succ_ne_zero _
      · cases (behind _ later).2 reads rfl
  | writeReady =>
      cases kind with
      | write => exact Write.writeReady_sound next write idle (added Item.noConfusion)
      | read => exact absurd (List.mem_append_left _ (there ▸ List.mem_cons_self)) (h.writing rfl).2
  | addReader =>
      cases kind with
      | read => exact Read.addReader_sound next
      | write => exact Write.addReader_sound next
  | readReady =>
      cases kind with
      | read => exact Read.readReady_sound next read idle
      | write => exact Write.closeWith_sound next _

theorem after_sound (h : c.Sound kind) {frame : Frame} {stack : List Frame}
    (top : c.stack = frame :: stack)
    (r : Ret) : (frame.after kind { c with stack } r).Sound kind := by
  have there : frame ∈ c.stack := top ▸ List.mem_cons_self
  have idle : frame.nested = false → stack = [] := (top ▸ h.grounded).1
  have added : frame.resuming = true → .addReader ∉ c.queue := fun resuming adds =>
    Bool.false_ne_true (((h.adding adds).2 frame there).symm.trans resuming)
  -- a frame after which `_write_ready` goes on
  have resumed : frame.resuming = true → (Cfg.drained { c with stack }).Sound kind :=
      fun resuming => by
    cases kind with
    | read => cases (h.resuming rfl frame there).symm.trans resuming
    | write =>
        cases frame with
        | resumeWriting => exact (h.below top Frame.noConfusion).drained (idle rfl) (added rfl)
        | resumeFailed => exact (h.below top Frame.noConfusion).drained (idle rfl) (added rfl)
        | _ => cases resuming
  cases frame with
  | connectionMade | dataReceived | eofReceived | pauseFailed => exact h.below top Frame.noConfusion
  | pauseWriting =>
      have below := h.below top Frame.noConfusion
      simp only [Frame.after]
      split
      · exact below.enter (fun nested => by cases nested) Frame.noConfusion fun resuming =>
          by cases resuming
      · exact below
  | resumeWriting =>
      cases r with
      | returned => exact resumed rfl
      | raised =>
          refine (h.below top Frame.noConfusion).enter (fun _ => idle rfl) Frame.noConfusion
            fun _ => ⟨?_, added rfl⟩
          cases kind with
          | read => cases h.resuming rfl _ there
          | write => rfl
      | exits => exact h.below top Frame.noConfusion
  | resumeFailed =>
      simp only [Frame.after]
      split
      · exact h.below top Frame.noConfusion
      · exact resumed rfl
  | fatal exc message =>
      simp only [Frame.after]
      split
      · exact h.below top Frame.noConfusion
      · exact closeWith_sound (h.below top Frame.noConfusion) (some exc)
  | connectionLost => exact h.release top

theorem mem_reported {item : Item} {readable writable : Bool}
    (there : item ∈ c.reported readable writable) : item = .readReady ∧ c.reader = true ∨
    item = .writeReady ∧ c.writer = true := by
  rcases List.mem_append.mp there with there | there
  · rw [List.mem_ite_nil_right, Bool.and_eq_true, List.mem_singleton] at there
    exact .inl ⟨there.2, there.1.2⟩
  · rw [List.mem_ite_nil_right, Bool.and_eq_true, List.mem_singleton] at there
    exact .inr ⟨there.2, there.1.2⟩

theorem reported_other {item : Item} {readable writable : Bool}
    (there : item ∈ c.reported readable writable) : item ≠ .addReader ∧ item.completes = false := by
  rcases mem_reported there with ⟨rfl, _⟩ | ⟨rfl, _⟩ <;> exact ⟨Item.noConfusion, rfl⟩

/-- A transport that still reads has begun no completion. -/
theorem Cfg.Sound.unbegun (h : c.Sound kind) (reads : kind = .read) (reader : c.reader = true) :
    c.lost = [] ∧ ∀ item ∈ c.queue, item.completes = false := by
  have none := Nat.add_eq_zero_iff.mp (h.fresh (h.reading reads reader))
  exact ⟨List.length_eq_zero_iff.mp none.2,
    fun item there => Bool.eq_false_iff.mpr (List.countP_eq_zero.mp none.1 item there)⟩

theorem reported_ordered (h : c.Sound kind) (readable writable : Bool) :
    (c.queue ++ c.reported readable writable).Pairwise (Item.Precedes kind) := by
  refine List.pairwise_append.mpr ⟨h.ordered, ?_, fun x hx y hy =>
    ⟨fun adds => ?_, fun reads reported => ?_⟩⟩
  · exact List.pairwise_of_forall_mem_list fun x hx y hy =>
      ⟨fun adds => absurd adds (reported_other hy).1, fun _ _ => (reported_other hx).2⟩
  · exact absurd adds (reported_other hy).1
  · rcases mem_reported hy with ⟨_, reader⟩ | ⟨other, _⟩
    · exact (h.unbegun reads reader).2 x hx
    · cases reported.symm.trans other

theorem queue_poll (finished : c.batch = []) (readable writable : Bool) :
    c.ready ++ c.reported readable writable ++ [] = c.queue ++ c.reported readable writable := by
  rw [List.append_nil, Cfg.queue, finished, List.nil_append]

theorem begun_poll (finished : c.batch = []) (readable writable : Bool) :
    Cfg.begun { c with batch := c.ready ++ c.reported readable writable, ready := [] } =
    c.begun := by
  have none : (c.reported readable writable).countP Item.completes = 0 :=
    List.countP_eq_zero.mpr fun item there => Bool.eq_false_iff.mp (reported_other there).2
  have queue := queue_poll finished readable writable
  simp only [Cfg.begun, Cfg.queue] at queue ⊢
  rw [queue, List.countP_append, none, Nat.add_zero]

theorem poll_sound (h : c.Sound kind) (finished : c.batch = []) (readable writable : Bool) :
    Cfg.Sound kind { c with batch := c.ready ++ c.reported readable writable, ready := [] } := by
  have queue := queue_poll finished readable writable
  have begun := begun_poll finished readable writable
  have before : ∀ {item}, item ∈ c.ready ++ c.reported readable writable ++ [] →
      item ∈ c.queue ∨ item ∈ c.reported readable writable := by
    intro item there
    rwa [queue, List.mem_append] at there
  exact { h with
    begun := fun some => h.begun (begun ▸ some)
    emptied := fun writes some => h.emptied writes (begun ▸ some)
    ordered := by
      rw [Cfg.queue, queue]
      exact reported_ordered h readable writable
    adding := fun there => h.adding ((before there).resolve_right fun reported =>
        (reported_other reported).1 rfl)
    unread := fun reads there => by
      rcases before there with there | reported
      · exact h.unread reads there
      · rcases mem_reported reported with ⟨_, reader⟩ | ⟨other, _⟩
        · exact (h.unbegun reads reader).1
        · cases other
    writing := fun reads => by
      refine ⟨(h.writing reads).1, fun there => ?_⟩
      rcases before there with there | reported
      · exact (h.writing reads).2 there
      · rcases mem_reported reported with ⟨other, _⟩ | ⟨_, writer⟩
        · cases other
        · cases (h.writing reads).1.symm.trans writer }

theorem step_sound {a : Action} (h : c.Sound kind) (stepped : step kind c a = some d) :
    d.Sound kind := by
  cases step_stepped stepped with
  | poll readable writable idle finished => exact poll_sound h finished readable writable
  | pop read write item rest there idle => exact run_sound h there idle read write
  | skip item rest there removed => exact h.next there
  | call m write d ran => exact call_sound h ran
  | ret r frame stack top => exact after_sound h top r

theorem init_sound (kind : Kind) : Cfg.init.Sound kind where
  grounded := trivial
  closed gone := by cases gone
  unbound gone := by cases gone
  begun some := absurd rfl some
  shown := by simp [Cfg.init]
  emptied _ some := absurd rfl some
  ordered := by simp [Cfg.init, Cfg.queue, Item.Precedes]
  adding _ := ⟨rfl, fun frame there => by cases there⟩
  reading _ reads := by cases reads
  unread _ there := rfl
  writing _ := ⟨rfl, by simp [Cfg.init, Cfg.queue]⟩
  resuming _ frame there := by cases there

end TokioLoop.Pipes
