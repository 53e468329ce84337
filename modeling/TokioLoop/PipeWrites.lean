import TokioLoop.PipeLifetime

/-!
The bytes of a write transport. What the kernel took and what is buffered is together what
`write` accepted, the writer is registered as long as something is buffered, and
`connection_lost` comes after the last byte, unless `resume_writing` leaves bytes behind
in a transport that it closes.
-/
namespace TokioLoop.Pipes

open Runs
open Tcp (Bytes)

variable {c d : Cfg}

/-- The loop of a write transport in which `_write_ready` runs only while its writer is
registered. -/
def lawful (c : Cfg) : Action → Option Cfg
  | .pop read write =>
      if c.batch.head? = some .writeReady ∧ c.writer = false then none
        else step .write c (.pop read write)
  | a => step .write c a

structure Cfg.Intact (c : Cfg) : Prop where
  bytes : c.ended = false → c.kernel ++ c.buffer = c.accepted
  writer : c.writer = true ↔ c.buffer ≠ []
  asserted : c.asserted = false
  lost : ∀ entry ∈ c.lost, entry.2 = []

def Cfg.resumes (c : Cfg) : Action → Bool
  | .ret r => c.stack.head?.any (Frame.resumes r)
  | _ => false

/-- `resume_writing`, or the exception handler after it failed, does not leave a closing
transport with bytes in its buffer. -/
def Drains (c : Cfg) (a : Action) : Prop := c.resumes a = true → c.closing = true → c.buffer = []

instance (c : Cfg) (a : Action) : Decidable (Drains c a) := inferInstanceAs (Decidable (_ → _ → _))

theorem lawful_step {a : Action} (h : lawful c a = some d) : step .write c a = some d ∧
    ∀ read write rest, a = .pop read write → c.batch = .writeReady :: rest → c.writer = true := by
  cases a with
  | pop read write =>
      simp only [lawful] at h
      split at h
      · cases h
      next writing =>
        refine ⟨h, fun _ _ rest _ there => ?_⟩
        by_contra removed
        exact writing ⟨by rw [there]; rfl, Bool.not_eq_true _ ▸ removed⟩
  | poll | skip | call | ret => exact ⟨h, fun _ _ _ other => by cases other⟩

theorem Cfg.Intact.deref (h : c.Intact) {f : Cfg → Cfg} (intact : c.gone = false → (f c).Intact) :
    (c.deref f).Intact := by
  rcases c.gone.eq_false_or_eq_true with gone | alive
  · rw [deref_gone f gone]
    exact { h with }
  · rw [deref_alive f alive]
    exact intact alive

theorem Cfg.Intact.enter (h : c.Intact) (frame : Frame) : (c.enter frame).Intact :=
  h.deref fun _ => { h with }

theorem Cfg.Intact.fatalError (h : c.Intact) (exc : Exn) (message : String) :
    (c.fatalError exc message).Intact :=
  Cfg.Intact.enter (c := { c with ended := true }) { h with bytes := fun ended => by cases ended } _

theorem Cfg.Intact.maybePauseProtocol (h : c.Intact) : c.maybePauseProtocol.Intact := by
  unfold Cfg.maybePauseProtocol
  split
  · exact h
  split
  · exact h
  · exact Cfg.Intact.enter (c := { c with protocolPaused := true }) { h with } _

theorem Cfg.Intact.setWriteBufferLimits (h : c.Intact) (high low : Option Int) :
    (c.setWriteBufferLimits high low).Intact := by
  unfold Cfg.setWriteBufferLimits
  split
  next high low _ =>
    exact Cfg.Intact.maybePauseProtocol (c := { c with highWater := high, lowWater := low })
      { h with }
  next => exact h

theorem Cfg.Intact.callConnectionLost (h : c.Intact) (exc : Option Exn) :
    (c.callConnectionLost exc).Intact ↔ c.buffer = [] := by
  constructor
  · intro intact
    have entry : (exc, c.buffer) ∈ (c.callConnectionLost exc).lost := by
      unfold Cfg.callConnectionLost Cfg.enter Cfg.deref
      split <;> exact List.mem_append_right _ (List.mem_singleton_self _)
    exact intact.lost _ entry
  · intro empty
    refine Cfg.Intact.enter (c := { c with lost := c.lost ++ [(exc, c.buffer)] })
      { h with lost := ?_ } _
    intro entry there
    rcases List.mem_append.mp there with earlier | now
    · exact h.lost entry earlier
    · rw [List.mem_singleton.mp now]
      exact empty

theorem Cfg.Intact.drained (h : c.Intact) (alive : c.gone = false) :
    c.drained.Intact ↔ (c.closing = true → c.buffer = []) := by
  unfold Cfg.drained
  split
  next closing =>
    rw [deref_alive _ alive, imp_iff_right closing]
    exact Cfg.Intact.callConnectionLost (c := { c with reader := false }) { h with } none
  next closing => exact iff_of_true h fun closed => absurd closed closing

theorem Cfg.Intact.maybeResumeProtocol (h : c.Intact) (alive : c.gone = false)
    (empty : c.buffer = []) :
    c.maybeResumeProtocol.Intact := by
  unfold Cfg.maybeResumeProtocol
  split
  · exact Cfg.Intact.enter (c := { c with protocolPaused := false }) { h with } _
  · exact (h.drained alive).mpr fun _ => empty

theorem Cfg.Intact.release (h : c.Intact) : c.release.Intact := h.deref fun _ => { h with }

/-- A transport that has begun its completion has nothing left to write. -/
theorem Cfg.Intact.emptied (h : c.Intact) (sound : c.Sound .write) (begun : c.begun ≠ 0) :
    c.buffer = [] := by
  rcases sound.emptied rfl begun with empty | ⟨entry, there, some⟩
  · exact empty
  · exact absurd (h.lost entry there) some

namespace Write

theorem addReader_intact (h : c.Intact) : (addReader c).Intact := h.deref fun _ => { h with }

theorem closeWith_intact (h : c.Intact) (exc : Option Exn) : (closeWith c exc).Intact := by
  refine Cfg.Intact.deref (c := { c with closing := true, ended := true })
    { h with bytes := fun ended => by cases ended } fun _ => ?_
  refine { h with bytes := fun ended =>
    (by cases ended), writer := iff_of_false ?_ (not_not_intro rfl) }
  change ¬ (if c.buffer = [] then c.writer else false) = true
  split
  next empty => exact fun writer => h.writer.mp writer empty
  next => exact Bool.false_ne_true

theorem wrote_intact (h : c.Intact) (alive : c.gone = false) (empty : c.buffer = []) {data : Bytes}
    {n : Nat} (bound : n ≤ data.length) : (wrote c data n).Intact := by
  have bytes : c.ended = false → c.kernel ++ data = c.accepted ++ data := fun ended => by
    rw [← h.bytes ended, empty, List.append_nil]
  unfold wrote
  dsimp only
  split
  next whole =>
    refine { h with bytes := fun ended => ?_ }
    change c.kernel ++ data.take n ++ c.buffer = _
    rw [whole, List.take_length, empty, List.append_nil]
    exact bytes ended
  next part =>
    rw [deref_alive _ (by exact alive)]
    refine Cfg.Intact.maybePauseProtocol
      { h with bytes := fun ended => ?_, writer := iff_of_true rfl ?_ }
    · change c.kernel ++ data.take n ++ data.drop n = _
      rw [List.append_assoc, List.take_append_drop]
      exact bytes ended
    · exact List.ne_nil_of_length_pos (by rw [List.length_drop]; omega)

theorem write_intact (h : c.Intact) (sound : c.Sound .write) (data : Bytes) (result : WriteResult) :
    (write c data result).Intact := by
  unfold write
  split
  · exact h
  split
  · exact { h with }
  next opened =>
    rw [not_or, Bool.not_eq_true] at opened
    have alive := sound.alive opened.2
    split
    next empty =>
      cases result with
      | room n => exact wrote_intact h alive empty (Nat.min_le_right _ _)
      | blocked => exact wrote_intact h alive empty (Nat.zero_le _)
      | failed exc =>
          exact Cfg.Intact.fatalError (c := { c with connLost := c.connLost + 1 }) { h with } exc _
      | exits => exact h
    next some =>
      refine Cfg.Intact.maybePauseProtocol { h with bytes := fun ended => ?_, writer := ?_ }
      · change c.kernel ++ (c.buffer ++ data) = c.accepted ++ data
        rw [← List.append_assoc, h.bytes ended]
      · exact iff_of_true (h.writer.mpr some) (List.append_ne_nil_of_left_ne_nil some _)

theorem writeReady_intact (h : c.Intact) (sound : c.Sound .write) (writer : c.writer = true)
    (result : WriteResult) : (writeReady c result).Intact := by
  have some : c.buffer ≠ [] := h.writer.mp writer
  have alive : c.gone = false := by
    by_contra gone
    exact some (h.emptied sound (sound.begun_of_gone (Bool.not_eq_false _ ▸ gone)))
  unfold writeReady
  rw [if_neg some]
  cases result with
  | blocked => exact h
  | exits => exact h
  | failed exc =>
      dsimp only
      rw [deref_alive _ (by exact alive)]
      refine Cfg.Intact.enter ?_ _
      exact { h with
        bytes := fun ended => by cases ended
        writer := iff_of_false Bool.false_ne_true (not_not_intro rfl) }
  | room n =>
      have bytes (n : Nat) : c.ended = false →
          c.kernel ++ c.buffer.take n ++ c.buffer.drop n = c.accepted :=
        fun ended => by rw [List.append_assoc, List.take_append_drop, h.bytes ended]
      simp only [writeReadyWrote]
      split
      next whole =>
        rw [deref_alive _ (by exact alive)]
        have empty : c.buffer.drop (min n c.buffer.length) = [] := by rw [whole, List.drop_length]
        refine Cfg.Intact.maybeResumeProtocol ?_ alive empty
        exact { h with
          bytes := bytes _
          writer := iff_of_false Bool.false_ne_true (not_not_intro empty) }
      next part =>
        refine { h with bytes := bytes _, writer := iff_of_true writer ?_ }
        exact List.ne_nil_of_length_pos (by rw [List.length_drop]; omega)

theorem writeEof_intact (h : c.Intact) : (writeEof c).Intact := by
  unfold writeEof
  split
  · exact h
  dsimp only
  split
  · exact Cfg.Intact.deref (c := { c with closing := true }) { h with } fun _ => { h with }
  · exact { h with }

theorem close_intact (h : c.Intact) : (close c).Intact := by
  unfold close
  split
  · exact writeEof_intact h
  · exact h

end Write

theorem call_intact (h : c.Intact) (sound : c.Sound .write) {m : Method} {write : WriteResult}
    (ran : m.run c write .write = some d) : d.Intact := by
  cases run_called ran with
  | write data => exact Write.write_intact h sound data write
  | writeEof => exact Write.writeEof_intact h
  | abort => exact Write.closeWith_intact h none
  | setWriteBufferLimits high low => exact h.setWriteBufferLimits high low
  | closeWrite => exact Write.close_intact h

theorem run_intact (h : c.Intact) (sound : c.Sound .write) {item : Item} {rest : List Item}
    (there : c.batch = item :: rest) (writing : item = .writeReady → c.writer = true)
    (read : ReadResult) (write : WriteResult) :
    (item.run .write { c with batch := rest } read write).Intact := by
  have next : Cfg.Intact { c with batch := rest } := { h with }
  cases item with
  | connectionMade | eofReceived => exact { next with }
  | waiter => exact next
  | addReader => exact Write.addReader_intact next
  | callConnectionLost exc =>
      exact (next.callConnectionLost exc).mpr
        (h.emptied sound (by rw [begun_next there]; exact Nat.succ_ne_zero _))
  | readReady => exact Write.closeWith_intact next _
  | writeReady => exact Write.writeReady_intact next (sound.next there) (writing rfl) write

/-- The end of a call keeps the bytes exactly under the condition. -/
theorem after_intact_iff (h : c.Intact) (sound : c.Sound .write) {frame : Frame}
    {stack : List Frame} (top : c.stack = frame :: stack) (r : Ret) :
    (frame.after .write { c with stack } r).Intact ↔ Drains c (.ret r) := by
  have below : Cfg.Intact { c with stack } := { h with }
  have resumes : c.resumes (.ret r) = frame.resumes r := by
    rw [Cfg.resumes, top, List.head?_cons, Option.any_some]
  -- `_write_ready` goes on
  have resumed : frame.resuming = true → frame.resumes r = true →
      ((Cfg.drained { c with stack }).Intact ↔ Drains c (.ret r)) := by
    intro resuming goes
    have alive : c.gone = false := sound.alive_of_bound top
      (by cases frame <;> first | rfl | cases resuming)
    rw [Drains, resumes, imp_iff_right goes]
    exact below.drained alive
  have harmless : frame.resumes r = false → Drains c (.ret r) := by
    intro ends goes
    rw [resumes, ends] at goes
    cases goes
  cases frame with
  | connectionMade | dataReceived | eofReceived
  | pauseFailed => exact iff_of_true below (harmless rfl)
  | pauseWriting =>
      refine iff_of_true ?_ (harmless rfl)
      simp only [Frame.after]
      split
      · exact below.enter _
      · exact below
  | resumeWriting =>
      cases r with
      | returned => exact resumed rfl rfl
      | raised => exact iff_of_true (below.enter _) (harmless rfl)
      | exits => exact iff_of_true below (harmless rfl)
  | resumeFailed =>
      cases r with
      | returned => exact resumed rfl rfl
      | raised => exact resumed rfl rfl
      | exits => exact iff_of_true below (harmless rfl)
  | fatal exc message =>
      refine iff_of_true ?_ (harmless rfl)
      simp only [Frame.after]
      split
      · exact below
      · exact Write.closeWith_intact below _
  | connectionLost => exact iff_of_true below.release (harmless rfl)

theorem step_intact_iff {a : Action} (h : c.Intact) (sound : c.Sound .write)
    (stepped : lawful c a = some d) : d.Intact ↔ Drains c a := by
  have harmless : c.resumes a = false → Drains c a := by
    intro ends goes
    rw [ends] at goes
    cases goes
  obtain ⟨stepped, writing⟩ := lawful_step stepped
  cases step_stepped stepped with
  | poll => exact iff_of_true { h with } (harmless rfl)
  | pop read write item rest there idle =>
      refine iff_of_true (run_intact h sound there ?_ read write) (harmless rfl)
      rintro rfl
      exact writing read write rest rfl there
  | skip => exact iff_of_true { h with } (harmless rfl)
  | call m write d ran => exact iff_of_true (call_intact h sound ran) (harmless rfl)
  | ret r frame stack top => exact after_intact_iff h sound top r

theorem init_intact : Cfg.init.Intact where
  bytes _ := rfl
  writer := iff_of_false Bool.false_ne_true (not_not_intro rfl)
  asserted := rfl
  lost entry there := by cases there

/-- The bytes are intact in every state of a run exactly if no `resume_writing` leaves a
closing transport with bytes in its buffer. -/
theorem pipe_writes_intact_iff {actions : List Action} (h : run lawful Cfg.init actions = some c) :
    Always lawful Cfg.Intact Cfg.init actions ↔ Guarded lawful Drains Cfg.init actions :=
  always_iff_guarded (I := Cfg.Sound .write)
      (fun _ _ _ sound one => step_sound sound (lawful_step one).1)
    (fun _ _ _ sound intact one => step_intact_iff intact sound one) h
    (init_sound .write) init_intact

/-- Three bytes are buffered above the high mark of one; once they are out, `resume_writing`
writes two more, of which the pipe takes the first. -/
def resumedWrite : List Action :=
  [.poll false false, .pop .blocked .blocked, .ret .returned, .pop .blocked .blocked,
      .pop .blocked .blocked,
    .call (.setWriteBufferLimits (some 1) (some 0)) .blocked, .call (.write [1, 2, 3]) .blocked,
    .ret .returned, .poll false true, .pop .blocked (.room 3), .call (.write [4, 5]) (.room 1)]

/-- The last byte goes out before the transport is closed. -/
theorem pipe_writes_intact_resumed : Always lawful Cfg.Intact Cfg.init (resumedWrite ++
    [.ret .returned, .poll false true, .pop .blocked (.room 1), .call .close .blocked,
      .poll false false, .pop .blocked .blocked, .ret .returned]) := by
  have ran : ∃ c, run lawful Cfg.init (resumedWrite ++
      [.ret .returned, .poll false true, .pop .blocked (.room 1), .call .close .blocked,
        .poll false false, .pop .blocked .blocked, .ret .returned]) = some c := ⟨_, rfl⟩
  obtain ⟨c, ran⟩ := ran
  exact (pipe_writes_intact_iff ran).mpr (by decide)

/-- `resume_writing` closes the transport too, and `connection_lost` comes with the last
byte in the buffer. -/
theorem resume_closes_on_buffer : ∃ c, run lawful Cfg.init
    (resumedWrite ++ [.call .close .blocked, .ret .returned]) =
      some c ∧ c.ended = false ∧ c.lost = [(none, [5])] ∧ c.stack = [.connectionLost] ∧
    ¬ Always lawful Cfg.Intact Cfg.init
    (resumedWrite ++ [.call .close .blocked, .ret .returned]) := by
  have ran : ∃ c, run lawful Cfg.init (resumedWrite ++ [.call .close .blocked, .ret .returned]) =
    some c ∧
      c.ended = false ∧ c.lost = [(none, [5])] ∧ c.stack = [.connectionLost] :=
      ⟨_, rfl, rfl, rfl, rfl⟩
  obtain ⟨c, ran, ended, lost, stack⟩ := ran
  refine ⟨c, ran, ended, lost, stack, fun always => ?_⟩
  have left := (always.last ran).lost (none, [5]) (lost ▸ List.mem_singleton_self _)
  cases left

end TokioLoop.Pipes
