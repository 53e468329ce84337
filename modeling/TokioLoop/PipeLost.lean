import TokioLoop.PipeLifetime

/-!
The completions of a pipe transport. `close` and `write_eof` do nothing on a transport
that is closing; `abort`, `_read_ready`, `_fatal_error` and the end of a drain complete it
whether or not it has been, so that `connection_lost` may come twice, the second time
through references that are `None`.
-/
namespace TokioLoop.Pipes

open Runs
open Tcp (Bytes)

variable {kind : Kind} {c d : Cfg}

structure Cfg.Once (c : Cfg) : Prop where
  lost : c.lost.length ≤ 1
  broken : c.broken = false

/-- A second execution of `_call_connection_lost` is scheduled. -/
def Cfg.Doomed (c : Cfg) : Prop := 2 ≤ c.begun

structure Cfg.Sure (c : Cfg) : Prop where
  begun : c.begun ≤ 1
  broken : c.broken = false

def Item.careless (kind : Kind) (read : ReadResult) : Item → Bool
  | .readReady => kind = .write ∨ read = .eof
  | _ => false

def Frame.careless (c : Cfg) (r : Ret) : Frame → Bool
  | .fatal _ _ => r ≠ .exits
  | frame => frame.resumes r && c.closing

/-- The step completes the transport, whether or not it has been. -/
def Cfg.careless (kind : Kind) (c : Cfg) : Action → Bool
  | .call .abort _ => true
  | .pop read _ => c.batch.head?.any (Item.careless kind read)
  | .ret r => c.stack.head?.any (Frame.careless c r)
  | _ => false

/-- `os.write` takes all of the buffer or fails. -/
def WriteResult.finishes (buffer : Bytes) : WriteResult → Bool
  | .room n => buffer.length ≤ n
  | .failed _ => true
  | _ => false

/-- The step uses a reference of a transport that has bytes in its buffer. -/
def Cfg.strays (c : Cfg) : Action → Bool
  | .pop _ write => c.batch.head? = some .writeReady ∧ c.buffer ≠ [] ∧ write.finishes c.buffer
  | .call (.setWriteBufferLimits high low) _ =>
      c.protocolPaused = false ∧ (waterMarks high low).any fun marks =>
        marks.1 < (c.buffer.length : Int)
  | _ => false

/-- A careless step is taken by a transport of which no completion is scheduled or done,
and what is left in the buffer is not used once the references are gone. -/
def Single (kind : Kind) (c : Cfg) (a : Action) : Prop :=
  (c.careless kind a = true → c.begun = 0) ∧ (c.strays a = true → c.gone = false)

instance (kind : Kind) (c : Cfg) (a : Action) : Decidable (Single kind c a) :=
  inferInstanceAs (Decidable (_ ∧ _))

theorem single_of_careful {a : Action} (careful : c.careless kind a = false)
    (stays : c.strays a = false) :
    Single kind c a := by
  constructor
  · intro careless
    cases careful.symm.trans careless
  · intro strays
    cases stays.symm.trans strays

theorem single_iff_fresh {a : Action} (stays : c.strays a = false) :
    Single kind c a ↔ (c.careless kind a = true → c.begun = 0) := by
  refine and_iff_left fun strays => ?_
  cases stays.symm.trans strays

theorem single_iff_alive {a : Action} (careful : c.careless kind a = false) :
    Single kind c a ↔ (c.strays a = true → c.gone = false) := by
  refine and_iff_right fun careless => ?_
  cases careful.symm.trans careless

theorem once_iff_sure : c.Once ∧ ¬ c.Doomed ↔ c.Sure := by
  constructor
  · rintro ⟨once, sure⟩
    exact ⟨by unfold Cfg.Doomed at sure; omega, once.broken⟩
  · intro sure
    have few := sure.begun
    unfold Cfg.begun at few
    exact ⟨⟨by omega, sure.broken⟩, fun doomed =>
      by unfold Cfg.Doomed at doomed; have := sure.begun; omega⟩

/-- It leaves them alone. -/
structure Keeps (c d : Cfg) : Prop where
  begun : d.begun = c.begun
  broken : d.broken = c.broken

/-- It begins one, unless the references are gone. -/
structure Begins (c d : Cfg) : Prop where
  begun : c.gone = false → d.begun = c.begun + 1
  broken : d.broken = (c.gone || c.broken)

theorem Keeps.refl (c : Cfg) : Keeps c c := ⟨rfl, rfl⟩

theorem Keeps.trans {b : Cfg} (first : Keeps b c) (second : Keeps c d) : Keeps b d :=
  ⟨second.begun.trans first.begun, second.broken.trans first.broken⟩

theorem Keeps.sure (keeps : Keeps c d) (sure : c.Sure) : d.Sure :=
  ⟨keeps.begun ▸ sure.begun, keeps.broken.trans sure.broken⟩

/-- A completion is the only one exactly if none was begun before. -/
theorem Begins.sure_iff (begins : Begins c d) (sound : c.Sound kind) (sure : c.Sure) : d.Sure ↔
    c.begun = 0 := by
  have broken := begins.broken
  rw [sure.broken, Bool.or_false] at broken
  rcases c.gone.eq_false_or_eq_true with gone | alive
  · refine iff_of_false (fun kept => ?_) (sound.begun_of_gone gone)
    cases kept.broken.symm.trans (broken.trans gone)
  · constructor
    · intro kept
      have few := kept.begun
      rw [begins.begun alive] at few
      omega
    · intro none
      exact ⟨by rw [begins.begun alive]; omega, broken.trans alive⟩

theorem Keeps.enter {b : Cfg} (keeps : Keeps b c) (alive : c.gone = false) (frame : Frame) :
    Keeps b (c.enter frame) := by
  rw [Cfg.enter, deref_alive _ alive]
  exact ⟨keeps.begun, keeps.broken⟩

theorem keeps_fatalError (alive : c.gone = false) (exc : Exn) (message : String) :
    Keeps c (c.fatalError exc message) :=
  Keeps.enter (b := c) (c := { c with ended := true }) ⟨rfl, rfl⟩ alive _

theorem keeps_maybePauseProtocol (alive : c.gone = false) : Keeps c c.maybePauseProtocol := by
  unfold Cfg.maybePauseProtocol
  split
  · exact .refl c
  split
  · exact .refl c
  · exact Keeps.enter (b := c) (c := { c with protocolPaused := true }) ⟨rfl, rfl⟩ alive _

/-- Code that uses a reference and then does one thing more to the completions. -/
theorem Begins.deref {b : Cfg} {f : Cfg → Cfg} (keeps : Keeps b c) (same : c.gone = b.gone)
    (begins : c.gone = false → Begins c (f c)) : Begins b (c.deref f) := by
  rcases c.gone.eq_false_or_eq_true with gone | alive
  · rw [deref_gone f gone]
    refine ⟨fun alive => ?_, ?_⟩
    · cases (gone.symm.trans same).trans alive
    · rw [← same, gone, Bool.true_or]
  · rw [deref_alive f alive]
    have once := begins alive
    refine ⟨fun _ => (once.begun alive).trans (congrArg (· + 1) keeps.begun), ?_⟩
    rw [once.broken, keeps.broken, same]

theorem begun_callConnectionLost (c : Cfg) (exc : Option Exn) :
    (c.callConnectionLost exc).begun = c.begun + 1 := by
  have appended : Cfg.begun { c with lost := c.lost ++ [(exc, c.buffer)] } = c.begun + 1 := by
    rw [Cfg.begun, List.length_append, ← Nat.add_assoc]
    rfl
  unfold Cfg.callConnectionLost Cfg.enter Cfg.deref
  split
  · exact appended
  · exact appended

theorem begins_callConnectionLost (c : Cfg) (exc : Option Exn) :
    Begins c (c.callConnectionLost exc) := by
  refine ⟨fun _ => begun_callConnectionLost c exc, ?_⟩
  rw [Cfg.callConnectionLost, Cfg.enter]
  rcases c.gone.eq_false_or_eq_true with gone | alive
  · rw [deref_gone _ (by exact gone), gone, Bool.true_or]
  · rw [deref_alive _ (by exact alive), alive, Bool.false_or]
    rfl

theorem begins_drained (closing : c.closing = true) : Begins c c.drained := by
  rw [Cfg.drained, if_pos closing]
  refine Begins.deref (.refl c) rfl fun _ => ?_
  have lost := begins_callConnectionLost { c with reader := false } none
  exact ⟨lost.begun, lost.broken⟩

/-- A completion through `call_soon`. -/
theorem begins_callSoon {b : Cfg} (keeps : Keeps b c) (alive : b.gone = false) (exc : Option Exn) :
    Begins b (c.callSoon (.callConnectionLost exc)) := by
  refine ⟨fun _ => ?_, ?_⟩
  · rw [begun_callSoon, keeps.begun]
    rfl
  · rw [alive, Bool.false_or]
    exact keeps.broken

/-- The end of a drain completes a closing transport. -/
theorem drained_sure_iff (sound : c.Sound kind) (sure : c.Sure) :
    c.drained.Sure ↔ (c.closing = true → c.begun = 0) := by
  rcases c.closing.eq_false_or_eq_true with closing | opened
  · rw [imp_iff_right closing]
    exact (begins_drained closing).sure_iff sound sure
  · rw [Cfg.drained, if_neg (by rw [opened]; exact Bool.false_ne_true)]
    refine iff_of_true sure fun closing => ?_
    cases opened.symm.trans closing

namespace Read

theorem keeps_addReader (alive : c.gone = false) : Keeps c (addReader c) := by
  unfold addReader
  split
  · rw [deref_alive _ alive]
    exact ⟨rfl, rfl⟩
  · exact .refl c

theorem begins_closeWith (c : Cfg) (exc : Option Exn) : Begins c (closeWith c exc) := by
  refine Begins.deref (b := c) (c := { c with closing := true }) ⟨rfl, rfl⟩ rfl fun alive => ?_
  refine begins_callSoon ?_ alive exc
  exact ⟨rfl, rfl⟩

theorem begins_eof (c : Cfg) : Begins c (readReady c .eof) := by
  rw [readReady]
  refine Begins.deref (b := c) (c := { c with closing := true, ended := true })
    ⟨rfl, rfl⟩ rfl fun alive => ?_
  refine begins_callSoon ?_ alive none
  exact ⟨begun_callSoon _ _, rfl⟩

theorem keeps_readReady (alive : c.gone = false) {result : ReadResult} (other : result ≠ .eof) :
    Keeps c (readReady c result) := by
  cases result with
  | blocked => exact .refl c
  | failed exc => exact keeps_fatalError alive exc _
  | data => exact (Keeps.refl c).enter alive _
  | eof => exact absurd rfl other

end Read

namespace Write

theorem keeps_addReader (alive : c.gone = false) : Keeps c (addReader c) := by
  rw [addReader, deref_alive _ alive]
  exact ⟨rfl, rfl⟩

theorem begins_closeWith (c : Cfg) (exc : Option Exn) : Begins c (closeWith c exc) := by
  refine Begins.deref (b := c) (c := { c with closing := true, ended := true })
    ⟨rfl, rfl⟩ rfl fun alive => ?_
  refine begins_callSoon ?_ alive exc
  exact ⟨rfl, rfl⟩

theorem keeps_wrote (alive : c.gone = false) (data : Bytes)
    (n : Nat) : Keeps c (wrote c data n) := by
  unfold wrote
  dsimp only
  split
  · exact ⟨rfl, rfl⟩
  · rw [deref_alive _ (by exact alive)]
    refine Keeps.trans ?_ (keeps_maybePauseProtocol ?_)
    · exact ⟨rfl, rfl⟩
    · exact alive

theorem keeps_write (sound : c.Sound .write) (data : Bytes) (result : WriteResult) :
    Keeps c (write c data result) := by
  unfold write
  split
  · exact .refl c
  split
  · exact ⟨rfl, rfl⟩
  next opened =>
    rw [not_or, Bool.not_eq_true] at opened
    have alive := sound.alive opened.2
    split
    · cases result with
      | room n => exact keeps_wrote alive data _
      | blocked => exact keeps_wrote alive data 0
      | failed exc =>
          refine Keeps.trans ?_ (keeps_fatalError ?_ exc _)
          · exact ⟨rfl, rfl⟩
          · exact alive
      | exits => exact .refl c
    · refine Keeps.trans ?_ (keeps_maybePauseProtocol ?_)
      · exact ⟨rfl, rfl⟩
      · exact alive

/-- `write_eof` completes a transport that is not closing. -/
theorem writeEof_sure (sound : c.Sound .write) (sure : c.Sure) : (writeEof c).Sure := by
  unfold writeEof
  split
  · exact sure
  next opened =>
    rw [Bool.not_eq_true] at opened
    dsimp only
    split
    · have begins : Begins c (Cfg.deref { c with closing := true } fun c =>
          { c with reader := false }.callSoon (.callConnectionLost none)) := by
        refine Begins.deref ⟨rfl, rfl⟩ rfl fun alive => ?_
        refine begins_callSoon ?_ alive none
        exact ⟨rfl, rfl⟩
      exact (begins.sure_iff sound sure).mpr (sound.fresh opened)
    · exact ⟨sure.begun, sure.broken⟩

theorem close_sure (sound : c.Sound .write) (sure : c.Sure) : (close c).Sure := by
  unfold close
  split
  · exact writeEof_sure sound sure
  · exact sure

/-- With no call in progress a transport whose buffer is not empty has begun no completion,
or its references are gone. -/
theorem fresh_of_buffered (sound : c.Sound .write) (idle : c.stack = []) (some : c.buffer ≠ [])
    (alive : c.gone = false) :
    c.begun = 0 := by
  by_contra begun
  rcases sound.emptied rfl begun with empty | ⟨entry, there, _⟩
  · exact some empty
  · rcases sound.shown.mp (List.ne_nil_of_mem there) with gone | inside
    · cases alive.symm.trans gone
    · rw [idle] at inside
      cases inside

/-- A drained transport of which no completion was begun is completed at most once. -/
theorem maybeResumeProtocol_sure (sound : c.Sound .write) (alive : c.gone = false)
    (none : c.begun = 0) (broken : c.broken = false) :
    c.maybeResumeProtocol.Sure := by
  have sure : c.Sure := ⟨by rw [none]; omega, broken⟩
  unfold Cfg.maybeResumeProtocol
  split
  · exact (Keeps.enter (b := c) (c := { c with protocolPaused := false }) ⟨rfl, rfl⟩ alive _).sure
      sure
  · exact (drained_sure_iff sound sure).mpr fun _ => none

/-- `_write_ready` breaks only where it goes through the references of a transport that has
lost them. -/
theorem writeReady_sure_iff (sound : c.Sound .write) (sure : c.Sure) (idle : c.stack = [])
    (result : WriteResult) : (writeReady c result).Sure ↔
    (c.buffer ≠ [] ∧ result.finishes c.buffer = true → c.gone = false) := by
  unfold writeReady
  split
  next empty => exact iff_of_true ⟨sure.begun, sure.broken⟩ fun h => absurd empty h.1
  next some =>
    have exact_iff {d : Cfg} (gone : c.gone = true → d.broken = true) (alive : c.gone = false →
      d.Sure) :
        d.Sure ↔ (c.buffer ≠ [] ∧ true = true → c.gone = false) := by
      rw [and_iff_left rfl, imp_iff_right some]
      rcases c.gone.eq_false_or_eq_true with hg | hg
      · refine iff_of_false (fun kept => ?_) (by rw [hg]; exact Bool.false_ne_true.symm)
        cases kept.broken.symm.trans (gone hg)
      · exact iff_of_true (alive hg) hg
    cases result with
    | blocked => exact iff_of_true sure fun h => by cases h.2
    | exits => exact iff_of_true sure fun h => by cases h.2
    | failed exc =>
        refine exact_iff (fun gone => by dsimp only; rw [deref_gone _ (by exact gone)]) fun alive =>
          ?_
        dsimp only
        rw [deref_alive _ (by exact alive)]
        refine Keeps.sure (c := c) (Keeps.trans ?_ (keeps_fatalError ?_ exc _)) sure
        · exact ⟨rfl, rfl⟩
        · exact alive
    | room n =>
        simp only [writeReadyWrote, WriteResult.finishes]
        by_cases whole : c.buffer.length ≤ n
        · rw [if_pos (Nat.min_eq_right whole), decide_eq_true whole]
          refine exact_iff (fun gone => by rw [deref_gone _ (by exact gone)]) fun alive => ?_
          have none := fresh_of_buffered sound idle some alive
          rw [deref_alive _ (by exact alive)]
          have taken := sound_dropped sound (min n c.buffer.length)
          exact maybeResumeProtocol_sure { taken with writing := fun reads => by cases reads } alive
            none sure.broken
        · rw [if_neg (by omega), decide_eq_false whole]
          exact iff_of_true ⟨sure.begun, sure.broken⟩ fun h => by cases h.2

end Write

theorem Read.close_sure (sound : c.Sound .read) (sure : c.Sure) : (Read.close c).Sure := by
  unfold Read.close
  split
  · exact sure
  next opened =>
    rw [Bool.not_eq_true] at opened
    exact ((Read.begins_closeWith c none).sure_iff sound sure).mpr (sound.fresh opened)

theorem Read.keeps_pauseReading (sound : c.Sound .read) : Keeps c (Read.pauseReading c) := by
  unfold Read.pauseReading
  split
  next reading =>
    simp only [Read.isReading, Bool.and_eq_true, Bool.not_eq_true'] at reading
    rw [deref_alive _ (by exact sound.alive reading.2)]
    exact ⟨rfl, rfl⟩
  next => exact .refl c

theorem Read.keeps_resumeReading (sound : c.Sound .read) : Keeps c (Read.resumeReading c) := by
  unfold Read.resumeReading
  split
  next => exact .refl c
  next reading =>
    rw [not_or, Bool.not_eq_true] at reading
    rw [deref_alive _ (by exact sound.alive reading.1)]
    exact ⟨rfl, rfl⟩

theorem setWriteBufferLimits_sure_iff (sure : c.Sure) (high low : Option Int)
    (write : WriteResult) : (c.setWriteBufferLimits high low).Sure ↔
      (c.strays (.call (.setWriteBufferLimits high low) write) = true → c.gone = false) := by
  simp only [Cfg.strays, decide_eq_true_eq]
  unfold Cfg.setWriteBufferLimits
  cases waterMarks high low with
  | none => exact iff_of_true sure fun h => by cases h.2
  | some marks =>
      simp only [Option.any_some, decide_eq_true_eq, Cfg.maybePauseProtocol]
      split
      next below => exact iff_of_true ⟨sure.begun, sure.broken⟩ fun h => by omega
      split
      next paused =>
        exact iff_of_true ⟨sure.begun, sure.broken⟩ fun h => by cases h.1.symm.trans paused
      next above pausing =>
        rw [imp_iff_right ⟨Bool.not_eq_true _ ▸ pausing, by omega⟩]
        rcases c.gone.eq_false_or_eq_true with gone | alive
        · rw [Cfg.enter, deref_gone _ (by exact gone)]
          refine iff_of_false (fun kept => by cases kept.broken) ?_
          rw [gone]
          exact Bool.false_ne_true.symm
        · rw [Cfg.enter, deref_alive _ (by exact alive)]
          exact iff_of_true ⟨sure.begun, sure.broken⟩ alive

theorem call_sure_iff (sound : c.Sound kind) (sure : c.Sure) {m : Method} {write : WriteResult}
    (ran : m.run c write kind = some d) : d.Sure ↔ Single kind c (.call m write) := by
  cases run_called ran with
  | write data =>
      exact iff_of_true ((Write.keeps_write sound data write).sure sure) (single_of_careful rfl rfl)
  | writeEof => exact iff_of_true (Write.writeEof_sure sound sure) (single_of_careful rfl rfl)
  | abort =>
      refine ((Write.begins_closeWith c none).sure_iff sound sure).trans ?_
      exact ((single_iff_fresh rfl).trans (imp_iff_right rfl)).symm
  | setWriteBufferLimits high low =>
      refine (setWriteBufferLimits_sure_iff sure high low write).trans ?_
      exact (single_iff_alive rfl).symm
  | closeWrite => exact iff_of_true (Write.close_sure sound sure) (single_of_careful rfl rfl)
  | pauseReading =>
      exact iff_of_true ((Read.keeps_pauseReading sound).sure sure) (single_of_careful rfl rfl)
  | resumeReading =>
      exact iff_of_true ((Read.keeps_resumeReading sound).sure sure) (single_of_careful rfl rfl)
  | closeRead => exact iff_of_true (Read.close_sure sound sure) (single_of_careful rfl rfl)

/-- Only the end of the stream completes a read transport. -/
theorem readReady_sure_iff (sound : c.Sound .read) (sure : c.Sure) (alive : c.gone = false)
    (result : ReadResult) : (Read.readReady c result).Sure ↔ (result = .eof → c.begun = 0) := by
  by_cases eof : result = .eof
  · rw [eof, imp_iff_right rfl]
    exact (Read.begins_eof c).sure_iff sound sure
  · exact iff_of_true ((Read.keeps_readReady alive eof).sure sure) fun ends => absurd ends eof

theorem run_sure_iff (sound : c.Sound kind) (sure : c.Sure) {item : Item} {rest : List Item}
    (there : c.batch = item :: rest) (idle : c.stack = []) (read : ReadResult)
    (write : WriteResult) : (item.run kind { c with batch := rest } read write).Sure ↔ Single kind c
    (.pop read write) := by
  have begun := begun_next there
  have queued : item ∈ c.queue := List.mem_append_left _ (there ▸ List.mem_cons_self)
  have careless : c.careless kind (.pop read write) = item.careless kind read := by
    rw [Cfg.careless, there, List.head?_cons, Option.any_some]
  have strays : c.strays (.pop read write) =
      decide (item = .writeReady ∧ c.buffer ≠ [] ∧ write.finishes c.buffer = true) := by
    simp only [Cfg.strays, there, List.head?_cons, Option.some.injEq]
  have next := sound.next there
  have alive : c.lost = [] → c.gone = false := fun none => by
    by_contra gone
    exact sound.shown.mpr (.inl (Bool.not_eq_false _ ▸ gone)) none
  have rested : Cfg.Sure { c with batch := rest } :=
    ⟨Nat.le_trans (by rw [begun]; exact Nat.le_add_right _ _) sure.begun, sure.broken⟩
  -- only `_write_ready` strays
  have stays : item ≠ .writeReady → c.strays (.pop read write) = false := fun other => by
    rw [strays, decide_eq_false fun h => other h.1]
  cases item with
  | connectionMade | eofReceived =>
      exact iff_of_true ⟨rested.begun, rested.broken⟩
        (single_of_careful careless (stays Item.noConfusion))
  | waiter => exact iff_of_true rested (single_of_careful careless (stays Item.noConfusion))
  | addReader =>
      have alive := alive (sound.adding queued).1
      refine iff_of_true ?_ (single_of_careful careless (stays Item.noConfusion))
      cases kind with
      | read => exact (Read.keeps_addReader (by exact alive)).sure rested
      | write => exact (Write.keeps_addReader (by exact alive)).sure rested
  | callConnectionLost exc =>
      refine iff_of_true ?_ (single_of_careful careless (stays Item.noConfusion))
      have few := sure.begun
      rw [begun] at few
      exact ((begins_callConnectionLost _ exc).sure_iff next rested).mpr
        (Nat.le_zero.mp (Nat.le_of_succ_le_succ few))
  | writeReady =>
      cases kind with
      | read => exact absurd queued (sound.writing rfl).2
      | write =>
          refine (Write.writeReady_sure_iff next rested idle write).trans ?_
          rw [single_iff_alive careless, strays, decide_eq_true_eq, and_iff_right rfl]
  | readReady =>
      have same : c.begun = Cfg.begun { c with batch := rest } := begun
      rw [single_iff_fresh (stays Item.noConfusion), careless, same]
      cases kind with
      | write =>
          exact ((Write.begins_closeWith _ _).sure_iff next rested).trans (imp_iff_right rfl).symm
      | read =>
          refine (readReady_sure_iff next rested (alive (sound.unread rfl queued)) read).trans ?_
          simp only [Item.careless, decide_eq_true_eq, reduceCtorEq, false_or]

theorem begins_closeWith (kind : Kind) (c : Cfg) (exc : Option Exn) :
    Begins c (closeWith kind c exc) := by
  cases kind with
  | read => exact Read.begins_closeWith c exc
  | write => exact Write.begins_closeWith c exc

theorem after_sure_iff (sound : c.Sound kind) (sure : c.Sure) {frame : Frame} {stack : List Frame}
    (top : c.stack = frame :: stack) (r : Ret) :
    (frame.after kind { c with stack } r).Sure ↔ Single kind c (.ret r) := by
  have careless : c.careless kind (.ret r) = frame.careless c r := by
    rw [Cfg.careless, top, List.head?_cons, Option.any_some]
  rw [single_iff_fresh rfl, careless]
  have rested : Cfg.Sure { c with stack } := ⟨sure.begun, sure.broken⟩
  cases frame with
  | connectionMade | dataReceived | eofReceived | pauseFailed =>
      exact iff_of_true rested fun careless => by cases careless
  | pauseWriting =>
      have alive := sound.alive_of_bound top rfl
      refine iff_of_true ?_ fun careless => by cases careless
      simp only [Frame.after]
      split
      · exact ((Keeps.refl { c with stack }).enter (by exact alive) _).sure rested
      · exact rested
  | resumeWriting =>
      have alive := sound.alive_of_bound top rfl
      cases r with
      | returned => exact drained_sure_iff (sound.below top Frame.noConfusion) rested
      | raised =>
          refine iff_of_true ?_ fun careless => by cases careless
          exact ((Keeps.refl { c with stack }).enter (by exact alive) _).sure rested
      | exits => exact iff_of_true rested fun careless => by cases careless
  | resumeFailed =>
      have drains := drained_sure_iff (sound.below top Frame.noConfusion) rested
      cases r with
      | returned => exact drains
      | raised => exact drains
      | exits => exact iff_of_true rested fun careless => by cases careless
  | fatal exc message =>
      have below := sound.below top Frame.noConfusion
      have begins := (begins_closeWith kind { c with stack } (some exc)).sure_iff below rested
      cases r with
      | returned => exact begins.trans (imp_iff_right rfl).symm
      | raised => exact begins.trans (imp_iff_right rfl).symm
      | exits => exact iff_of_true rested fun careless => by cases careless
  | connectionLost =>
      have alive := sound.alive_of_bound top rfl
      refine iff_of_true ?_ fun careless => by cases careless
      change (Cfg.release { c with stack }).Sure
      rw [Cfg.release, deref_alive _ (by exact alive)]
      exact ⟨sure.begun, sure.broken⟩

theorem step_sure_iff {a : Action} (sound : c.Sound kind) (sure : c.Sure)
    (stepped : step kind c a = some d) : d.Sure ↔ Single kind c a := by
  cases step_stepped stepped with
  | poll readable writable idle finished =>
      have same := begun_poll finished readable writable
      exact iff_of_true ⟨same.symm ▸ sure.begun, sure.broken⟩ (single_of_careful rfl rfl)
  | pop read write item rest there idle => exact run_sure_iff sound sure there idle read write
  | skip item rest there removed =>
      refine iff_of_true ⟨?_, sure.broken⟩ (single_of_careful rfl rfl)
      have few := sure.begun
      rw [begun_next there] at few
      exact Nat.le_trans (Nat.le_add_right _ _) few
  | call m write d ran => exact call_sure_iff sound sure ran
  | ret r frame stack top => exact after_sure_iff sound sure top r

theorem begun_le_deref {b : Cfg} {f : Cfg → Cfg} (before : b.begun ≤ c.begun)
    (after : b.begun ≤ (f c).begun) : b.begun ≤ (c.deref f).begun := by
  unfold Cfg.deref
  split
  · exact before
  · exact after

theorem begun_le_enter (c : Cfg) (frame : Frame) : c.begun ≤ (c.enter frame).begun :=
  begun_le_deref (Nat.le_refl _) (Nat.le_refl c.begun)

theorem begun_le_callSoon (c : Cfg) (item : Item) : c.begun ≤ (c.callSoon item).begun :=
  begun_callSoon c item ▸ Nat.le_add_right _ _

theorem begun_le_maybePauseProtocol (c : Cfg) : c.begun ≤ c.maybePauseProtocol.begun := by
  unfold Cfg.maybePauseProtocol
  split
  · exact Nat.le_refl _
  split
  · exact Nat.le_refl _
  · exact begun_le_enter { c with protocolPaused := true } _

theorem begun_le_drained (c : Cfg) : c.begun ≤ c.drained.begun := by
  unfold Cfg.drained
  split
  · refine begun_le_deref (Nat.le_refl _) ?_
    rw [begun_callConnectionLost]
    exact Nat.le_succ c.begun
  · exact Nat.le_refl _

theorem begun_le_maybeResumeProtocol (c : Cfg) : c.begun ≤ c.maybeResumeProtocol.begun := by
  unfold Cfg.maybeResumeProtocol
  split
  · exact begun_le_enter { c with protocolPaused := false } _
  · exact begun_le_drained c

theorem begun_le_setWriteBufferLimits (c : Cfg) (high low : Option Int) :
    c.begun ≤ (c.setWriteBufferLimits high low).begun := by
  unfold Cfg.setWriteBufferLimits
  split
  next high low _ => exact begun_le_maybePauseProtocol { c with highWater := high, lowWater := low }
  next => exact Nat.le_refl _

theorem begun_le_closeWith (kind : Kind) (c : Cfg) (exc : Option Exn) :
    c.begun ≤ (closeWith kind c exc).begun := by
  cases kind with
  | read => exact begun_le_deref (Nat.le_refl c.begun) (begun_le_callSoon _ _)
  | write => exact begun_le_deref (Nat.le_refl c.begun) (begun_le_callSoon _ _)

namespace Read

theorem begun_le_addReader (c : Cfg) : c.begun ≤ (addReader c).begun := by
  unfold addReader
  split
  · exact begun_le_deref (Nat.le_refl _) (Nat.le_refl c.begun)
  · exact Nat.le_refl _

theorem begun_le_pauseReading (c : Cfg) : c.begun ≤ (pauseReading c).begun := by
  unfold pauseReading
  split
  · exact begun_le_deref (Nat.le_refl c.begun) (Nat.le_refl c.begun)
  · exact Nat.le_refl _

theorem begun_le_resumeReading (c : Cfg) : c.begun ≤ (resumeReading c).begun := by
  unfold resumeReading
  split
  · exact Nat.le_refl _
  · exact begun_le_deref (Nat.le_refl c.begun) (Nat.le_refl c.begun)

theorem begun_le_close (c : Cfg) : c.begun ≤ (close c).begun := by
  unfold close
  split
  · exact Nat.le_refl _
  · exact begun_le_closeWith .read c none

end Read

namespace Write

theorem begun_le_wrote (c : Cfg) (data : Bytes) (n : Nat) : c.begun ≤ (wrote c data n).begun := by
  unfold wrote
  dsimp only
  split
  · exact Nat.le_refl _
  · refine begun_le_deref (Nat.le_refl c.begun) (Nat.le_trans ?_ (begun_le_maybePauseProtocol _))
    exact Nat.le_refl c.begun

theorem begun_le_write (c : Cfg) (data : Bytes) (result : WriteResult) :
    c.begun ≤ (write c data result).begun := by
  unfold write
  split
  · exact Nat.le_refl _
  split
  · exact Nat.le_refl _
  split
  · cases result with
    | room n => exact begun_le_wrote c data _
    | blocked => exact begun_le_wrote c data 0
    | failed exc => exact begun_le_enter { c with connLost := c.connLost + 1, ended := true } _
    | exits => exact Nat.le_refl _
  · exact begun_le_maybePauseProtocol
      { c with accepted := c.accepted ++ data, buffer := c.buffer ++ data }

theorem begun_le_writeReady (c : Cfg) (result : WriteResult) :
    c.begun ≤ (writeReady c result).begun := by
  unfold writeReady
  split
  · exact Nat.le_refl _
  cases result with
  | blocked => exact Nat.le_refl _
  | exits => exact Nat.le_refl _
  | failed exc =>
      refine begun_le_deref (Nat.le_refl c.begun) (Nat.le_trans ?_ (begun_le_enter _ _))
      exact Nat.le_refl c.begun
  | room n =>
      simp only [writeReadyWrote]
      split
      · refine begun_le_deref (Nat.le_refl c.begun)
          (Nat.le_trans ?_ (begun_le_maybeResumeProtocol _))
        exact Nat.le_refl c.begun
      · exact Nat.le_refl _

theorem begun_le_writeEof (c : Cfg) : c.begun ≤ (writeEof c).begun := by
  unfold writeEof
  split
  · exact Nat.le_refl _
  dsimp only
  split
  · exact begun_le_deref (Nat.le_refl c.begun) (begun_le_callSoon _ _)
  · exact Nat.le_refl _

theorem begun_le_close (c : Cfg) : c.begun ≤ (close c).begun := by
  unfold close
  split
  · exact begun_le_writeEof c
  · exact Nat.le_refl _

end Write

theorem begun_le_call {m : Method} {write : WriteResult} (ran : m.run c write kind = some d) :
    c.begun ≤ d.begun := by
  cases run_called ran with
  | write data => exact Write.begun_le_write c data write
  | writeEof => exact Write.begun_le_writeEof c
  | abort => exact begun_le_closeWith .write c none
  | setWriteBufferLimits high low => exact begun_le_setWriteBufferLimits c high low
  | closeWrite => exact Write.begun_le_close c
  | pauseReading => exact Read.begun_le_pauseReading c
  | resumeReading => exact Read.begun_le_resumeReading c
  | closeRead => exact Read.begun_le_close c

theorem begun_le_run {item : Item} {rest : List Item} (there : c.batch = item :: rest)
    (read : ReadResult) (write : WriteResult) :
    c.begun ≤ (item.run kind { c with batch := rest } read write).begun := by
  have begun := begun_next there
  cases item with
  | callConnectionLost exc => exact Nat.le_of_eq (begun.trans (begun_callConnectionLost _ exc).symm)
  | connectionMade | eofReceived | waiter => exact Nat.le_of_eq begun
  | addReader =>
      refine Nat.le_trans (Nat.le_of_eq begun) ?_
      cases kind with
      | write =>
          exact begun_le_deref (Nat.le_refl _) (Nat.le_refl (Cfg.begun { c with batch := rest }))
      | read => exact Read.begun_le_addReader { c with batch := rest }
  | writeReady => exact Nat.le_trans (Nat.le_of_eq begun) (Write.begun_le_writeReady _ write)
  | readReady =>
      refine Nat.le_trans (Nat.le_of_eq begun) ?_
      cases kind with
      | write => exact begun_le_closeWith .write _ _
      | read =>
          cases read with
          | blocked => exact Nat.le_refl _
          | data => exact begun_le_enter _ _
          | failed exc => exact begun_le_enter { c with batch := rest, ended := true } _
          | eof =>
              refine begun_le_deref (Nat.le_refl (Cfg.begun { c with batch := rest })) ?_
              exact Nat.le_trans (begun_le_callSoon _ _) (begun_le_callSoon _ _)

theorem begun_le_after {frame : Frame} {stack : List Frame} (r : Ret) :
    c.begun ≤ (frame.after kind { c with stack } r).begun := by
  have stays : c.begun ≤ Cfg.begun { c with stack } := Nat.le_refl _
  cases frame with
  | connectionMade | dataReceived | eofReceived | pauseFailed => exact stays
  | pauseWriting =>
      simp only [Frame.after]
      split
      · exact begun_le_enter { c with stack } _
      · exact stays
  | resumeWriting =>
      cases r with
      | returned => exact begun_le_drained { c with stack }
      | raised => exact begun_le_enter { c with stack } _
      | exits => exact stays
  | resumeFailed =>
      simp only [Frame.after]
      split
      · exact stays
      · exact begun_le_drained { c with stack }
  | fatal exc message =>
      simp only [Frame.after]
      split
      · exact stays
      · exact begun_le_closeWith kind { c with stack } _
  | connectionLost => exact begun_le_deref stays stays

/-- A completion waits in the queue until it is executed. -/
theorem begun_le_step {a : Action} (stepped : step kind c a = some d) : c.begun ≤ d.begun := by
  cases step_stepped stepped with
  | poll readable writable idle finished =>
      exact Nat.le_of_eq (begun_poll finished readable writable).symm
  | pop read write item rest there idle => exact begun_le_run there read write
  | skip item rest there removed =>
      have other : item.completes = false := by
        cases item with
        | callConnectionLost => cases removed
        | _ => rfl
      refine Nat.le_of_eq ((begun_next there).trans ?_)
      rw [other]
      rfl
  | call m write d ran => exact begun_le_call ran
  | ret r frame stack top => exact begun_le_after r

theorem init_sure : Cfg.init.Sure := ⟨Nat.zero_le 1, rfl⟩

/-- In a run whose careless steps are all taken by a fresh transport `connection_lost` comes
at most once and no reference is used after it is dropped, and a run in which that is so
and at whose end no second completion is scheduled is of this kind. -/
theorem pipe_lost_once {actions : List Action} (h : run (step kind) Cfg.init actions = some c) :
    (Guarded (step kind) (Single kind) Cfg.init actions →
      Always (step kind) Cfg.Once Cfg.init actions) ∧
      (¬ c.Doomed → Always (step kind) Cfg.Once Cfg.init actions →
        Guarded (step kind) (Single kind) Cfg.init actions) := by
  have start := once_iff_sure.mpr init_sure
  exact always_iff_guarded_settled (I := Cfg.Sound kind) (P := Cfg.Once) (D := Cfg.Doomed)
    (fun _ _ _ sound _ one _ => step_sound sound one)
    (fun _ _ _ sound once sure one =>
      once_iff_sure.trans (step_sure_iff sound (once_iff_sure.mp ⟨once, sure⟩) one))
    (fun _ _ _ _ _ doomed one _ => Nat.le_trans doomed (begun_le_step one)) h
    (init_sound kind) start.1 start.2

/-- `connection_made` returns and the reader is there. -/
def made : List Action :=
  [.poll false false, .pop .blocked .blocked, .ret .returned, .pop .blocked .blocked,
    .pop .blocked .blocked]

/-- `write_eof` with a byte in the buffer and, before that is out, `abort`. -/
theorem pipe_lost_once_aborted : Always (step .write) Cfg.Once Cfg.init (made ++
    [.call (.write [1]) .blocked, .call .writeEof .blocked, .call .abort .blocked,
      .poll false false, .pop .blocked .blocked, .ret .returned]) := by
  have ran : ∃ c, run (step .write) Cfg.init (made ++
      [.call (.write [1]) .blocked, .call .writeEof .blocked, .call .abort .blocked,
        .poll false false, .pop .blocked .blocked, .ret .returned]) = some c := ⟨_, rfl⟩
  obtain ⟨c, ran⟩ := ran
  exact (pipe_lost_once ran).1 (by decide)

/-- `write_eof` with nothing buffered and then `abort`: the second execution finds `None`. -/
theorem abort_after_eof_lost_twice : ∃ c, run (step .write) Cfg.init (made ++
      [.call .writeEof .blocked, .call .abort .blocked, .poll false false, .pop .blocked .blocked,
        .ret .returned, .pop .blocked .blocked]) = some c ∧ c.lost = [(none, []), (none, [])] ∧
        c.broken = true ∧
    ¬ Always (step .write) Cfg.Once Cfg.init (made ++
      [.call .writeEof .blocked, .call .abort .blocked, .poll false false, .pop .blocked .blocked,
        .ret .returned, .pop .blocked .blocked]) := by
  have ran : ∃ c, run (step .write) Cfg.init (made ++
      [.call .writeEof .blocked, .call .abort .blocked, .poll false false, .pop .blocked .blocked,
        .ret .returned, .pop .blocked .blocked]) = some c ∧ c.lost = [(none, []), (none, [])] ∧
        c.broken = true :=
    ⟨_, rfl, rfl, rfl⟩
  obtain ⟨c, ran, lost, broken⟩ := ran
  refine ⟨c, ran, lost, broken, fun always => ?_⟩
  cases broken.symm.trans (always.last ran).broken

end TokioLoop.Pipes
