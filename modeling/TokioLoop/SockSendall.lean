import Mathlib.Data.List.TakeDrop
import TokioLoop.Lib.Runs

/-!
`sock_sendall`: a first `send` in the coroutine, and where that does not take all of the
data, a future with the writer callback `_sock_sendall`, which sends on from the position
in its cell. The socket is shared with the application, which may close it at any time.
-/
namespace TokioLoop.SockSendall

open Runs

abbrev Bytes := List UInt8

/-- What `send` raises: an `OSError` with its error number, or something else. -/
inductive Exn where
  | osError (errno : Nat)
  | other (name : String)
  deriving DecidableEq, Repr

/-- `EBADF`, raised by every `send` on a closed socket. -/
def badFd : Exn := .osError 9

/-- The end of one `send`: it took some bytes, raised `BlockingIOError` or
`InterruptedError`, raised `SystemExit` or `KeyboardInterrupt`, or raised another exception. -/
inductive SendResult where
  | sent (n : Nat)
  | wouldBlock
  | exits
  | failed (exc : Exn)
  deriving DecidableEq, Repr

def SendResult.count : SendResult → Nat
  | .sent n => n
  | .wouldBlock | .exits | .failed _ => 0

structure Send where
  start : Nat
  result : SendResult
  deriving DecidableEq, Repr

/-- How the operation completes; `refused` is the `RuntimeError` of
`_ensure_fd_no_transport`, `exited` a `SystemExit` or `KeyboardInterrupt`. -/
inductive Outcome where
  | returned
  | raised (exc : Exn)
  | refused
  | exited
  deriving DecidableEq, Repr

/-- The coroutine before its first step, at its end without a future, and at the
`await` of a future that is pending or resolved. -/
inductive Stage where
  | created
  | ended (outcome : Outcome)
  | awaiting
  | resolved (outcome : Outcome)
  deriving DecidableEq, Repr

def Stage.outcome : Stage → Option Outcome
  | .created | .awaiting => none
  | .ended outcome | .resolved outcome => some outcome

/-- `fileno` is the descriptor of the socket, `none` for the `-1` of a closed one; `pos`
is the cell of the callback and `writer` says that it is registered. `kernel` are the bytes
that were taken and `sends` the calls of `send`; `resolutions` counts the calls of
`set_result` and `set_exception`. -/
structure Op where
  data : Bytes
  fileno : Option Nat
  stage : Stage
  writer : Bool
  pos : Nat
  kernel : Bytes
  sends : List Send
  resolutions : Nat
  deriving DecidableEq, Repr

def initial (data : Bytes) (fileno : Option Nat) : Op where
  data := data
  fileno := fileno
  stage := .created
  writer := false
  pos := 0
  kernel := []
  sends := []
  resolutions := 0

/-- What `send` of the data from `start` gives where the system would give `r`. -/
def Op.answer (s : Op) (start : Nat) (r : SendResult) : SendResult :=
  match s.fileno, r with
  | none, _ => .failed badFd
  | some _, .sent room => .sent (min room (s.data.length - start))
  | some _, r => r

def Op.send (s : Op) (start : Nat) (result : SendResult) : Op :=
  { s with
    kernel := s.kernel ++ (s.data.drop start).take result.count
    sends := s.sends ++ [⟨start, result⟩] }

/-- `remove_writer(sock.fileno())`; the conversion of `-1` to `usize` raises before
anything is removed. -/
def Op.removeWriter (s : Op) : Op :=
  match s.fileno with
  | none => s
  | some _ => { s with writer := false }

/-- `set_result` or `set_exception`, which raises on a future that is done, and behind it
`remove_writer`. -/
def Op.resolve (s : Op) (outcome : Outcome) : Op :=
  let s := { s with resolutions := s.resolutions + 1 }
  match s.stage with
  | .awaiting => Op.removeWriter { s with stage := .resolved outcome }
  | .created | .ended _ | .resolved _ => s

/-- The coroutine up to its end or its `await`; `bound` says that a transport uses the
descriptor. -/
def Op.sockSendall (s : Op) (bound : Bool) (r : SendResult) : Op :=
  if s.data = [] then { s with stage := .ended .returned }
  else
    let result := s.answer 0 r
    let s := s.send 0 result
    match result with
    | .failed exc => { s with stage := .ended (.raised exc) }
    | .exits => { s with stage := .ended .exited }
    | .sent _ | .wouldBlock =>
        if result.count = s.data.length then { s with stage := .ended .returned }
        else if bound then { s with stage := .ended .refused }
        else { s with stage := .awaiting, writer := true, pos := result.count }

/-- The callback `_sock_sendall`. -/
def Op.onWritable (s : Op) (r : SendResult) : Op :=
  let start := s.pos
  let result := s.answer start r
  let s := s.send start result
  match result with
  | .wouldBlock | .exits => s
  | .failed exc => s.resolve (.raised exc)
  | .sent n =>
      if start + n = s.data.length then s.resolve .returned else { s with pos := start + n }

inductive Action where
  | start (bound : Bool) (r : SendResult)
  | writable (r : SendResult)
  | close
  deriving DecidableEq, Repr

/-- The callback runs only while its writer is registered; `close` is the application's. -/
def step (s : Op) : Action → Option Op
  | .start bound r =>
      match s.stage with
      | .created => some (s.sockSendall bound r)
      | .ended _ | .awaiting | .resolved _ => none
  | .writable r => if s.writer then some (s.onWritable r) else none
  | .close => some { s with fileno := none }

def total : List Send → Nat
  | [] => 0
  | send :: rest => send.result.count + total rest

/-- Each send starts where the one before it ended. -/
def Contiguous : Nat → List Send → Prop
  | _, [] => True
  | pos, send :: rest => send.start = pos ∧ Contiguous (pos + send.result.count) rest

instance contiguousDecidable : ∀ (pos : Nat) (sends : List Send), Decidable (Contiguous pos sends)
  | _, [] => isTrue trivial
  | pos, send :: rest =>
      have := contiguousDecidable (pos + send.result.count) rest
      inferInstanceAs (Decidable (_ ∧ _))

theorem total_concat (sends : List Send) (send : Send) :
    total (sends ++ [send]) = total sends + send.result.count := by
  induction sends with
  | nil => simp [total]
  | cons first rest ih => simp only [List.cons_append, total, ih, Nat.add_assoc]

theorem contiguous_concat {pos : Nat} {sends : List Send} {send : Send} :
    Contiguous pos (sends ++ [send]) ↔ Contiguous pos sends ∧ send.start = pos + total sends := by
  induction sends generalizing pos with
  | nil => simp [Contiguous, total]
  | cons first rest ih =>
      simp only [List.cons_append, Contiguous, total, ih, Nat.add_assoc]
      exact and_assoc.symm

/-- The facts about the calls of `send` alone. -/
structure Op.Handed (s : Op) : Prop where
  nonempty : s.data ≠ []
  within : total s.sends ≤ s.data.length
  kernel : s.kernel = s.data.take (total s.sends)
  contiguous : Contiguous 0 s.sends

def Op.Failed (s : Op) (exc : Exn) : Prop := ∃ send ∈ s.sends, send.result = .failed exc

/-- What holds of the operation whether or not the socket stays open. -/
structure Op.Sound (s : Op) : Prop extends s.Handed where
  whole : s.stage.outcome = some .returned ↔ total s.sends = s.data.length
  failed : ∀ exc, s.stage.outcome = some (.raised exc) ↔ s.Failed exc
  created : s.stage = .created → s.sends = [] ∧ s.writer = false
  unresolved : (∀ outcome, s.stage ≠ .resolved outcome) → s.resolutions = 0
  pending : s.stage = .awaiting → s.writer = true
  writer : s.writer = true → s.pos = total s.sends ∧
    (s.stage = .awaiting ∨ s.stage = .resolved (.raised badFd) ∧ s.fileno = none)

variable {s t : Op} {start : Nat} {r result : SendResult} {outcome : Outcome} {exc : Exn}

theorem initial_sound {data : Bytes} (nonempty : data ≠ []) (fileno : Option Nat) :
    (initial data fileno).Sound where
  nonempty := nonempty
  within := Nat.zero_le _
  kernel := rfl
  contiguous := trivial
  whole := by
    have length : 0 ≠ data.length := fun zero => nonempty (List.eq_nil_of_length_eq_zero zero.symm)
    simp [initial, Stage.outcome, total, length]
  failed := by simp [initial, Stage.outcome, Op.Failed]
  created := fun _ => ⟨rfl, rfl⟩
  unresolved := fun _ => rfl
  pending := fun awaiting => by cases awaiting
  writer := fun registered => by cases registered

theorem answer_closed (closed : s.fileno = none) : s.answer start r = .failed badFd := by
  simp only [Op.answer, closed]

theorem count_answer : (s.answer start r).count ≤ s.data.length - start := by
  cases h : s.fileno with
  | none => exact answer_closed h ▸ Nat.zero_le _
  | some fd =>
      cases r with
      | sent room => simp only [Op.answer, h, SendResult.count, Nat.min_le_right]
      | wouldBlock | exits | failed => simp [Op.answer, h, SendResult.count]

theorem Op.Handed.send (h : s.Handed) (here : start = total s.sends) :
    (s.send start (s.answer start r)).Handed := by
  have room : (s.answer start r).count ≤ s.data.length - start := count_answer
  have within := h.within
  constructor
  · exact h.nonempty
  · simp only [Op.send, total_concat]
    omega
  · simp only [Op.send, total_concat, h.kernel, here, List.take_add]
  · exact contiguous_concat.mpr ⟨h.contiguous, here.trans (Nat.zero_add _).symm⟩

theorem failed_send : (s.send start result).Failed exc ↔ s.Failed exc ∨ result = .failed exc := by
  simp [Op.Failed, Op.send, or_and_right, exists_or]

/-- An operation that ended without a future. -/
theorem Op.Handed.ended (h : s.Handed) (idle : s.writer = false ∧ s.resolutions = 0)
    (whole : outcome = .returned ↔ total s.sends = s.data.length)
    (failed : ∀ exc, outcome = .raised exc ↔ s.Failed exc) : Op.Sound
    { s with stage := .ended outcome } where
  toHanded := { h with }
  whole := by simpa [Stage.outcome] using whole
  failed := by simpa [Stage.outcome, Op.Failed] using failed
  created := fun created => by cases created
  unresolved := fun _ => idle.2
  pending := fun awaiting => by cases awaiting
  writer := fun registered => by simp [idle.1] at registered

/-- An operation that waits for its next writable event. -/
theorem Op.Handed.waiting (h : s.Handed) (awaiting : s.stage = .awaiting)
    (registered : s.writer = true) (cell : s.pos = total s.sends) (idle : s.resolutions = 0)
    (partly : total s.sends ≠ s.data.length) (fine : ∀ exc, ¬ s.Failed exc) : s.Sound where
  toHanded := h
  whole := by simpa [awaiting, Stage.outcome] using partly
  failed := by simpa [awaiting, Stage.outcome] using fine
  created := fun created => by simp [awaiting] at created
  unresolved := fun _ => idle
  pending := fun _ => registered
  writer := fun _ => ⟨cell, .inl awaiting⟩

theorem resolve_awaiting (awaiting : s.stage = .awaiting) : s.resolve outcome =
    { s with
      stage := .resolved outcome
      writer := s.writer && s.fileno.isNone
      resolutions := s.resolutions + 1 } := by
  simp only [Op.resolve, awaiting, Op.removeWriter]
  cases open_ : s.fileno with
  | none => simp
  | some fd => simp

theorem resolve_resolved (before : s.stage = .resolved outcome) (again : Outcome) :
    s.resolve again = { s with resolutions := s.resolutions + 1 } := by
  simp only [Op.resolve, before]

/-- An operation whose future gets its outcome; the writer of a closed socket stays. -/
theorem Op.Handed.resolve (h : s.Handed) (awaiting : s.stage = .awaiting)
    (whole : outcome = .returned ↔ total s.sends = s.data.length)
    (failed : ∀ exc, outcome = .raised exc ↔ s.Failed exc)
    (stale : s.fileno = none → outcome = .raised badFd ∧ s.pos = total s.sends) :
    (s.resolve outcome).Sound := by
  rw [resolve_awaiting awaiting]
  exact {
    nonempty := h.nonempty
    within := h.within
    kernel := h.kernel
    contiguous := h.contiguous
    whole := by simpa [Stage.outcome] using whole
    failed := by simpa [Stage.outcome, Op.Failed] using failed
    created := fun created => by cases created
    unresolved := fun never => absurd rfl (never outcome)
    pending := fun pending => by cases pending
    writer := by
      intro registered
      have closed : s.fileno = none := by simpa using (Bool.and_eq_true_iff.mp registered).2
      obtain ⟨rfl, cell⟩ := stale closed
      exact ⟨cell, .inr ⟨rfl, closed⟩⟩ }

/-- The first step of the coroutine. -/
theorem Op.Sound.sockSendall (h : s.Sound) (created : s.stage = .created) (bound : Bool)
    (r : SendResult) : (s.sockSendall bound r).Sound := by
  obtain ⟨unsent, unregistered⟩ := h.created created
  have idle : s.writer = false ∧ s.resolutions = 0 :=
    ⟨unregistered, h.unresolved fun outcome => by simp [created]⟩
  have here : 0 = total s.sends := by rw [unsent]; rfl
  have handed := h.toHanded.send here (r := r)
  rw [Op.sockSendall, if_neg h.nonempty]
  dsimp only
  generalize s.answer 0 r = result at handed ⊢
  have sum : total (s.send 0 result).sends = result.count := by simp [Op.send, unsent, total]
  have only : ∀ exc, (s.send 0 result).Failed exc ↔ result = .failed exc := by
    intro exc
    rw [failed_send]
    simp [Op.Failed, unsent]
  have some : 0 ≠ (s.send 0 result).data.length :=
    fun zero => handed.nonempty (List.eq_nil_of_length_eq_zero zero.symm)
  cases result with
  | failed exc =>
      exact handed.ended idle (by rw [sum]; simpa [SendResult.count] using some) (by simp [only])
  | exits =>
      exact handed.ended idle (by rw [sum]; simpa [SendResult.count] using some) (by simp [only])
  | sent | wouldBlock =>
      have fine : ∀ exc, ¬ (s.send 0 _).Failed exc :=
        fun exc failed => by cases (only exc).mp failed
      dsimp only
      split
      next whole => exact handed.ended idle (by rw [sum]; simpa using whole) (by simp [fine])
      next partly =>
        split
        · exact handed.ended idle (by rw [sum]; simpa using partly) (by simp [fine])
        · exact Op.Handed.waiting { handed with } rfl rfl sum.symm idle.2
            (fun whole => partly (sum.symm.trans whole)) fine

theorem onWritable_closed (closed : s.fileno = none) (r : SendResult) :
    s.onWritable r = (s.send s.pos (.failed badFd)).resolve (.raised badFd) := by
  simp only [Op.onWritable, answer_closed closed]

/-- While the future is pending, some data is left and no send has failed. -/
theorem Op.Sound.unfinished (h : s.Sound) (awaiting : s.stage = .awaiting) :
    total s.sends ≠ s.data.length ∧ (∀ exc, ¬ s.Failed exc) ∧ s.resolutions = 0 := by
  have none : s.stage.outcome = none := by rw [awaiting]; rfl
  refine ⟨fun whole => ?_, fun exc failed => ?_, h.unresolved fun outcome => by simp [awaiting]⟩
  · cases none.symm.trans (h.whole.mpr whole)
  · cases none.symm.trans ((h.failed exc).mpr failed)

/-- One call of the callback while the future is pending. -/
theorem Op.Sound.onWritable_pending (h : s.Sound) (awaiting : s.stage = .awaiting)
    (r : SendResult) : (s.onWritable r).Sound := by
  have registered := h.pending awaiting
  have cell := (h.writer registered).1
  obtain ⟨partly, clean, idle⟩ := h.unfinished awaiting
  have handed := h.toHanded.send cell (r := r)
  -- a closed socket can only fail, so a writer that stays always stands behind `EBADF`
  have shut : s.fileno = none → s.answer s.pos r = .failed badFd := answer_closed
  unfold Op.onWritable
  dsimp only
  generalize s.answer s.pos r = result at handed shut ⊢
  have sum : total (s.send s.pos result).sends = s.pos + result.count := by
    rw [cell]
    exact total_concat ..
  have only : ∀ exc, (s.send s.pos result).Failed exc ↔ result = .failed exc := by
    intro exc
    rw [failed_send]
    simp [clean]
  have short : result.count = 0 → total (s.send s.pos result).sends ≠ s.data.length := by
    intro none whole
    rw [sum, none, cell] at whole
    exact partly whole
  cases result with
  | wouldBlock | exits =>
      have fine : ∀ exc, ¬ (s.send s.pos _).Failed exc :=
        fun exc failed => by cases (only exc).mp failed
      exact handed.waiting awaiting registered sum.symm idle (short rfl) fine
  | failed exc =>
      refine handed.resolve awaiting (iff_of_false (by simp) (short rfl))
        (by simp [only]) fun closed => ?_
      cases shut closed
      exact ⟨rfl, sum.symm⟩
  | sent n =>
      have fine : ∀ exc, ¬ (s.send s.pos _).Failed exc :=
        fun exc failed => by cases (only exc).mp failed
      dsimp only
      split
      next whole =>
        exact handed.resolve awaiting (iff_of_true rfl (sum.trans whole)) (by simp [fine])
          fun closed => by cases shut closed
      next less =>
        exact Op.Handed.waiting { handed with } awaiting registered sum.symm idle
          (fun whole => less (sum.symm.trans whole)) fine

/-- A call of the callback whose writer stayed behind the outcome of the future. -/
theorem Op.Sound.onWritable_stale (h : s.Sound) (registered : s.writer = true)
    (resolved : s.stage = .resolved (.raised badFd)) (closed : s.fileno = none) (r : SendResult) :
    (s.onWritable r).Sound := by
  have cell := (h.writer registered).1
  have handed := h.toHanded.send cell (r := r)
  rw [answer_closed closed] at handed
  have sum : total (s.send s.pos (.failed badFd)).sends = total s.sends := total_concat ..
  have known : s.Failed badFd := (h.failed badFd).mp (by rw [resolved]; rfl)
  rw [onWritable_closed closed, resolve_resolved (s := s.send s.pos (.failed badFd)) resolved]
  exact {
    nonempty := h.nonempty
    within := handed.within
    kernel := handed.kernel
    contiguous := handed.contiguous
    whole := by
      rw [sum]
      exact h.whole
    failed := by
      intro exc
      refine (h.failed exc).trans (failed_send.trans (or_iff_left_of_imp ?_)).symm
      intro same
      cases same
      exact known
    created := fun created => by simp [Op.send, resolved] at created
    unresolved := fun never => absurd resolved (never _)
    pending := fun pending => by simp [Op.send, resolved] at pending
    writer := fun _ => ⟨cell.trans sum.symm, .inr ⟨resolved, closed⟩⟩ }

/-- One call of the callback. -/
theorem Op.Sound.onWritable (h : s.Sound) (registered : s.writer = true) (r : SendResult) :
    (s.onWritable r).Sound := by
  rcases (h.writer registered).2 with awaiting | ⟨resolved, closed⟩
  · exact h.onWritable_pending awaiting r
  · exact h.onWritable_stale registered resolved closed r

theorem Op.Sound.step {a : Action} (h : s.Sound) (taken : step s a = some t) : t.Sound := by
  cases a with
  | start bound r =>
      cases created : s.stage with
      | created =>
          simp only [SockSendall.step, created, Option.some.injEq] at taken
          exact taken ▸ h.sockSendall created bound r
      | ended | awaiting | resolved => simp [SockSendall.step, created] at taken
  | writable r =>
      simp only [SockSendall.step, Option.ite_none_right_eq_some, Option.some.injEq] at taken
      exact taken.2 ▸ h.onWritable taken.1 r
  | close =>
      cases taken
      exact {
        toHanded := { h.toHanded with }
        whole := h.whole
        failed := h.failed
        created := h.created
        unresolved := h.unresolved
        pending := h.pending
        writer := fun registered => by
          obtain ⟨cell, awaiting | ⟨resolved, -⟩⟩ := h.writer registered
          · exact ⟨cell, .inl awaiting⟩
          · exact ⟨cell, .inr ⟨resolved, rfl⟩⟩ }

/-- The kernel has a prefix of the data from sends that stand in a row, the outcome tells
what became of them, the future is resolved at most once and the writer is registered as
long as it is not. -/
structure Op.SentOnce (s : Op) : Prop where
  sent : s.kernel <+: s.data
  contiguous : Contiguous 0 s.sends
  returned : s.stage.outcome = some .returned ↔ s.kernel = s.data
  raised : ∀ exc, s.stage.outcome = some (.raised exc) ↔ ∃ send ∈ s.sends, send.result = .failed exc
  once : s.resolutions ≤ 1
  writer : s.writer = true ↔ s.stage = .awaiting

/-- The callback finds its socket open. -/
def Opened (s : Op) : Action → Prop
  | .writable _ => s.fileno ≠ none
  | .start _ _ | .close => True

instance (s : Op) : (a : Action) → Decidable (Opened s a)
  | .writable _ => inferInstanceAs (Decidable (_ ≠ _))
  | .start _ _ | .close => isTrue trivial

theorem Op.Sound.sentOnce (h : s.Sound) (once : s.resolutions ≤ 1)
    (writer : s.writer = true → s.stage = .awaiting) : s.SentOnce where
  sent := h.kernel ▸ List.take_prefix ..
  contiguous := h.contiguous
  returned := by
    rw [h.whole, h.kernel, List.take_eq_self_iff]
    have within := h.within
    omega
  raised := h.failed
  once := once
  writer := ⟨writer, h.pending⟩

theorem sockSendall_quiet (idle : s.writer = false) (bound : Bool) (r : SendResult) :
    (s.sockSendall bound r).resolutions = s.resolutions ∧
      ((s.sockSendall bound r).writer = true → (s.sockSendall bound r).stage = .awaiting) := by
  unfold Op.sockSendall
  dsimp only
  split
  · simp [idle]
  split
  · simp [Op.send, idle]
  · simp [Op.send, idle]
  all_goals
    split
    · simp [Op.send, idle]
    split
    · simp [Op.send, idle]
    · simp [Op.send]

/-- A callback that waits on, or resolves the future. -/
theorem onWritable_awaiting (awaiting : s.stage = .awaiting) (r : SendResult) :
    (s.onWritable r).stage = .awaiting ∧ (s.onWritable r).resolutions = s.resolutions ∨
      ∃ outcome, (s.onWritable r).stage = .resolved outcome ∧
        (s.onWritable r).resolutions = s.resolutions + 1 ∧
        (s.onWritable r).writer = (s.writer && s.fileno.isNone) := by
  unfold Op.onWritable
  dsimp only
  generalize s.answer s.pos r = result
  have there : (s.send s.pos result).stage = .awaiting := awaiting
  cases result with
  | wouldBlock | exits => exact .inl ⟨awaiting, rfl⟩
  | failed exc =>
      dsimp only
      rw [resolve_awaiting there]
      exact .inr ⟨_, rfl, rfl, rfl⟩
  | sent n =>
      dsimp only
      split
      · rw [resolve_awaiting there]
        exact .inr ⟨_, rfl, rfl, rfl⟩
      · exact .inl ⟨awaiting, rfl⟩

/-- A step keeps the operation in order exactly when a callback finds its socket open. -/
theorem Op.SentOnce.step {a : Action} (intact : s.SentOnce) (h : s.Sound)
    (taken : step s a = some t) : t.SentOnce ↔ Opened s a := by
  have sound := h.step taken
  cases a with
  | close =>
      cases taken
      exact iff_of_true { intact with } trivial
  | start bound r =>
      cases created : s.stage with
      | created =>
          simp only [SockSendall.step, created, Option.some.injEq] at taken
          obtain ⟨same, waits⟩ := sockSendall_quiet (h.created created).2 bound r
          rw [taken] at same waits
          exact iff_of_true (sound.sentOnce (same ▸ intact.once) waits) trivial
      | ended | awaiting | resolved => simp [SockSendall.step, created] at taken
  | writable r =>
      simp only [SockSendall.step, Option.ite_none_right_eq_some, Option.some.injEq] at taken
      obtain ⟨registered, rfl⟩ := taken
      have awaiting := intact.writer.mp registered
      obtain ⟨-, -, idle⟩ := h.unfinished awaiting
      constructor
      · intro kept closed
        rw [onWritable_closed closed, resolve_awaiting (s := s.send s.pos (.failed badFd)) awaiting]
          at kept
        have still := kept.writer.mp (by simp [Op.send, registered, closed])
        cases still
      · intro opened
        rcases onWritable_awaiting awaiting r with ⟨waits, same⟩ | ⟨outcome, resolved, once, writer⟩
        · exact sound.sentOnce (by omega) fun _ => waits
        · refine sound.sentOnce (by omega) fun stays => ?_
          rw [writer, Bool.and_eq_true, Option.isNone_iff_eq_none] at stays
          exact absurd stays.2 opened

theorem initial_sentOnce {data : Bytes} (nonempty : data ≠ []) (fileno : Option Nat) :
    (initial data fileno).SentOnce :=
  (initial_sound nonempty fileno).sentOnce (Nat.zero_le 1) fun registered => by cases registered

/-- The data is sent once throughout a run exactly when no callback of the run finds its
socket closed. -/
theorem sentOnce_iff_opened {data : Bytes} (nonempty : data ≠ []) (fileno : Option Nat)
    {actions : List Action} (h : run step (initial data fileno) actions = some t) :
    Always step Op.SentOnce (initial data fileno) actions ↔
    Guarded step Opened (initial data fileno) actions :=
  always_iff_guarded (fun _ _ _ sound taken => sound.step taken)
    (fun _ _ _ sound intact taken => intact.step sound taken) h (initial_sound nonempty fileno)
    (initial_sentOnce nonempty fileno)

/-- Two bytes leave after an event for nothing. -/
theorem sentOnce_two : ∃ t, run step (initial [1, 2] (some 5))
      [.start false (.sent 1), .writable .wouldBlock, .writable (.sent 9)] = some t ∧
    t.kernel = [1, 2] ∧ t.writer = false ∧
    Always step Op.SentOnce (initial [1, 2] (some 5))
      [.start false (.sent 1), .writable .wouldBlock, .writable (.sent 9)] := by
  refine ⟨_, rfl, rfl, rfl, ?_⟩
  exact (sentOnce_iff_opened (by decide) (some 5) rfl).mpr (by decide)

/-- The socket is closed between the event and its callback: the future has its exception
and the writer stays. -/
theorem closed_writer_stays : ¬ ∀ (data : Bytes) (fileno : Option Nat) (actions : List Action)
    (t : Op), data ≠ [] → run step (initial data fileno) actions = some t → t.SentOnce := by
  intro claim
  have kept := claim [1, 2] (some 5) [.start false .wouldBlock, .close, .writable .wouldBlock] _
    (by decide) rfl
  have still := kept.writer.mp rfl
  cases still

end TokioLoop.SockSendall
