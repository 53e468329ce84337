import TokioLoop.TcpFrames
import TokioLoop.TlsStreams

/-!
The `RefCell` of the transport's state. `try_write` keeps its mutable borrow while it
calls `pause_writing` and, after a failed direct write, `connection_lost`; everything
else lets go of the state before it calls into the protocol. A second borrow in between
is a panic.

The frames of handles are at the bottom of the stack, so that their own borrows never
meet one of `try_write`.
-/
namespace TokioLoop.Tcp

open Runs

variable {σ : Type} {R : Rustls σ}

/-- The step does not borrow the state while a mutable borrow is outstanding: it is the
only way to panic there. -/
def BorrowSafe (R : Rustls σ) (c : Cfg σ) (a : Act × Env) : Prop :=
  ∀ d, step R c a = some d → c.borrowed = true → d.panicked = false

/-- The method borrows the state before it returns or calls into the protocol. -/
def Method.borrows (c : Cfg σ) : Method → Prop
  | .write data => c.tr.weof = false ∧ data ≠ []
  | .writelines data => c.tr.weof = false ∧ data.flatten ≠ []
  | .writeEof => c.tr.closing = false ∧ c.tr.weof = false
  | .close => c.tr.closing = false
  | .setWriteBufferLimits high low => (bufferLimits high low).2 ≤ (bufferLimits high low).1
  | .abort | .isTls | .getWriteBufferSize => True
  | .pauseReading | .resumeReading | .callConnectionLost => False

/-- While a mutable borrow is outstanding, no method is called that borrows, and no
`connection_lost` returns to a transport that is in `tcp_transports`. -/
def Disciplined (c : Cfg σ) (a : Act × Env) : Prop :=
  c.borrowed = true →
    match a.1 with
    | .call m => ¬ m.borrows c
    | .server aborts => ¬ Method.borrows c (if aborts then .abort else .close)
    | .ret _ => ∀ k, c.stack.head? = some (.lost k) → c.tables.bound = false
    | _ => True

theorem tryWrite_borrow {c : Cfg σ} (held : c.borrowed = true) (running : c.panicked = false)
    (data : Bytes) (env : Env) : (tryWrite c data env).panicked = false ↔
    ¬ (c.tr.weof = false ∧ data ≠ []) := by
  simp only [tryWrite, held, if_true]
  split_ifs with weof empty
  · exact iff_of_true running fun h => by rw [weof] at h; cases h.1
  · exact iff_of_true running fun h => h.2 empty
  · exact iff_of_false Bool.noConfusion fun h => h ⟨Bool.eq_false_iff.mpr weof, empty⟩

theorem method_borrow {c : Cfg σ} (held : c.borrowed = true) (running : c.panicked = false)
    (env : Env) (m : Method) : (m.run R c env).panicked = false ↔ ¬ m.borrows c := by
  cases m with
  | write data => exact tryWrite_borrow held running data env
  | writelines data => exact tryWrite_borrow held running data.flatten env
  | writeEof =>
      have held' : Cfg.borrowed { c with tr := { c.tr with weof := true } } = true := held
      simp only [Method.run, writeEof, Method.borrows, held', if_true]
      split_ifs with closing weof
      · exact iff_of_true running fun h => by rw [closing] at h; cases h.1
      · exact iff_of_true running fun h => by rw [weof] at h; cases h.2
      · exact iff_of_false Bool.noConfusion fun h =>
          h ⟨Bool.eq_false_iff.mpr closing, Bool.eq_false_iff.mpr weof⟩
  | close =>
      have held' : c.setClosing.borrowed = true := held
      simp only [Method.run, close, Method.borrows, held', if_true]
      split_ifs with closing
      · exact iff_of_true running fun h => by rw [closing] at h; cases h
      · exact iff_of_false Bool.noConfusion fun h => h (Bool.eq_false_iff.mpr closing)
  | abort =>
      simp only [Method.run, abort, Method.borrows, held, if_true]
      exact iff_of_false Bool.noConfusion fun h => h trivial
  | setWriteBufferLimits high low =>
      have held' : Cfg.borrowed { c with tr := { c.tr with
          waterHi := (bufferLimits high low).1
          waterLo := (bufferLimits high low).2 } } = true := held
      simp only [Method.run, setWriteBufferLimits, Method.borrows, held', if_true]
      split_ifs with invalid
      · exact iff_of_true running (Nat.not_le.mpr invalid)
      · exact iff_of_false Bool.noConfusion fun h => h (Nat.not_lt.mp invalid)
  | isTls | getWriteBufferSize =>
      simp only [Method.run, isTls, getWriteBufferSize, readState, Method.borrows, held, if_true]
      exact iff_of_false Bool.noConfusion fun h => h trivial
  | pauseReading =>
      refine iff_of_true ?_ id
      simp only [Method.run, pauseReading]
      split_ifs <;> exact running
  | resumeReading =>
      refine iff_of_true ?_ id
      simp only [Method.run, resumeReading]
      split_ifs <;> exact running
  | callConnectionLost => exact iff_of_true running id

theorem tcpStreamClose_borrow {c : Cfg σ} (running : c.panicked = false) (env : Env) :
    (tcpStreamClose R c true env).panicked = false ↔ c.tables.bound = false := by
  simp only [tcpStreamClose, if_true]
  split_ifs with bound
  · exact iff_of_false Bool.noConfusion fun h => by rw [bound] at h; cases h
  · exact iff_of_true running (Bool.eq_false_iff.mpr bound)

/-- A handle's frame holds no borrow, and below it there is none. -/
theorem not_borrowed_of_handle {c : Cfg σ} (last : HandlesLast c) {frame : Frame}
    {stack : List Frame} (h : c.stack = frame :: stack) (handle : frame.nested = false) :
    c.borrowed = false := by
  have bottom : stack = [] := (last.below h).resolve_left (by rw [handle]; exact Bool.false_ne_true)
  have free : frame.borrows = false := by
    cases frame with
    | lost k => cases k <;> first | rfl | cases handle
    | pause inWrite => cases handle
    | attach | connectionMade | getBuffer | data | eof | resume => rfl
  rw [Cfg.borrowed, h, bottom, List.any_cons, free]
  rfl

theorem ret_borrow {c : Cfg σ} (last : HandlesLast c) (held : c.borrowed = true)
    (running : c.panicked = false) {frame : Frame} {stack : List Frame}
    (h : c.stack = frame :: stack) (r : Ret)
    (env : Env) : (frame.after R { c with stack := stack } r env).panicked = false ↔
      ∀ k, c.stack.head? = some (.lost k) → c.tables.bound = false := by
  have nested : frame.nested = true := by
    by_contra handle
    rw [not_borrowed_of_handle last h (Bool.eq_false_iff.mpr handle)] at held
    cases held
  have lost : ∀ k, frame = .lost k →
    ((tcpStreamClose R { c with stack := stack } true env).panicked = false ↔
      ∀ k, c.stack.head? = some (.lost k) → c.tables.bound = false) := by
    rintro k rfl
    rw [tcpStreamClose_borrow (c := { c with stack := stack }) running]
    exact ⟨fun unbound _ _ => unbound, fun all => all k (by rw [h]; rfl)⟩
  cases frame with
  | pause inWrite =>
      refine iff_of_true running fun k top => ?_
      rw [h] at top
      cases top
  | lost k =>
      cases k with
      | tryWrite => exact lost _ rfl
      | callConnLost =>
          have below : Cfg.borrowed { c with stack := stack } = true := by
            rw [Cfg.borrowed, h, List.any_cons] at held
            exact held
          simp only [Frame.after, below]
          exact lost _ rfl
      | recvEof | readHandle | writeHandle => cases nested
  | attach | connectionMade | getBuffer | data | eof | resume => cases nested

/-- A step from a running configuration respects the outstanding borrow exactly when
it is disciplined. -/
theorem stepped_borrow {c d : Cfg σ} {act : Act} {env : Env} (last : HandlesLast c)
    (running : c.panicked = false) (stepped : Stepped R c env act d) :
    (c.borrowed = true → d.panicked = false) ↔ Disciplined c (act, env) := by
  have free : c.stack = [] → c.borrowed = false := fun empty => by rw [Cfg.borrowed, empty]; rfl
  refine forall_congr' fun held => ?_
  cases stepped with
  | call m exposed => exact method_borrow held running env m
  | server aborts bound listed => exact method_borrow held running env _
  | ret r frame stack hstack => exact ret_borrow last held running hstack r env
  | poll dir empty | fire dir empty | made empty =>
      rw [free empty] at held
      cases held

theorem borrowSafe_iff {c : Cfg σ} (last : HandlesLast c) (running : c.panicked = false)
    {a : Act × Env} {d : Cfg σ} (h : step R c a = some d) : BorrowSafe R c a ↔ Disciplined c a := by
  have stepped := (step_stepped h).2
  rw [← stepped_borrow last running stepped]
  constructor
  · intro safe
    exact safe d h
  · intro good e he
    rwa [← Option.some.inj (h.symm.trans he)]

theorem PlainStart.handlesLast {c : Cfg σ} (h : PlainStart R c) : HandlesLast c := by
  cases h with
  | accepted => exact List.forall_mem_nil _
  | connected => exact List.forall_mem_nil _

theorem TlsStart.handlesLast {c : Cfg σ} (h : TlsStart R c) : HandlesLast c := by
  cases h with
  | accepted => exact List.forall_mem_nil _
  | connected =>
      simp only [Tcp.connected]
      split_ifs <;> exact List.forall_mem_nil _

/-- A run borrows the state never while a mutable borrow is outstanding exactly when
each of its steps is disciplined. -/
theorem borrows_disciplined_iff (R : Rustls σ) (actions : List (Act × Env)) (start c : Cfg σ)
    (hstart : PlainStart R start ∨ TlsStart R start) (h : run (step R) start actions = some c) :
    Guarded (step R) (BorrowSafe R) start actions ↔ Guarded (step R) Disciplined start actions := by
  refine guarded_congr_run (I := HandlesLast) step_handlesLast ?_ h
    (hstart.elim PlainStart.handlesLast TlsStart.handlesLast)
  intro s a t last one
  exact borrowSafe_iff last (step_stepped one).1 one

/-- `pause_writing` that only pauses reading, on a write above the high-water mark. -/
def pausedWrite : List (Act × Env) :=
  [(.made, ⟨[], [], 0⟩), (.ret .falsy, ⟨[], [], 0⟩),
      (.call (.setWriteBufferLimits (some 1) (some 0)), ⟨[], [], 0⟩),
    (.call (.write [1, 2]), ⟨[], [.wouldBlock], 0⟩), (.call .pauseReading, ⟨[], [], 0⟩),
    (.ret .falsy, ⟨[], [], 0⟩)]

theorem borrows_disciplined_paused :
    Guarded (step noTls) (BorrowSafe noTls) (accepted 3 none false 1000) pausedWrite := by
  refine (borrows_disciplined_iff noTls pausedWrite _ _ (.inl (.accepted 3 false 1000)) rfl).mpr ?_
  refine guarded_cons rfl ?_ (guarded_cons rfl ?_
    (guarded_cons rfl ?_ (guarded_cons rfl ?_ (guarded_cons rfl ?_
    (guarded_cons rfl ?_ trivial)))))
  · exact Bool.noConfusion
  · exact Bool.noConfusion
  · exact Bool.noConfusion
  · exact Bool.noConfusion
  · exact fun _ => id
  · rintro - k top
    cases top

/-- A direct write that fails: `connection_lost` returns to `tcp_stream_close`, which
asks the transport for `is_tls`. -/
theorem failed_write_borrows_twice :
    ¬ ∀ (actions : List (Act × Env)) (start c : Cfg Empty), PlainStart noTls start ∨
    TlsStart noTls start →
      run (step noTls) start actions = some c →
      Guarded (step noTls) (BorrowSafe noTls) start actions := by
  intro claim
  have safe := claim [(.made, ⟨[], [], 0⟩), (.ret .falsy, ⟨[], [], 0⟩),
    (.call (.write [1]), ⟨[], [.fatal "Broken pipe"], 0⟩), (.ret .falsy, ⟨[], [], 0⟩)]
    (accepted 3 none false 1000) _ (.inl (.accepted 3 false 1000)) rfl
  have last := (((safe.2 _ rfl).2 _ rfl).2 _ rfl).1 _ rfl rfl
  cases last

end TokioLoop.Tcp
