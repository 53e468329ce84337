import TokioLoop.TcpOutbound
import TokioLoop.TcpFrames

/-!
Socket errors met by the handles of a plain transport. `read_into` stops at an error as
at `WouldBlock`, and `TCPWriteHandle::write` empties the buffer and leaves the rest to
`close_from_write_handle`, which ends the connection only if it is closing already.

A handle runs until no call into the protocol is outstanding. What a piece of code does
to the end of the connection is said once (`Outcome`): nothing, one call of
`connection_lost`, or a panic.
-/
namespace TokioLoop.Tcp

open Runs

variable {σ : Type} {R : Rustls σ}

def Obs.lostWith : Obs → Option (Option String)
  | .callback (.connectionLost err) _ => some err
  | _ => none

/-- The arguments of the calls of `connection_lost`. -/
def Cfg.lostCalls (c : Cfg σ) : List (Option String) := c.log.filterMap Obs.lostWith

def Frame.afterLost : Frame → Option AfterLost
  | .lost k => some k
  | _ => none

/-- The calls of `connection_lost` that have not returned. -/
def Cfg.lostFrames (c : Cfg σ) : List AfterLost := c.stack.filterMap Frame.afterLost

/-- A plain transport that is in the table and whose connection is not lost. -/
structure OpenPlain (c : Cfg σ) : Prop where
  plain : c.tr.state.tlsConn = none
  noPending : c.tr.state.tlsPendingClose = false
  bound : c.tables.bound = true
  alive : c.lostCalls = []

/-- A handle from its start in `c`, over the calls into the protocol, to its end in `d`. -/
structure HandleRun (R : Rustls σ) (c : Cfg σ) (env : Env) (b : Cfg σ) (more : List (Act × Env))
    (d : Cfg σ) : Prop where
  fired : step R c (.fire, env) = some b
  rest : run (step R) b more = some d
  busy : Guarded (step R) (fun s _ => s.stack ≠ []) b more
  ended : d.stack = []
  running : d.panicked = false

/-- The loop of `read_into` meets an error. -/
def readFails (cap : Nat) : List ReadResult → Bool
  | [] => false
  | .data bytes :: rest =>
      decide (cap ≠ 0) && decide (bytes.take cap ≠ []) && readFails
        (cap - (bytes.take cap).length) rest
  | .interrupted :: rest => decide (cap ≠ 0) && readFails cap rest
  | .eof :: _ | .wouldBlock :: _ => false
  | .error :: _ => true

/-- The step is a round of the read handle whose `read_into` meets an error. -/
def RoundFails (c : Cfg σ) : Act × Env → Prop
  | (.fire, env) => c.tr.protoBuffered = false ∧ readFails readBufSize env.reads = true
  | (.ret r, env) =>
      match c.stack with
      | .data false :: _ => c.tr.protoBuffered = false ∧ readFails readBufSize env.reads = true
      | .getBuffer :: _ => ∃ size, r = .buffer size ∧ readFails size env.reads = true
      | _ => False
  | _ => False

def Obs.fatalWrite : Obs → Bool
  | .write _ r => r.isFatal
  | _ => false

/-- The deferred write meets an error: one of its calls of `write(2)` fails for good. -/
def writeFails (results : List WriteResult) (buf : List Bytes) : Bool :=
  (writeLoop results buf).2.2.any Obs.fatalWrite

/-- The socket returns an error to the handle. -/
def HandleFails (R : Rustls σ) (c : Cfg σ) (env : Env) (b : Cfg σ) (more : List (Act × Env)) :
    Prop :=
  match c.tables.event with
  | some .writable => writeFails env.writes c.tr.state.writeBuf = true
  | some .readable => RoundFails c (.fire, env) ∨ ∃ before a later s, more = before ++ a :: later ∧
      run (step R) b before = some s ∧ RoundFails s a
  | none => False

/-- The error ended the connection, and no buffered byte was dropped of one that is
still open. -/
structure FailureEnds (c d : Cfg σ) : Prop where
  once : ∃ err, d.lostCalls = [some err]
  gone : d.tables.bound = false
  kept : d.tables.bound = true →
    c.tr.state.writeBuf.flatten <+: d.kernelBytes.drop c.kernelBytes.length ++
    d.tr.state.writeBuf.flatten

/-- A direct write that fails. -/
def WriteLoses (c : Cfg σ) (data : Bytes) (env : Env) : Prop :=
  c.tr.weof = false ∧ data ≠ [] ∧ c.borrowed = false ∧ c.tr.state.writeBufDsize = 0 ∧
    env.nextWrite.isFatal = true

/-- From within a callback the protocol makes a closing transport call `connection_lost`. -/
def LosesAgain (c : Cfg σ) : Act × Env → Prop
  | (.call .abort, _) | (.server true, _) => c.borrowed = false
  | (.call .callConnectionLost, _) => True
  | (.call (.write data), env) => WriteLoses c data env
  | (.call (.writelines data), env) => WriteLoses c data.flatten env
  | _ => False

/-- Nothing that concerns the end of the connection. -/
structure Same (c d : Cfg σ) : Prop where
  conn : d.tr.state.tlsConn = c.tr.state.tlsConn
  pending : d.tr.state.tlsPendingClose = c.tr.state.tlsPendingClose
  closing : c.tr.closing = true → d.tr.closing = true
  bound : d.tables.bound = c.tables.bound
  calls : d.lostCalls = c.lostCalls
  frames : d.lostFrames = c.lostFrames

inductive Outcome (c d : Cfg σ) : Prop where
  | panicked (h : d.panicked = true) (calls : d.lostCalls = c.lostCalls)
  | same (h : Same c d)
  | lost (e : Cfg σ) (err : Option String) (k : AfterLost) (h : Same c e)
      (failed : err.isSome = true ↔ k = .tryWrite) (call : d = callConnLost e err k)

theorem lostCalls_append {c d : Cfg σ} {obs : List Obs} (log : d.log = c.log ++ obs)
    (alive : ∀ o ∈ obs, o.lostWith = none) : d.lostCalls = c.lostCalls := by
  rw [Cfg.lostCalls, log, List.filterMap_append, List.filterMap_eq_nil_iff.mpr alive,
    List.append_nil]
  rfl

theorem Same.refl (c : Cfg σ) : Same c c := ⟨rfl, rfl, id, rfl, rfl, rfl⟩

theorem Same.trans {b c d : Cfg σ} (first : Same b c) (second : Same c d) : Same b d where
  conn := second.conn.trans first.conn
  pending := second.pending.trans first.pending
  closing h := second.closing (first.closing h)
  bound := second.bound.trans first.bound
  calls := second.calls.trans first.calls
  frames := second.frames.trans first.frames

theorem Same.emit (c : Cfg σ) {o : Obs} (alive : o.lostWith = none) : Same c (c.emit o) :=
  ⟨rfl, rfl, id, rfl, lostCalls_append rfl (List.forall_mem_singleton.mpr alive), rfl⟩

theorem Same.call (c : Cfg σ) {e : Callback} {frame : Frame}
    (alive : (Obs.callback e c.tr.state.writeBuf).lostWith = none)
    (other : frame.afterLost = none) : Same c (c.call e frame) :=
  ⟨rfl, rfl, id, rfl, lostCalls_append rfl (List.forall_mem_singleton.mpr alive),
    List.filterMap_cons_none other⟩

theorem Same.startClose (c : Cfg σ) : Same c (c.setClosing.streamRem .readable) :=
  ⟨rfl, rfl, fun _ => rfl, rfl, rfl, rfl⟩

theorem Same.popped {c : Cfg σ} {frame : Frame} {stack : List Frame} (h : c.stack = frame :: stack)
    (other : frame.afterLost = none) : Same c { c with stack := stack } :=
  ⟨rfl, rfl, id, rfl, rfl, by rw [Cfg.lostFrames, Cfg.lostFrames, h,
    List.filterMap_cons_none other]⟩

theorem Outcome.after {b c d : Cfg σ} (first : Same b c) (second : Outcome c d) : Outcome b d := by
  cases second with
  | panicked h calls => exact .panicked h (calls.trans first.calls)
  | same h => exact .same (first.trans h)
  | lost e err k h failed call => exact .lost e err k (first.trans h) failed call

/-- Without a failed write the argument is `None`. -/
theorem Outcome.ended {c : Cfg σ} {e : Cfg σ} {k : AfterLost} (h : Same c e)
    (other : k ≠ .tryWrite) : Outcome c (callConnLost e none k) :=
  .lost e none k h (iff_of_false Bool.noConfusion other) rfl

theorem pushBack_same (c : Cfg σ) (data : Bytes) : Same c (pushBack c data) := by
  apply pushBack_rule
  · intro paused
    simp only [grow]
    split_ifs <;> exact ⟨rfl, rfl, id, rfl, rfl, rfl⟩
  · intro d grown
    exact grown.trans (.call _ rfl rfl)

theorem tryWrite_outcome {c : Cfg σ} (plain : c.tr.state.tlsConn = none) (data : Bytes)
    (env : Env) : Outcome c (tryWrite c data env) := by
  have noTls : (c.emit (.accepted data)).tr.state.tlsConn.isSome = false := by
    rw [Cfg.emit, plain]
    rfl
  simp only [tryWrite, noTls, Bool.false_eq_true, if_false]
  split_ifs with weof empty held zero
  · exact .same (.emit c rfl)
  · exact .same (.refl c)
  · exact .panicked rfl rfl
  · have wrote : Same c ((c.emit (.accepted data)).emit (.write data env.nextWrite)) :=
      (Same.emit c rfl).trans (.emit _ rfl)
    simp only [directWrite]
    split
    · split_ifs
      · exact .same wrote
      · exact .same (wrote.trans (pushBack_same _ _))
    · exact .same (wrote.trans (pushBack_same _ _))
    · exact .same (wrote.trans (pushBack_same _ _))
    · split_ifs
      · exact .lost _ _ _ wrote (iff_of_true rfl rfl) rfl
      · exact .lost _ _ _ (wrote.trans (.startClose _)) (iff_of_true rfl rfl) rfl
  · exact .same ((Same.emit c rfl).trans (pushBack_same _ _))

theorem Tuned.outcome {c d : Cfg σ} (h : Tuned c d) : Outcome c d := by
  cases h with
  | unchanged => exact .same (.refl c)
  | set | pauseReading | resumeReading => exact .same ⟨rfl, rfl, id, rfl, rfl, rfl⟩
  | borrowed => exact .panicked rfl rfl
  | raised => exact .same (.emit c rfl)
  | shutdown =>
      exact .same (Same.trans (c := { c with tr := { c.tr with weof := true } })
        ⟨rfl, rfl, id, rfl, rfl, rfl⟩ (.emit _ rfl))
  | pauseWriting waterHi waterLo =>
      exact .same (Same.trans (c := { c with tr := { c.tr with
        waterHi := waterHi
        waterLo := waterLo
        protoPaused := true } }) ⟨rfl, rfl, id, rfl, rfl, rfl⟩ (.call _ rfl rfl))

theorem method_outcome {c : Cfg σ} (plain : c.tr.state.tlsConn = none) (env : Env) (m : Method) :
    Outcome c (m.run R c env) := by
  cases m with
  | write data => exact tryWrite_outcome plain data env
  | writelines data => exact tryWrite_outcome plain data.flatten env
  | close =>
      have noTls : c.setClosing.tr.state.tlsConn = none := plain
      simp only [Method.run, close, noTls, closePlain]
      split_ifs
      · exact .same (.refl c)
      · exact .panicked rfl rfl
      · exact .ended ⟨rfl, rfl, fun _ => rfl, rfl, rfl, rfl⟩ AfterLost.noConfusion
      · exact .same ⟨rfl, rfl, fun _ => rfl, rfl, rfl, rfl⟩
  | abort =>
      simp only [Method.run, abort]
      split_ifs
      · exact .panicked rfl rfl
      all_goals exact .ended ⟨rfl, rfl, (by first | exact id | exact fun _ => rfl), rfl,
        rfl, rfl⟩ AfterLost.noConfusion
  | callConnectionLost => exact .ended (.refl c) AfterLost.noConfusion
  | writeEof | pauseReading | resumeReading | setWriteBufferLimits | isTls | getWriteBufferSize =>
      exact (Method.tuned rfl c env).outcome

theorem received_same (c : Cfg σ) (data : Option Bytes)
    (eof : Bool) : Same c (received (c, data, eof)) := by
  cases data with
  | some data => exact .call c rfl rfl
  | none =>
      cases eof with
      | true =>
          exact Same.trans (c := c.streamRem .readable) ⟨rfl, rfl, id, rfl, rfl, rfl⟩
            (.call _ rfl rfl)
      | false => exact .refl c

theorem readRound_same {c : Cfg σ} (plain : c.tr.state.tlsConn = none)
    (env : Env) : Same c (readRound R c env) := by
  simp only [readRound]
  split_ifs
  · exact .call c rfl rfl
  · simp only [recvDirect, plain]
    exact (Same.emit c rfl).trans (received_same _ _ _)

theorem eofReceived_outcome {c : Cfg σ} (plain : c.tr.state.tlsConn = none) (truthy : Bool)
    (env : Env) : Outcome c (eofReceived R c truthy env) := by
  have noTls : c.setClosing.tr.state.tlsConn = none := plain
  simp only [eofReceived, closeFromReadHandle, plain, noTls, Option.isSome_none, Bool.false_eq_true,
    false_and, if_false]
  split_ifs
  · exact .same (.refl c)
  · exact .same (.refl c)
  · exact .same ⟨rfl, rfl, fun _ => rfl, rfl, rfl, rfl⟩
  · exact .ended (e := c.setClosing.streamRem .writable) ⟨rfl, rfl, fun _ => rfl, rfl, rfl,
      rfl⟩ AfterLost.noConfusion

/-- The end of the write handle's run on a connection that stays open. -/
theorem finishWrite_same (c : Cfg σ) {streamClose : Option Bool} (half : streamClose ≠ some true)
    (env : Env) : Same c (finishWrite R c streamClose env) := by
  have drained : Same c (if c.tr.state.writeBuf = [] then c.streamRem .writable else c) := by
    split_ifs <;> exact ⟨rfl, rfl, id, rfl, rfl, rfl⟩
  simp only [finishWrite]
  split
  · exact absurd rfl half
  · exact drained.trans (.emit _ rfl)
  · exact drained

theorem finishWrite_stack (c : Cfg σ) {streamClose : Option Bool} (half : streamClose ≠ some true)
    (env : Env) : (finishWrite R c streamClose env).stack = c.stack := by
  simp only [finishWrite]
  split
  · exact absurd rfl half
  · split_ifs <;> rfl
  · split_ifs <;> rfl

theorem afterWrite_outcome {c : Cfg σ} (noPending : c.tr.state.tlsPendingClose = false)
    (env : Env) : Outcome c (afterWrite R c env) := by
  simp only [afterWrite, noPending, Bool.false_eq_true, if_false, closeFromWriteHandle]
  split_ifs
  · exact .ended (.refl c) AfterLost.noConfusion
  · exact .same (finishWrite_same c (by simp) env)
  · exact .same (finishWrite_same c (by simp) env)
  · exact .same (finishWrite_same c (by simp) env)

/-- A call of `connection_lost` has returned. -/
structure Returned (c d : Cfg σ) (k : AfterLost) : Prop where
  conn : d.tr.state.tlsConn = c.tr.state.tlsConn
  pending : d.tr.state.tlsPendingClose = c.tr.state.tlsPendingClose
  closing : d.tr.closing = c.tr.closing
  calls : d.lostCalls = c.lostCalls
  frames : c.lostFrames = k :: d.lostFrames
  gone : d.tables.bound = false
  held : k = .tryWrite → c.tables.bound = false

theorem tcpStreamClose_returned {c d : Cfg σ} (plain : c.tr.state.tlsConn = none) {k : AfterLost}
    (state : d.tr = c.tr) (log : d.log = c.log) (frames : c.lostFrames = k :: d.lostFrames)
    (bound : d.tables.bound = c.tables.bound) {held : Bool} (holds : k = .tryWrite → held = true)
    (env : Env) : ((tcpStreamClose R d held env).panicked = true ∧
      (tcpStreamClose R d held env).lostCalls = c.lostCalls) ∨
      Returned c (tcpStreamClose R d held env) k := by
  have noTls : d.unbind.tr.state.tlsConn.isSome = false := by
    rw [Cfg.unbind, state, plain]
    rfl
  have calls : d.lostCalls = c.lostCalls := by rw [Cfg.lostCalls, log]; rfl
  simp only [tcpStreamClose, noTls, Bool.false_eq_true, if_false]
  split_ifs with there busy panicked
  · exact .inl ⟨rfl, calls⟩
  · exact .inl ⟨panicked, calls⟩
  · refine .inr ?_
    simp only [Cfg.unlist]
    split_ifs
    all_goals exact ⟨congrArg (·.state.tlsConn) state, congrArg (·.state.tlsPendingClose) state,
      congrArg (·.closing) state, calls, frames, rfl, fun failed => absurd (holds failed) busy⟩
  · exact .inr ⟨congrArg (·.state.tlsConn) state, congrArg (·.state.tlsPendingClose) state,
      congrArg (·.closing) state, calls, frames, Bool.eq_false_iff.mpr there,
      fun _ => Bool.eq_false_iff.mpr (bound ▸ there)⟩

theorem lost_returned {c : Cfg σ} (plain : c.tr.state.tlsConn = none) {k : AfterLost}
    {stack : List Frame} (h : c.stack = .lost k :: stack) (r : Ret) (env : Env) :
    (((Frame.lost k).after R { c with stack := stack } r env).panicked = true ∧
      ((Frame.lost k).after R { c with stack := stack } r env).lostCalls = c.lostCalls) ∨
      Returned c ((Frame.lost k).after R { c with stack := stack } r env) k := by
  have frames : c.lostFrames = k :: Cfg.lostFrames { c with stack := stack } := by
    rw [Cfg.lostFrames, h]
    rfl
  cases k with
  | tryWrite =>
      exact tcpStreamClose_returned (d := { c with stack := stack }) plain rfl rfl frames rfl
        (fun _ => rfl) env
  | callConnLost | recvEof | readHandle =>
      exact tcpStreamClose_returned (d := { c with stack := stack }) plain rfl rfl frames rfl
        (fun h => by cases h) env
  | writeHandle =>
      simp only [Frame.after, finishWrite]
      split_ifs
      · exact tcpStreamClose_returned (d := Cfg.streamRem { c with stack := stack } .writable) plain
          rfl rfl frames rfl (fun h => by cases h) env
      · exact tcpStreamClose_returned (d := { c with stack := stack }) plain rfl rfl frames rfl
          (fun h => by cases h) env

theorem after_outcome {c : Cfg σ} (plain : c.tr.state.tlsConn = none)
    (noPending : c.tr.state.tlsPendingClose = false) {frame : Frame} {stack : List Frame}
    (h : c.stack = frame :: stack) (noAttach : frame ≠ .attach)
    (other : frame.afterLost = none) (r : Ret) (env : Env) :
    Outcome c (frame.after R { c with stack := stack } r env) := by
  have popped : Same c { c with stack := stack } := .popped h other
  cases frame with
  | attach => exact absurd rfl noAttach
  | connectionMade | pause => exact .same popped
  | getBuffer =>
      cases r with
      | buffer size => exact .same (popped.trans ((Same.emit _ rfl).trans (received_same _ _ _)))
      | falsy | truthy | raised => exact .panicked rfl rfl
  | data ended =>
      cases ended with
      | true => exact .same (popped.trans (received_same _ none true))
      | false => exact .same (popped.trans (readRound_same (popped.conn.trans plain) env))
  | eof => exact .after popped (eofReceived_outcome (popped.conn.trans plain) _ env)
  | lost k => cases other
  | resume => exact .after popped (afterWrite_outcome (popped.pending.trans noPending) env)

/-- The actions a handle's run goes on with. -/
def Act.within : Act → Bool
  | .call _ | .server _ | .ret _ => true
  | .poll _ | .fire | .made => false

/-- What stays true of a plain transport while a handle runs. -/
structure Within (c : Cfg σ) : Prop where
  plain : c.tr.state.tlsConn = none
  noPending : c.tr.state.tlsPendingClose = false
  noAttach : Frame.attach ∉ c.stack

/-- A step within a handle's run: a piece of code, or a return of `connection_lost`. -/
theorem step_within {c d : Cfg σ} {a : Act × Env} (inv : Within c) (within : a.1.within = true)
    (h : step R c a = some d) : Outcome c d ∨ ∃ k, Returned c d k := by
  obtain ⟨act, env⟩ := a
  obtain ⟨-, stepped⟩ := step_stepped h
  cases stepped with
  | call m exposed => exact .inl (method_outcome inv.plain env m)
  | server aborts bound listed => exact .inl (method_outcome inv.plain env _)
  | ret r frame stack hstack =>
      by_cases lost : ∃ k, frame = .lost k
      · obtain ⟨k, rfl⟩ := lost
        exact (lost_returned inv.plain hstack r env).imp
          (fun h => .panicked h.1 h.2) fun returned => ⟨k, returned⟩
      · have other : frame.afterLost = none := by
          cases frame with
          | lost k => exact absurd ⟨k, rfl⟩ lost
          | _ => rfl
        refine .inl (after_outcome inv.plain inv.noPending hstack
          (fun attach => inv.noAttach ?_) other r env)
        rw [hstack, attach]
        exact List.mem_cons_self
  | poll dir | fire dir | made => cases within

theorem within_next {c d : Cfg σ} {a : Act × Env} (inv : Within c) (h : step R c a = some d)
    (running : d.panicked = false)
    (outcome : Outcome c d ∨ ∃ k, Returned c d k) : Within d := by
  have noAttach := step_noAttach c a d inv.noAttach h
  rcases outcome with outcome | ⟨k, returned⟩
  · cases outcome with
    | panicked panicked calls =>
        rw [panicked] at running
        cases running
    | same h => exact ⟨h.conn.trans inv.plain, h.pending.trans inv.noPending, noAttach⟩
    | lost e err k h failed call =>
        rw [call] at noAttach ⊢
        exact ⟨h.conn.trans inv.plain, h.pending.trans inv.noPending, noAttach⟩
  · exact ⟨returned.conn.trans inv.plain, returned.pending.trans inv.noPending, noAttach⟩

theorem lostCalls_call (c : Cfg σ) (err : Option String) (k : AfterLost) :
    (callConnLost c err k).lostCalls = c.lostCalls ++ [err] := by
  rw [Cfg.lostCalls, callConnLost, Cfg.call, Cfg.emit, List.filterMap_append]
  rfl

/-- As far as the end of the connection goes, how a read handle's run can stand. An
exception comes from a direct write only, and its return finds the transport in the
table and panics. -/
inductive Reading (c : Cfg σ) : Prop where
  | opened (calls : c.lostCalls = []) (bound : c.tables.bound = true) (frames : c.lostFrames = [])
  | clean (h : none ∈ c.lostCalls)
  | twice (h : 2 ≤ c.lostCalls.length)
  | failed (err : String) (calls : c.lostCalls = [some err]) (bound : c.tables.bound = true)
      (frames : c.lostFrames = [.tryWrite])

theorem Reading.same {c d : Cfg σ} (inv : Reading c) (h : Same c d) : Reading d := by
  cases inv with
  | opened calls bound frames =>
      exact .opened (h.calls.trans calls) (h.bound.trans bound) (h.frames.trans frames)
  | clean none => exact .clean (h.calls ▸ none)
  | twice two => exact .twice (h.calls ▸ two)
  | failed err calls bound frames =>
      exact .failed err (h.calls.trans calls) (h.bound.trans bound) (h.frames.trans frames)

theorem Reading.lost {c : Cfg σ} (inv : Reading c) {err : Option String} {k : AfterLost}
    (failed : err.isSome = true ↔ k = .tryWrite) : Reading (callConnLost c err k) := by
  have calls := lostCalls_call c err k
  cases inv with
  | opened before bound frames =>
      rw [before] at calls
      cases err with
      | none => exact .clean (calls ▸ List.mem_cons_self)
      | some text =>
          cases failed.mp rfl
          exact .failed text calls bound (congrArg (AfterLost.tryWrite :: ·) frames)
  | clean h => exact .clean (calls ▸ List.mem_append_left _ h)
  | twice h =>
      refine .twice (calls ▸ ?_)
      rw [List.length_append]
      exact Nat.le_add_right_of_le h
  | failed text before bound frames =>
      rw [before] at calls
      exact .twice (calls ▸ Nat.le_refl 2)

theorem Reading.returned {c d : Cfg σ} (inv : Reading c) {k : AfterLost} (h : Returned c d k) :
    Reading d := by
  have frames := h.frames
  cases inv with
  | opened calls bound before =>
      rw [before] at frames
      cases frames
  | clean none => exact .clean (h.calls ▸ none)
  | twice two => exact .twice (h.calls ▸ two)
  | failed err calls bound before =>
      rw [before] at frames
      have unbound := h.held (List.cons.inj frames).1.symm
      rw [bound] at unbound
      cases unbound

theorem step_reading (c : Cfg σ) (a : Act × Env) (d : Cfg σ)
    (inv : c.panicked = true ∨ Within c ∧ Reading c) (within : a.1.within = true)
    (h : step R c a = some d) : d.panicked = true ∨ Within d ∧ Reading d := by
  obtain ⟨inv, reading⟩ : Within c ∧ Reading c := inv.resolve_left fun panicked => by
    rw [(step_stepped h).1] at panicked
    cases panicked
  have outcome := step_within inv within h
  by_cases running : d.panicked = true
  · exact .inl running
  · refine .inr ⟨within_next inv h (Bool.eq_false_iff.mpr running) outcome, ?_⟩
    rcases outcome with outcome | ⟨k, returned⟩
    · cases outcome with
      | panicked panicked calls => exact absurd panicked running
      | same h => exact reading.same h
      | lost e err k h failed call => exact call ▸ (reading.same h).lost failed
    · exact reading.returned returned

/-- After a read handle's run `connection_lost` was not called just once with an exception. -/
theorem Reading.ended {c d : Cfg σ} (inv : Reading d) (ended : d.stack = []) :
    ¬ FailureEnds c d := by
  rintro ⟨⟨err, calls⟩, -, -⟩
  cases inv with
  | opened none => rw [calls] at none; cases none
  | clean h =>
      rw [calls] at h
      cases List.mem_singleton.mp h
  | twice h =>
      rw [calls] at h
      cases h with
      | step h => cases h
  | failed _ _ _ frames =>
      rw [Cfg.lostFrames, ended] at frames
      cases frames

theorem writeFails_iff (results : List WriteResult) (buf : List Bytes) :
    writeFails results buf = true ↔ (writeLoop results buf).2.1 = none := by
  rw [writeFails]
  fun_induction writeLoop results buf with
  | case1 | case2 | case3 | case6 =>
      exact iff_of_false (by simp [Obs.fatalWrite, WriteResult.isFatal]) (by simp)
  | case4 n results data buf whole left ret obs hloop ih =>
      rw [hloop] at ih
      simpa [Obs.fatalWrite, WriteResult.isFatal] using ih
  | case5 results data buf left ret obs hloop ih =>
      rw [hloop] at ih
      simpa [Obs.fatalWrite, WriteResult.isFatal] using ih
  | case7 => exact iff_of_true rfl rfl

theorem ne_append_singleton {α : Type} (l : List α) (x : α) : l ++ [x] ≠ l := by simp

theorem tryWrite_calls {c : Cfg σ} (plain : c.tr.state.tlsConn = none) (data : Bytes) (env : Env) :
    (tryWrite c data env).lostCalls = c.lostCalls ↔ ¬ WriteLoses c data env := by
  have noTls : (c.emit (.accepted data)).tr.state.tlsConn.isSome = false := by
    rw [Cfg.emit, plain]
    rfl
  have wrote : Same c ((c.emit (.accepted data)).emit (.write data env.nextWrite)) :=
    (Same.emit c rfl).trans (.emit _ rfl)
  simp only [tryWrite, noTls, Bool.false_eq_true, if_false]
  split_ifs with weof empty held zero
  · exact iff_of_true (Same.emit c rfl).calls fun loses =>
      absurd weof (Bool.eq_false_iff.mp loses.1)
  · exact iff_of_true rfl fun loses => loses.2.1 empty
  · exact iff_of_true rfl fun loses => absurd held (Bool.eq_false_iff.mp loses.2.2.1)
  · simp only [directWrite]
    have calm : env.nextWrite.isFatal = false → ¬ WriteLoses c data env := fun calm loses => by
      rw [loses.2.2.2.2] at calm
      cases calm
    split
    next n hr =>
      refine iff_of_true ?_ (calm (by rw [hr]; rfl))
      split_ifs
      · exact wrote.calls
      · exact (wrote.trans (pushBack_same _ _)).calls
    next hr => exact iff_of_true (wrote.trans (pushBack_same _ _)).calls (calm (by rw [hr]; rfl))
    next hr => exact iff_of_true (wrote.trans (pushBack_same _ _)).calls (calm (by rw [hr]; rfl))
    next text hr =>
      have loses : WriteLoses c data env :=
        ⟨Bool.eq_false_iff.mpr weof, empty, Bool.eq_false_iff.mpr held, zero, by rw [hr]; rfl⟩
      refine iff_of_false ?_ (not_not.mpr loses)
      rw [lostCalls_call]
      split_ifs
      · exact wrote.calls ▸ ne_append_singleton _ _
      · exact (wrote.trans (.startClose _)).calls ▸ ne_append_singleton _ _
  · exact iff_of_true ((Same.emit c rfl).trans (pushBack_same _ _)).calls fun loses =>
      zero loses.2.2.2.1

/-- On a closing transport the methods that call `connection_lost` are these. -/
theorem Tuned.calls {c d : Cfg σ} (h : Tuned c d) : d.lostCalls = c.lostCalls := by
  cases h with
  | unchanged | set | borrowed | pauseReading | resumeReading => rfl
  | raised => exact (Same.emit c rfl).calls
  | shutdown => exact (Same.emit { c with tr := { c.tr with weof := true } } rfl).calls
  | pauseWriting waterHi waterLo =>
      exact (Same.call { c with tr := { c.tr with
        waterHi := waterHi
        waterLo := waterLo
        protoPaused := true } } rfl rfl).calls

theorem method_calls {c : Cfg σ} (plain : c.tr.state.tlsConn = none) (closing : c.tr.closing = true)
    (env : Env) (m : Method) : (m.run R c env).lostCalls = c.lostCalls ↔ ¬ LosesAgain c
    (.call m, env) := by
  cases m with
  | write data => exact tryWrite_calls plain data env
  | writelines data => exact tryWrite_calls plain data.flatten env
  | abort =>
      simp only [Method.run, abort, LosesAgain]
      split_ifs with held
      all_goals first
        | exact iff_of_true rfl fun free => absurd held (Bool.eq_false_iff.mp free)
        | exact iff_of_false ((lostCalls_call _ none _) ▸ ne_append_singleton _ _)
            (not_not.mpr (Bool.eq_false_iff.mpr held))
  | callConnectionLost =>
      exact iff_of_false ((lostCalls_call c none .callConnLost) ▸ ne_append_singleton _ _)
        (not_not.mpr trivial)
  | close =>
      simp only [Method.run, close, closing, if_true]
      exact iff_of_true trivial id
  | writeEof | pauseReading | resumeReading | setWriteBufferLimits | isTls | getWriteBufferSize =>
      exact iff_of_true (Method.tuned rfl c env).calls id

/-- The run of a write handle after it called `connection_lost` for an error. -/
structure Errored (text : String) (c : Cfg σ) : Prop where
  within : Within c
  closing : c.tr.closing = true
  stack : ∀ frame ∈ c.stack, frame.nested = true ∨ frame = .lost .writeHandle
  first : ∃ later, c.lostCalls = some text :: later
  ends : c.lostFrames ≠ [] ∨ c.tables.bound = false

theorem Returned.of_stack {c : Cfg σ} {text : String} (inv : Errored text c) {r : Ret} {env : Env}
    {frame : Frame} {stack : List Frame} (h : c.stack = frame :: stack) :
    (frame.after R { c with stack := stack } r env).lostCalls = c.lostCalls := by
  have lost : ∀ k, ((Frame.lost k).after R { c with stack := stack } r env).lostCalls =
    c.lostCalls ∨
      frame ≠ .lost k := by
    intro k
    by_cases same : frame = .lost k
    · rw [same] at h
      exact .inl ((lost_returned inv.within.plain h r env).elim And.right Returned.calls)
    · exact .inr same
  rcases inv.stack frame (h ▸ List.mem_cons_self) with nested | rfl
  · cases frame with
    | pause => rfl
    | lost k => exact (lost k).resolve_right fun h => h rfl
    | attach | connectionMade | getBuffer | data | eof | resume => cases nested
  · exact (lost .writeHandle).resolve_right fun h => h rfl

theorem step_errored_calls {c d : Cfg σ} {a : Act × Env} {text : String} (inv : Errored text c)
    (within : a.1.within = true) (h : step R c a = some d) : d.lostCalls = c.lostCalls ↔
    ¬ LosesAgain c a := by
  obtain ⟨act, env⟩ := a
  obtain ⟨-, stepped⟩ := step_stepped h
  cases stepped with
  | call m exposed => exact method_calls inv.within.plain inv.closing env m
  | server aborts bound listed =>
      cases aborts with
      | true => exact method_calls inv.within.plain inv.closing env .abort
      | false => exact method_calls inv.within.plain inv.closing env .close
  | ret r frame stack hstack => exact iff_of_true (Returned.of_stack inv hstack) id
  | poll dir | fire dir | made => cases within

theorem Nests.frames {c d : Cfg σ} {P : Frame → Prop} (h : Nests c d)
    (before : ∀ frame ∈ c.stack, frame.nested = true ∨ P frame) :
    ∀ frame ∈ d.stack, frame.nested = true ∨ P frame := by
  rcases h with same | ⟨top, nested, one⟩
  · rw [same]
    exact before
  · rw [one]
    exact List.forall_mem_cons.mpr ⟨.inl nested, before⟩

theorem step_errored_stack {c d : Cfg σ} {a : Act × Env} {text : String} (inv : Errored text c)
    (within : a.1.within = true) (h : step R c a = some d) :
    ∀ frame ∈ d.stack, frame.nested = true ∨ frame = .lost .writeHandle := by
  obtain ⟨act, env⟩ := a
  obtain ⟨-, stepped⟩ := step_stepped h
  cases stepped with
  | call m exposed => exact (method_nests c env m).frames inv.stack
  | server aborts bound listed => exact (method_nests c env _).frames inv.stack
  | ret r frame stack hstack =>
      have before := inv.stack
      rw [hstack] at before
      obtain ⟨top, below⟩ := List.forall_mem_cons.mp before
      rcases top with nested | rfl
      · exact (after_nests _ nested r env).frames below
      · exact (finishWrite_nests { c with stack := stack } (some true) env).frames below
  | poll dir | fire dir | made => cases within

theorem step_errored {c d : Cfg σ} {a : Act × Env} {text : String} (inv : Errored text c)
    (within : a.1.within = true) (h : step R c a = some d) : d.panicked = true ∨
    Errored text d := by
  have outcome := step_within inv.within within h
  by_cases running : d.panicked = true
  · exact .inl running
  · have next := within_next inv.within h (Bool.eq_false_iff.mpr running) outcome
    obtain ⟨later, first⟩ := inv.first
    have stack := step_errored_stack inv within h
    rcases outcome with outcome | ⟨k, returned⟩
    · cases outcome with
      | panicked panicked calls => exact absurd panicked running
      | same h =>
          exact .inr ⟨next, h.closing inv.closing, stack, ⟨later, h.calls.trans first⟩, by
            rw [h.frames, h.bound]; exact inv.ends⟩
      | lost e err k h failed call =>
          refine .inr ⟨next, ?_, stack, ⟨later ++ [err], ?_⟩, .inl ?_⟩
          · rw [call]
            exact h.closing inv.closing
          · rw [call, lostCalls_call, h.calls, first]
            rfl
          · rw [call]
            exact List.cons_ne_nil _ _
    · exact .inr ⟨next, returned.closing.trans inv.closing, stack,
        ⟨later, returned.calls.trans first⟩, .inr returned.gone⟩

/-- The run after the error: the transport leaves the table, and the callback was the
only one exactly if nothing made the transport call it again. -/
theorem run_errored {b d : Cfg σ} {more : List (Act × Env)} {text : String} (start : Errored text b)
    (only : b.lostCalls = [some text]) (rest : run (step R) b more = some d)
    (within : ∀ a ∈ more, a.1.within = true) (running : d.panicked = false) :
    Errored text d ∧ (d.lostCalls = [some text] ↔
      Guarded (step R) (fun s a => ¬ LosesAgain s a) b more) := by
  have errored : ∀ (s : Cfg σ) (a : Act × Env) (t : Cfg σ), s.panicked = true ∨ Errored text s →
    step R s a = some t →
      Errored text s := by
    intro s a t inv h
    refine inv.resolve_left fun panicked => ?_
    rw [(step_stepped h).1] at panicked
    cases panicked
  have inv : ∀ (s : Cfg σ) (a : Act × Env) (t : Cfg σ), a.1.within = true → s.panicked = true ∨
    Errored text s →
      step R s a = some t → t.panicked = true ∨ Errored text t :=
    fun s a t within hs h => step_errored (errored s a t hs h) within h
  constructor
  · have last : d.panicked = true ∨ Errored text d :=
      run_preserves (G := fun _ a => a.1.within = true) (I := fun s => s.panicked = true ∨
          Errored text s)
        (fun s a t hs within => inv s a t within hs) rest (.inr start) (guarded_of_forall within)
    refine last.resolve_left fun panicked => ?_
    rw [running] at panicked
    cases panicked
  · refine run_exact (C := fun a => a.1.within = true) (P := fun s => s.lostCalls = [some text]) inv
      ?_ ?_ rest within (.inr start) only
    · intro s a t within hs one h
      rw [← step_errored_calls (errored s a t hs h) within h, one]
    · intro s a t within hs more h one
      have inv := errored s a t hs h
      obtain ⟨later, first⟩ := inv.first
      rcases step_within inv.within within h with outcome | ⟨k, returned⟩
      · cases outcome with
        | panicked panicked calls => exact more (calls ▸ one)
        | same h => exact more (h.calls ▸ one)
        | lost e err k h failed call =>
            rw [call, lostCalls_call, h.calls, first] at one
            simp at one
      · exact more (returned.calls ▸ one)

theorem within_of_busy {b d : Cfg σ} {more : List (Act × Env)} (rest : run (step R) b more = some d)
    (busy : Guarded (step R) (fun s _ => s.stack ≠ []) b more) : ∀ a ∈ more, a.1.within = true := by
  induction more generalizing b with
  | nil => exact List.forall_mem_nil _
  | cons a more ih =>
      obtain ⟨c, first, later⟩ := run_cons_iff.mp rest
      refine List.forall_mem_cons.mpr ⟨?_, ih later (busy.2 c first)⟩
      obtain ⟨act, env⟩ := a
      cases (step_stepped first).2 with
      | call m exposed | server aborts bound listed | ret r frame stack hstack => rfl
      | poll dir free | fire dir free | made free => exact absurd free busy.1

theorem OpenPlain.within {c : Cfg σ} (opened : OpenPlain c) (free : c.stack = []) : Within c :=
  ⟨opened.plain, opened.noPending, free ▸ List.not_mem_nil⟩

/-- No run of a read handle ends the connection with an exception. -/
theorem read_handle_never_ends {c b d : Cfg σ} {env : Env} {more : List (Act × Env)}
    (opened : OpenPlain c) (free : c.stack = [])
    (fired : b = readRound R { c with tables := { c.tables with event := none } } env)
    (rest : run (step R) b more = some d) (within : ∀ a ∈ more, a.1.within = true)
    (ended : d.stack = []) (running : d.panicked = false) : ¬ FailureEnds c d := by
  have taken : Same c { c with tables := { c.tables with event := none } } :=
    ⟨rfl, rfl, id, rfl, rfl, rfl⟩
  have same : Same c b := fired ▸ taken.trans (readRound_same (taken.conn.trans opened.plain) env)
  have noAttach : Frame.attach ∉ b.stack :=
    fired ▸ (readRound_calls _ env).noAttach (opened.within free).noAttach
  have frames : c.lostFrames = [] := by
    rw [Cfg.lostFrames, free]
    rfl
  have start : Within b ∧ Reading b :=
    ⟨⟨same.conn.trans opened.plain, same.pending.trans opened.noPending, noAttach⟩,
      Reading.same (.opened opened.alive opened.bound frames) same⟩
  have last : d.panicked = true ∨ Within d ∧ Reading d :=
    run_preserves (G := fun _ a => a.1.within = true) (I := fun s => s.panicked = true ∨ Within s ∧
      Reading s) step_reading rest (.inr start) (guarded_of_forall within)
  rcases last with panicked | ⟨-, reading⟩
  · rw [running] at panicked
    cases panicked
  · exact reading.ended ended

theorem Untouched.lostCalls {c d : Cfg σ} {obs : List Obs} (log : d.log = c.log ++ obs)
    (silent : ∀ o ∈ obs, o.asCallback = none) : d.lostCalls = c.lostCalls := by
  refine lostCalls_append log fun o ho => ?_
  have quiet := silent o ho
  cases o with
  | callback e buffered => cases quiet
  | _ => rfl

/-- A failed deferred write leaves an empty buffer to `close_from_write_handle`. -/
theorem writeHandleRun_fails {c : Cfg σ} (plain : c.tr.state.tlsConn = none) {env : Env}
    (error : writeFails env.writes c.tr.state.writeBuf = true) :
    Same c (writePlain c env).1 ∧
      writeHandleRun R c env = closeFromWriteHandle R (writePlain c env).1 true env := by
  have silent := writeLoop_silent env.writes c.tr.state.writeBuf
  have failed : (writePlain c env).2 = none := (writeFails_iff _ _).mp error
  have noTimeout : closeTimedOut c.tr.state env.now = false := by
    simp [closeTimedOut, plain]
  refine ⟨⟨rfl, rfl, id, rfl, Untouched.lostCalls rfl silent, rfl⟩, ?_⟩
  simp only [writeHandleRun, noTimeout, Bool.false_eq_true, if_false, plain]
  split
  next d n hwrite =>
    rw [hwrite] at failed
    cases failed
  next d hwrite => rw [hwrite]

/-- `close_from_write_handle` on a closing transport calls `connection_lost`. -/
theorem OpenPlain.errored {c e : Cfg σ} (opened : OpenPlain c) (wrote : Same c e)
    (closing : e.tr.closing = true) (free : e.stack = []) :
    Errored "socket transport failed"
    (callConnLost e (some "socket transport failed") .writeHandle) ∧
      (callConnLost e (some "socket transport failed") .writeHandle).lostCalls =
      [some "socket transport failed"] := by
  have only : (callConnLost e (some "socket transport failed") .writeHandle).lostCalls =
      [some "socket transport failed"] := by
    rw [lostCalls_call, wrote.calls, opened.alive]
    rfl
  have stack : (callConnLost e (some "socket transport failed") .writeHandle).stack =
      [.lost .writeHandle] :=
    congrArg (_ :: ·) free
  refine ⟨⟨⟨wrote.conn.trans opened.plain, wrote.pending.trans opened.noPending, ?_⟩, closing, ?_,
    ⟨[], only⟩, .inl (List.cons_ne_nil _ _)⟩, only⟩
  · rw [stack, List.mem_singleton]
    exact Frame.noConfusion
  · rw [stack]
    exact List.forall_mem_singleton.mpr (.inr rfl)

/-- After the first `connection_lost` the failure ends the transport unless it is called
again. -/
theorem errored_ends_iff {c b d : Cfg σ} {more : List (Act × Env)} {text : String}
    (start : Errored text b) (only : b.lostCalls = [some text])
    (rest : run (step R) b more = some d) (busy : Guarded (step R) (fun s _ => s.stack ≠ []) b more)
    (ended : d.stack = []) (running : d.panicked = false) : FailureEnds c d ↔ Guarded (step R)
    (fun s a => ¬ LosesAgain s a) b more := by
  obtain ⟨last, once⟩ := run_errored start only rest (within_of_busy rest busy) running
  obtain ⟨later, first⟩ := last.first
  have gone : d.tables.bound = false := last.ends.resolve_left fun frames => frames (by
    rw [Cfg.lostFrames, ended]
    rfl)
  rw [← once]
  constructor
  · rintro ⟨⟨err, calls⟩, -, -⟩
    rw [first] at calls ⊢
    rw [(List.cons.inj calls).2]
  · intro calls
    exact ⟨⟨_, calls⟩, gone, fun bound => absurd bound (Bool.eq_false_iff.mp gone)⟩

/-- An error met by the deferred write of an open connection. -/
theorem write_handle_ends_iff {c b d : Cfg σ} {env : Env} {more : List (Act × Env)}
    (opened : OpenPlain c) (free : c.stack = [])
    (fired : b = writeHandleRun R { c with tables := { c.tables with event := none } } env)
    (error : writeFails env.writes c.tr.state.writeBuf = true) (rest : run (step R) b more = some d)
    (busy : Guarded (step R) (fun s _ => s.stack ≠ []) b more) (ended : d.stack = [])
    (running : d.panicked = false) : FailureEnds c d ↔ c.tr.closing = true ∧ Guarded (step R)
    (fun s a => ¬ LosesAgain s a) b more := by
  have taken : Same c { c with tables := { c.tables with event := none } } :=
    ⟨rfl, rfl, id, rfl, rfl, rfl⟩
  obtain ⟨wrote, run⟩ := writeHandleRun_fails (R := R)
    (c := { c with tables := { c.tables with event := none } })
    opened.plain error
  have wrote := taken.trans wrote
  rw [run] at fired
  by_cases closing : c.tr.closing = true
  · have called : b = callConnLost (writePlain { c with tables := { c.tables with event := none } }
      env).1
        (some "socket transport failed") .writeHandle := fired.trans (if_pos closing)
    obtain ⟨start, only⟩ := opened.errored wrote closing free
    rw [← called] at start only
    rw [errored_ends_iff start only rest busy ended running, and_iff_right closing]
  · have half : (if c.tr.weof = true then some false else none : Option Bool) ≠ some true := by
      split_ifs <;> simp
    have stays : b = finishWrite R (writePlain { c with tables := { c.tables with event := none } }
      env).1
        (if c.tr.weof = true then some false else none) env := fired.trans (if_neg closing)
    have same : Same c b := stays ▸ wrote.trans (finishWrite_same _ half env)
    refine iff_of_false ?_ fun h => closing h.1
    rintro ⟨⟨err, calls⟩, -, -⟩
    -- the handle ends at once, so nothing calls `connection_lost` after it
    have stopped : b.stack = [] := by
      rw [stays, finishWrite_stack _ half]
      exact free
    have last : d = b := by
      cases more with
      | nil => exact (Option.some.inj rest).symm
      | cons a more => exact absurd stopped busy.1
    rw [last, same.calls, opened.alive] at calls
    cases calls

theorem fire_stepped {c b : Cfg σ} {env : Env} (h : step R c (.fire, env) = some b) :
    ∃ dir, c.stack = [] ∧ c.tables.event = some dir ∧
      b = fire R { c with tables := { c.tables with event := none } } dir env := by
  cases (step_stepped h).2 with
  | fire dir free event quiet => exact ⟨dir, free, event, rfl⟩

/-- An error ends the connection, with one call of `connection_lost`, exactly if it is
met by the deferred write of a transport that is closing already. -/
theorem fatal_error_ends_iff (R : Rustls σ) (c b d : Cfg σ) (env : Env) (more : List (Act × Env))
    (opened : OpenPlain c) (handle : HandleRun R c env b more d)
    (error : HandleFails R c env b more) : FailureEnds c d ↔ c.tables.event = some .writable ∧
    c.tr.closing = true ∧
      Guarded (step R) (fun s a => ¬ LosesAgain s a) b more := by
  have within := within_of_busy handle.rest handle.busy
  obtain ⟨dir, free, event, fired⟩ := fire_stepped handle.fired
  rw [fire.eq_def, if_pos opened.bound] at fired
  cases dir with
  | readable =>
      refine iff_of_false (read_handle_never_ends opened free fired handle.rest within handle.ended
        handle.running) ?_
      rintro ⟨writable, -⟩
      rw [event] at writable
      cases writable
  | writable =>
      rw [HandleFails, event] at error
      rw [write_handle_ends_iff opened free fired error handle.rest handle.busy handle.ended
        handle.running]
      exact (and_iff_right event).symm

/-- A write of two bytes of which the kernel takes one, perhaps a `close`, and the event
for the other byte. -/
def waitingByte (closes : Bool) : List (Act × Env) :=
  [(.made, ⟨[], [], 0⟩), (.ret .falsy, ⟨[], [], 0⟩), (.call (.write [1, 2]), ⟨[], [.ok 1], 0⟩),
    (.call (if closes then .close else .isTls), ⟨[], [], 0⟩), (.poll .writable, ⟨[], [], 0⟩)]

theorem fatal_error_ends_closing : ∃ c b d, run (step noTls) (accepted 3 none false 1000)
    (waitingByte true) = some c ∧ HandleRun noTls c ⟨[], [.fatal "Broken pipe"], 0⟩ b
    [(.ret .falsy, ⟨[], [], 0⟩)] d ∧ FailureEnds c d := by
  have handle : ∃ c b d, run (step noTls) (accepted 3 none false 1000) (waitingByte true) = some c ∧
      OpenPlain c ∧ c.tables.event = some .writable ∧ c.tr.closing = true ∧
      HandleRun noTls c ⟨[], [.fatal "Broken pipe"], 0⟩ b [(.ret .falsy, ⟨[], [], 0⟩)] d ∧
      HandleFails noTls c ⟨[], [.fatal "Broken pipe"], 0⟩ b [(.ret .falsy, ⟨[], [], 0⟩)] :=
    ⟨_, _, _, rfl, ⟨rfl, rfl, rfl, rfl⟩, rfl, rfl,
      ⟨rfl, rfl, guarded_cons rfl (List.cons_ne_nil _ _) trivial, rfl, rfl⟩, rfl⟩
  obtain ⟨c, b, d, reached, opened, event, closing, handle, error⟩ := handle
  refine ⟨c, b, d, reached, handle, ?_⟩
  refine (fatal_error_ends_iff noTls c b d _ _ opened handle error).mpr ⟨event, closing, ?_⟩
  exact ⟨id, fun _ _ => trivial⟩

/-- The error reaches the deferred write of a connection that is not closing: the byte
is dropped and the connection stays open. -/
theorem broken_pipe_unnoticed :
    ¬ ∀ (before : List (Act × Env)) (start c b d : Cfg Empty) (env : Env) (more : List (Act × Env)),
      PlainStart noTls start → run (step noTls) start before = some c → OpenPlain c →
      HandleRun noTls c env b more d → HandleFails noTls c env b more → FailureEnds c d := by
  intro claim
  obtain ⟨once, gone, -⟩ := claim (waitingByte false) _ _ _ _ ⟨[], [.fatal "Broken pipe"], 0⟩ []
    (.accepted 3 false 1000) rfl ⟨rfl, rfl, rfl, rfl⟩ ⟨rfl, rfl, trivial, rfl, rfl⟩ rfl
  cases gone

end TokioLoop.Tcp
