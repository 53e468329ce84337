import TokioLoop.Lib.ByteLedger
import TokioLoop.TcpHandles

/-!
What a piece of the transport's code can do to the stack, what the two writers of the
write handle leave alone, and how calls and registrations are counted. A method ends in
at most one call, with a frame that may stand on others; a handle starts on an empty
stack, so its frames are at the bottom.
-/
namespace TokioLoop.Tcp

open ByteLedger

variable {σ : Type} {R : Rustls σ}

/-- The code returns, or ends in a call into the protocol with a frame that meets `P`. -/
def Pushes (P : Frame → Prop) (c d : Cfg σ) : Prop :=
  d.stack = c.stack ∨ ∃ frame, P frame ∧ d.stack = frame :: c.stack

abbrev Nests : Cfg σ → Cfg σ → Prop := Pushes fun frame => frame.nested = true

abbrev Calls : Cfg σ → Cfg σ → Prop := Pushes fun frame => frame ≠ .attach

theorem Pushes.same {P : Frame → Prop} {c d : Cfg σ} (h : d.stack = c.stack) : Pushes P c d :=
  .inl h

theorem Pushes.one {P : Frame → Prop} {c d : Cfg σ} {f : Frame} (hp : P f)
    (h : d.stack = f :: c.stack) : Pushes P c d := .inr ⟨f, hp, h⟩

theorem Pushes.from_eq {P : Frame → Prop} {b c d : Cfg σ} (same : c.stack = b.stack)
    (h : Pushes P c d) :
    Pushes P b d := by
  simpa only [Pushes, same] using h

theorem Nests.calls {c d : Cfg σ} (h : Nests c d) : Calls c d :=
  h.imp_right fun ⟨frame, nested, hd⟩ =>
    ⟨frame, fun attach => (by rw [attach] at nested; cases nested), hd⟩

theorem unlist_stack (c : Cfg σ) : c.unlist.stack = c.stack := by
  unfold Cfg.unlist
  split_ifs <;> rfl

theorem closeTls_stack (c : Cfg σ) (conn : σ)
    (env : Env) : (closeTls R c conn env).stack = c.stack := by
  simp only [closeTls]
  split_ifs <;> rfl

theorem close_nests (c : Cfg σ) (env : Env) : Nests c (close R c env) := by
  simp only [close]
  split_ifs
  · exact .same rfl
  · exact .same rfl
  · split
    · exact .same (closeTls_stack _ _ env)
    · simp only [closePlain]
      split_ifs
      · exact .one (f := .lost .callConnLost) rfl rfl
      · exact .same rfl

theorem tcpStreamClose_nests (c : Cfg σ) (held : Bool)
    (env : Env) : Nests c (tcpStreamClose R c held env) := by
  simp only [tcpStreamClose]
  split_ifs
  · exact .same rfl
  · exact close_nests c.unbind env
  · exact (close_nests c.unbind env).imp (unlist_stack _).trans fun ⟨frame, hp, h⟩ =>
      ⟨frame, hp, (unlist_stack _).trans h⟩
  · exact .same rfl
  · exact .same (unlist_stack _)
  · exact .same rfl

theorem bufAdded_nests (c : Cfg σ) (n : Nat) : Nests c (bufAdded c n) := by
  have grown : (grow c n).stack = c.stack := by
    simp only [grow]
    split_ifs <;> rfl
  simp only [bufAdded]
  split_ifs
  · exact .one (f := .pause true) rfl (congrArg (_ :: ·) grown)
  · exact .same grown

theorem tryWrite_nests (c : Cfg σ) (data : Bytes) (env : Env) : Nests c (tryWrite c data env) := by
  have buffered : ∀ (d : Cfg σ) (rest : Bytes), d.stack = c.stack → Nests c (pushBack d rest) := by
    intro d rest same
    exact Pushes.from_eq (c := d.setState
      { d.tr.state with writeBuf := d.tr.state.writeBuf ++ [rest] }) same
      (bufAdded_nests _ _)
  simp only [tryWrite]
  split_ifs
  · exact .same rfl
  · exact .same rfl
  · exact .same rfl
  · exact buffered _ _ rfl
  · simp only [directWrite]
    split
    · split_ifs
      · exact .same rfl
      · exact buffered _ _ rfl
    · exact buffered _ _ rfl
    · exact buffered _ _ rfl
    · refine .one (f := .lost .tryWrite) rfl ?_
      split_ifs <;> rfl
  · exact buffered _ _ rfl

theorem Tuned.nests {c d : Cfg σ} (h : Tuned c d) : Nests c d := by
  cases h with
  | unchanged | set | borrowed | raised | shutdown | pauseReading | resumeReading => exact .same rfl
  | pauseWriting => exact .one (f := .pause false) rfl rfl

theorem method_nests (c : Cfg σ) (env : Env) (m : Method) : Nests c (m.run R c env) := by
  cases m with
  | write data => exact tryWrite_nests c data env
  | writelines data => exact tryWrite_nests c data.flatten env
  | close => exact close_nests c env
  | abort =>
      simp only [Method.run, abort]
      split_ifs
      · exact .same rfl
      all_goals exact .one (f := .lost .callConnLost) rfl rfl
  | callConnectionLost => exact .one (f := .lost .callConnLost) rfl rfl
  | writeEof | pauseReading | resumeReading | setWriteBufferLimits | isTls | getWriteBufferSize =>
      exact (Method.tuned rfl c env).nests

theorem received_calls {c : Cfg σ} (r : Cfg σ × Option Bytes × Bool) (h : r.1.stack = c.stack) :
    Calls c (received r) := by
  obtain ⟨d, data, eof⟩ := r
  cases data with
  | some data => exact .one Frame.noConfusion (congrArg (_ :: ·) h)
  | none =>
      cases eof with
      | true => exact .one Frame.noConfusion (congrArg (_ :: ·) h)
      | false => exact .same h

theorem recvPlaintext_stack (c : Cfg σ)
    (conn : σ) : (recvPlaintext R c conn).1.stack = c.stack := by
  have shaken : (checkHandshake R (c.setConn conn) conn).stack = c.stack := by
    simp only [checkHandshake]
    split_ifs <;> rfl
  simp only [recvPlaintext]
  split_ifs <;> exact shaken

theorem recvDirect_stack (c : Cfg σ) (env : Env) : (recvDirect R c env).1.stack = c.stack := by
  simp only [recvDirect]
  split
  · split_ifs
    · rfl
    · simp only [feedTls]
      split
      · rfl
      · split
        · rfl
        · rfl
        · exact recvPlaintext_stack _ _
  · rfl

theorem readRound_calls (c : Cfg σ) (env : Env) : Calls c (readRound R c env) := by
  simp only [readRound]
  split_ifs
  · exact .one Frame.noConfusion rfl
  · exact received_calls _ (recvDirect_stack c env)

theorem finishWrite_nests (c : Cfg σ) (streamClose : Option Bool) (env : Env) :
    Nests c (finishWrite R c streamClose env) := by
  have drained : (if c.tr.state.writeBuf = [] then c.streamRem .writable
      else c).stack = c.stack := by
    split_ifs <;> rfl
  simp only [finishWrite]
  split
  · exact Pushes.from_eq drained (tcpStreamClose_nests _ _ env)
  · exact .same drained
  · exact .same drained

theorem closeFromWriteHandle_calls (c : Cfg σ) (errored : Bool) (env : Env) :
    Calls c (closeFromWriteHandle R c errored env) := by
  simp only [closeFromWriteHandle]
  split
  · exact .one Frame.noConfusion rfl
  · exact (finishWrite_nests c _ env).calls

theorem afterWrite_calls (c : Cfg σ) (env : Env) : Calls c (afterWrite R c env) := by
  simp only [afterWrite]
  split_ifs
  · split
    · exact Pushes.from_eq (b := c) rfl (finishWrite_nests _ _ _).calls
    · exact (finishWrite_nests _ _ _).calls
  · exact closeFromWriteHandle_calls c false env
  · exact (finishWrite_nests c _ env).calls

theorem written_calls (c : Cfg σ) (n : Nat) (env : Env) : Calls c (written R c n env) := by
  simp only [written]
  split_ifs
  · exact .one Frame.noConfusion rfl
  · exact afterWrite_calls c env

/-- What `TCPWriteHandle::write` does not touch. -/
structure Untouched (c d : Cfg σ) : Prop where
  stack : d.stack = c.stack
  tables : d.tables = c.tables
  panicked : d.panicked = c.panicked
  closing : d.tr.closing = c.tr.closing
  lfd : d.tr.lfd = c.tr.lfd
  callbacks : d.callbacks = c.callbacks
  pending : d.tr.state.tlsPendingClose = c.tr.state.tlsPendingClose
  sent : d.tr.state.tlsCloseSent = c.tr.state.tlsCloseSent
  tls : d.tr.state.tlsConn.isSome = c.tr.state.tlsConn.isSome
  empty : c.tr.state.writeBuf = [] → d.tr.state.writeBuf = []

theorem Untouched.trans {b c d : Cfg σ} (first : Untouched b c) (second : Untouched c d) :
    Untouched b d where
  stack := second.stack.trans first.stack
  tables := second.tables.trans first.tables
  panicked := second.panicked.trans first.panicked
  closing := second.closing.trans first.closing
  lfd := second.lfd.trans first.lfd
  callbacks := second.callbacks.trans first.callbacks
  pending := second.pending.trans first.pending
  sent := second.sent.trans first.sent
  tls := second.tls.trans first.tls
  empty h := second.empty (first.empty h)

theorem callbacks_append {c d : Cfg σ} {obs : List Obs} (log : d.log = c.log ++ obs)
    (silent : ∀ o ∈ obs, o.asCallback = none) : d.callbacks = c.callbacks := by
  rw [Cfg.callbacks, log, List.filterMap_append, List.filterMap_eq_nil_iff.mpr silent,
    List.append_nil]
  rfl

/-- The encryption loop takes whole chunks off the front of the queue. -/
theorem encryptLoop_spec (conn : σ) (buf : List Bytes) :
    (encryptLoop R conn buf).2.1 <:+ buf ∧
      (encryptLoop R conn buf).2.2.1 + held (encryptLoop R conn buf).2.1 = held buf ∧
      ((encryptLoop R conn buf).2.2.2.1 = true ↔ (encryptLoop R conn buf).2.1 = []) ∧
      ∀ o ∈ (encryptLoop R conn buf).2.2.2.2, ∃ data taken ok, o = .encrypted data taken ok := by
  induction buf generalizing conn with
  | nil => exact ⟨List.suffix_refl _, rfl, iff_of_true rfl rfl, List.forall_mem_nil _⟩
  | cons data buf ih =>
      simp only [encryptLoop]
      split
      next conn' taken hall =>
        exact ⟨List.suffix_refl _, Nat.zero_add _,
          by simp, List.forall_mem_singleton.mpr ⟨data, taken, false, rfl⟩⟩
      next conn' taken hall =>
        obtain ⟨suffix, size, ended, logged⟩ := ih conn'
        refine ⟨suffix.trans (List.suffix_cons data buf), ?_, ended, ?_⟩
        · rw [held_cons, ← size, Nat.add_assoc]
        · exact List.forall_mem_cons.mpr ⟨⟨data, taken, true, rfl⟩, logged⟩

theorem encryptLoop_silent (conn : σ) (buf : List Bytes) :
    ∀ o ∈ (encryptLoop R conn buf).2.2.2.2, o.asCallback = none := by
  intro o ho
  obtain ⟨data, taken, ok, rfl⟩ := (encryptLoop_spec conn buf).2.2.2 o ho
  rfl

theorem writeTls_untouched {c : Cfg σ} {conn : σ} (h : c.tr.state.tlsConn = some conn) (env : Env) :
    Untouched c (writeTls R c conn env).1 := by
  have some_of : ∀ {c : Cfg σ} {conn : σ}, c.tr.state.tlsConn = some conn →
      true = c.tr.state.tlsConn.isSome :=
    fun h => (Option.isSome_of_eq_some h).symm
  refine writeTls_rel .trans (fun c conn env h => ?_) (fun c conn _ _ _ _ _ h hloop => ?_) h env
  · exact ⟨rfl, rfl, rfl, rfl, rfl, callbacks_append rfl (List.forall_mem_singleton.mpr rfl), rfl,
      rfl, some_of h, id⟩
  · have silent := encryptLoop_silent (R := R) conn c.tr.state.writeBuf
    obtain ⟨suffix, -⟩ := encryptLoop_spec (R := R) conn c.tr.state.writeBuf
    rw [hloop] at silent suffix
    exact ⟨rfl, rfl, rfl, rfl, rfl, callbacks_append rfl silent, rfl, rfl, some_of h, fun empty =>
      List.suffix_nil.mp (empty ▸ suffix)⟩

theorem writeLoop_silent (results : List WriteResult) (buf : List Bytes) :
    ∀ o ∈ (writeLoop results buf).2.2, o.asCallback = none := by
  fun_induction writeLoop results buf with
  | case1 => exact List.forall_mem_nil _
  | case2 | case3 | case6 | case7 => exact List.forall_mem_singleton.mpr rfl
  | case4 n results data buf short left ret obs hloop ih =>
      rw [hloop] at ih
      exact List.forall_mem_cons.mpr ⟨rfl, ih⟩
  | case5 results data buf left ret obs hloop ih =>
      rw [hloop] at ih
      exact List.forall_mem_cons.mpr ⟨rfl, ih⟩

/-- The loop counts the bytes it took off the buffer; an error empties it. -/
theorem writeLoop_held (results : List WriteResult) (buf : List Bytes) :
    ((writeLoop results buf).2.1 = none → (writeLoop results buf).1 = []) ∧
      ∀ n, (writeLoop results buf).2.1 = some n → held (writeLoop results buf).1 + n = held
      buf := by
  fun_induction writeLoop results buf with
  | case1 | case2 | case6 => exact ⟨fun h => (by cases h), fun n h => by cases h; rfl⟩
  | case3 n results data buf part =>
      refine ⟨fun h => (by cases h), fun m h => ?_⟩
      cases h
      simp only [held_cons, List.length_drop]
      omega
  | case4 n results data buf whole left ret obs hloop ih =>
      rw [hloop] at ih
      refine ⟨fun h => ih.1 (Option.map_eq_none_iff.mp h), fun m h => ?_⟩
      obtain ⟨k, hk, rfl⟩ := Option.map_eq_some_iff.mp h
      have rest : held left + k = held buf := ih.2 k hk
      simp only [held_cons]
      omega
  | case5 results data buf left ret obs hloop ih =>
      rw [hloop] at ih
      exact ih
  | case7 => exact ⟨fun _ => rfl, fun n h => by cases h⟩

theorem writeLoop_chunks (results : List WriteResult) {buf : List Bytes}
    (chunks : ∀ chunk ∈ buf, chunk ≠ []) : ∀ chunk ∈ (writeLoop results buf).1, chunk ≠ [] := by
  fun_induction writeLoop results buf with
  | case1 | case7 => exact List.forall_mem_nil _
  | case2 | case6 => exact chunks
  | case3 n results data buf part =>
      refine List.forall_mem_cons.mpr ⟨fun gone => ?_, (List.forall_mem_cons.mp chunks).2⟩
      exact absurd (List.drop_eq_nil_iff.mp gone) (Nat.not_le.mpr part)
  | case4 n results data buf whole left ret obs hloop ih =>
      rw [hloop] at ih
      exact ih (List.forall_mem_cons.mp chunks).2
  | case5 results data buf left ret obs hloop ih =>
      rw [hloop] at ih
      exact ih chunks

theorem writePlain_untouched (c : Cfg σ) (env : Env) : Untouched c (writePlain c env).1 := by
  refine ⟨rfl, rfl, rfl, rfl, rfl, callbacks_append rfl (writeLoop_silent env.writes _), rfl, rfl,
    rfl, fun empty => ?_⟩
  simp [writePlain, empty, writeLoop, Cfg.setState]

theorem writeHandleRun_calls (c : Cfg σ) (env : Env) : Calls c (writeHandleRun R c env) := by
  simp only [writeHandleRun]
  split_ifs
  · exact .one Frame.noConfusion rfl
  · split
    next conn hconn =>
      have wrote := (writeTls_untouched (R := R) hconn env).stack
      split
      next hwrite =>
        rw [hwrite] at wrote
        exact Pushes.from_eq wrote (written_calls _ _ _)
      next hwrite =>
        rw [hwrite] at wrote
        exact Pushes.from_eq wrote (closeFromWriteHandle_calls _ _ _)
    · have wrote := (writePlain_untouched c env).stack
      split
      next hwrite =>
        rw [hwrite] at wrote
        exact Pushes.from_eq wrote (written_calls _ _ _)
      next hwrite =>
        rw [hwrite] at wrote
        exact Pushes.from_eq wrote (closeFromWriteHandle_calls _ _ _)

theorem closeFromReadHandle_calls (c : Cfg σ)
    (env : Env) : Calls c (closeFromReadHandle R c env) := by
  simp only [closeFromReadHandle]
  split_ifs
  · exact .same rfl
  · have closed : (close R c.setClosing env).stack = c.stack := by simp [close, Cfg.setClosing]
    exact Pushes.from_eq closed (tcpStreamClose_nests _ _ env).calls
  · exact .same rfl
  · exact .one Frame.noConfusion rfl

theorem after_calls (c : Cfg σ) (frame : Frame) (r : Ret)
    (env : Env) : Calls c (frame.after R c r env) := by
  cases frame with
  | attach =>
      simp only [Frame.after, register]
      split_ifs <;> exact .same rfl
  | connectionMade | pause => exact .same rfl
  | getBuffer =>
      cases r with
      | buffer size => exact received_calls _ rfl
      | falsy | truthy | raised => exact .same rfl
  | data ended =>
      cases ended with
      | true => exact .one Frame.noConfusion rfl
      | false => exact readRound_calls c env
  | eof =>
      simp only [Frame.after, eofReceived]
      split_ifs
      · exact .same rfl
      · exact .one Frame.noConfusion rfl
      · exact closeFromReadHandle_calls c env
  | lost k =>
      cases k with
      | writeHandle => exact (finishWrite_nests c _ env).calls
      | callConnLost | tryWrite | recvEof | readHandle => exact (tcpStreamClose_nests c _ env).calls
  | resume => exact afterWrite_calls c env

/-- What follows a nested frame pushes none of a handle. -/
theorem after_nests (c : Cfg σ) {frame : Frame} (nested : frame.nested = true) (r : Ret)
    (env : Env) : Nests c (frame.after R c r env) := by
  cases frame with
  | pause => exact .same rfl
  | lost k =>
      cases k with
      | callConnLost | tryWrite => exact tcpStreamClose_nests c _ env
      | recvEof | readHandle | writeHandle => cases nested
  | attach | connectionMade | getBuffer | data | eof | resume => cases nested

theorem Calls.noAttach {c d : Cfg σ} (h : Calls c d) (free : Frame.attach ∉ c.stack) :
    Frame.attach ∉ d.stack := by
  rcases h with same | ⟨frame, apart, one⟩
  · rw [same]
    exact free
  · rw [one, List.mem_cons, not_or]
    exact ⟨apart.symm, free⟩

/-- The frames of handles are at the bottom. -/
def HandlesLast (c : Cfg σ) : Prop := ∀ frame ∈ c.stack.dropLast, frame.nested = true

theorem Nests.handlesLast {c d : Cfg σ} (h : Nests c d) (last : HandlesLast c) : HandlesLast d := by
  rcases h with same | ⟨frame, nested, one⟩
  · rw [HandlesLast, same]
    exact last
  · intro other hother
    rw [one] at hother
    cases hc : c.stack with
    | nil =>
        rw [hc] at hother
        cases hother
    | cons top rest =>
        rw [hc, List.dropLast_cons_cons] at hother
        rcases List.mem_cons.mp hother with rfl | old
        · exact nested
        · exact last other (by rw [hc]; exact old)

theorem Calls.handlesLast {c d : Cfg σ} (h : Calls c d) (free : c.stack = []) : HandlesLast d := by
  intro frame hframe
  rcases h with same | ⟨other, -, one⟩
  · rw [same, free] at hframe
    cases hframe
  · rw [one, free] at hframe
    cases hframe

/-- Below a frame of a handle there is nothing. -/
theorem HandlesLast.below {c : Cfg σ} (last : HandlesLast c) {frame : Frame} {stack : List Frame}
    (h : c.stack = frame :: stack) : frame.nested = true ∨ stack = [] := by
  cases stack with
  | nil => exact .inr rfl
  | cons top rest =>
      exact .inl (last frame (by rw [h, List.dropLast_cons_cons]; exact List.mem_cons_self))

theorem HandlesLast.popped {c : Cfg σ} (last : HandlesLast c) {frame : Frame} {stack : List Frame}
    (h : c.stack = frame :: stack) : HandlesLast { c with stack := stack } := by
  intro other hother
  cases stack with
  | nil => cases hother
  | cons top rest =>
      refine last other ?_
      rw [h, List.dropLast_cons_cons]
      exact List.mem_cons_of_mem frame hother

theorem step_handlesLast (c : Cfg σ) (a : Act × Env) (d : Cfg σ) (last : HandlesLast c)
    (h : step R c a = some d) :
    HandlesLast d := by
  obtain ⟨act, env⟩ := a
  obtain ⟨-, stepped⟩ := step_stepped h
  cases stepped with
  | call m exposed => exact (method_nests c env m).handlesLast last
  | server aborts bound listed => exact (method_nests c env _).handlesLast last
  | ret r frame stack hstack =>
      rcases last.below hstack with nested | bottom
      · exact (after_nests _ nested r env).handlesLast (last.popped hstack)
      · exact (after_calls (R := R) { c with stack := stack } frame r env).handlesLast bottom
  | poll dir free event interest => exact last
  | fire dir free event quiet =>
      simp only [fire]
      split_ifs
      · cases dir with
        | readable => exact (readRound_calls _ env).handlesLast free
        | writable => exact (writeHandleRun_calls _ env).handlesLast free
      · exact last
  | made free pending =>
      refine Calls.handlesLast (c := c) ?_ free
      exact .one Frame.noConfusion rfl

theorem step_noAttach (c : Cfg σ) (a : Act × Env) (d : Cfg σ) (free : Frame.attach ∉ c.stack)
    (h : step R c a = some d) : Frame.attach ∉ d.stack := by
  obtain ⟨act, env⟩ := a
  obtain ⟨-, stepped⟩ := step_stepped h
  cases stepped with
  | call m exposed => exact (method_nests c env m).calls.noAttach free
  | server aborts bound listed => exact (method_nests c env _).calls.noAttach free
  | ret r frame stack hstack =>
      refine (after_calls (R := R) { c with stack := stack } frame r env).noAttach fun attach =>
        free ?_
      rw [hstack]
      exact List.mem_cons_of_mem frame attach
  | poll dir empty event interest => exact free
  | fire dir empty event quiet =>
      simp only [fire]
      split_ifs
      · cases dir with
        | readable => exact (readRound_calls _ env).noAttach free
        | writable => exact (writeHandleRun_calls _ env).noAttach free
      · exact free
  | made empty pending =>
      refine Calls.noAttach (c := c) ?_ free
      exact .one Frame.noConfusion rfl

theorem Tuned.bound {c d : Cfg σ} (h : Tuned c d) : d.tables.bound = c.tables.bound := by
  cases h <;> rfl

theorem method_bound (c : Cfg σ) (env : Env)
    (m : Method) : (m.run R c env).tables.bound = c.tables.bound := by
  have added : ∀ (d : Cfg σ) (n : Nat), (bufAdded d n).tables.bound = d.tables.bound := by
    intro d n
    simp only [bufAdded, grow]
    split_ifs <;> rfl
  have wrote : ∀ data, (tryWrite c data env).tables.bound = c.tables.bound := by
    intro data
    simp only [tryWrite]
    split_ifs
    · rfl
    · rfl
    · rfl
    · exact added _ _
    · simp only [directWrite]
      split
      · split_ifs
        · rfl
        · exact added _ _
      · exact added _ _
      · exact added _ _
      · split_ifs <;> rfl
    · exact added _ _
  cases m with
  | write data => exact wrote data
  | writelines data => exact wrote data.flatten
  | close =>
      simp only [Method.run, close, closePlain, closeTls]
      split_ifs <;> (try split) <;> (try split_ifs) <;> rfl
  | abort =>
      simp only [Method.run, abort]
      split_ifs <;> rfl
  | callConnectionLost => rfl
  | writeEof | pauseReading | resumeReading | setWriteBufferLimits | isTls | getWriteBufferSize =>
      exact (Method.tuned rfl c env).bound

theorem unlist_bound (c : Cfg σ) : c.unlist.tables.bound = c.tables.bound := by
  unfold Cfg.unlist
  split_ifs <;> rfl

theorem tcpStreamClose_bound {c : Cfg σ} (held : Bool) (env : Env)
    (h : (tcpStreamClose R c held env).tables.bound = true) : c.tables.bound = true := by
  by_contra unbound
  rw [tcpStreamClose, if_neg unbound] at h
  exact unbound h

theorem finishWrite_bound {c : Cfg σ} {streamClose : Option Bool} {env : Env}
    (h : (finishWrite R c streamClose env).tables.bound = true) : c.tables.bound = true := by
  have drained : (if c.tr.state.writeBuf = [] then c.streamRem .writable
      else c).tables.bound = c.tables.bound := by
    split_ifs <;> rfl
  simp only [finishWrite] at h
  split at h
  · exact drained ▸ tcpStreamClose_bound _ _ h
  · exact drained ▸ h
  · exact drained ▸ h

theorem closeFromWriteHandle_bound {c : Cfg σ} {errored : Bool} {env : Env}
    (h : (closeFromWriteHandle R c errored env).tables.bound = true) : c.tables.bound = true := by
  simp only [closeFromWriteHandle] at h
  split at h
  · exact h
  · exact finishWrite_bound h

theorem afterWrite_bound {c : Cfg σ} {env : Env} (h : (afterWrite R c env).tables.bound = true) :
    c.tables.bound = true := by
  simp only [afterWrite] at h
  split_ifs at h
  · split at h
    next conn _ =>
      exact finishWrite_bound
        (c := (closeAlert R c conn env).setState { (closeAlert R c conn env).tr.state with
          tlsPendingClose := false }) h
    · exact finishWrite_bound h
  · exact closeFromWriteHandle_bound h
  · exact finishWrite_bound h

theorem recvDirect_bound (c : Cfg σ)
    (env : Env) : (recvDirect R c env).1.tables.bound = c.tables.bound := by
  have plaintext : ∀ (d : Cfg σ) (conn : σ),
      (recvPlaintext R d conn).1.tables.bound = d.tables.bound := by
    intro d conn
    simp only [recvPlaintext, checkHandshake]
    split_ifs <;> rfl
  simp only [recvDirect]
  split
  · split_ifs
    · rfl
    · simp only [feedTls]
      split
      · rfl
      · split
        · rfl
        · rfl
        · exact plaintext _ _
  · rfl

theorem received_bound (r : Cfg σ × Option Bytes × Bool) :
    (received r).tables.bound = r.1.tables.bound := by
  obtain ⟨d, data, eof⟩ := r
  cases data with
  | some data => rfl
  | none => cases eof <;> rfl

theorem readRound_bound (c : Cfg σ) (env : Env) :
    (readRound R c env).tables.bound = c.tables.bound := by
  simp only [readRound]
  split_ifs
  · rfl
  · exact (received_bound _).trans (recvDirect_bound c env)

/-- Only the end of `attach` registers a transport. -/
theorem after_bound {c : Cfg σ} {frame : Frame} (apart : frame ≠ .attach) {r : Ret} {env : Env}
    (h : (frame.after R c r env).tables.bound = true) : c.tables.bound = true := by
  cases frame with
  | attach => exact absurd rfl apart
  | connectionMade | pause => exact h
  | getBuffer =>
      cases r with
      | buffer size => exact received_bound (c.emit _, _, _) ▸ h
      | falsy | truthy | raised => exact h
  | data ended =>
      cases ended with
      | true => exact h
      | false => exact readRound_bound c env ▸ h
  | eof =>
      simp only [Frame.after, eofReceived, closeFromReadHandle] at h
      split_ifs at h
      · exact h
      · exact h
      · exact h
      · have closed := tcpStreamClose_bound _ _ h
        exact method_bound c.setClosing env .close ▸ closed
      · exact h
      · exact h
  | lost k =>
      cases k with
      | writeHandle => exact finishWrite_bound h
      | callConnLost | tryWrite | recvEof | readHandle => exact tcpStreamClose_bound _ _ h
  | resume => exact afterWrite_bound h

def Obs.isLost : Obs → Bool
  | .callback (.connectionLost _) _ => true
  | _ => false

/-- How often `connection_lost` was called. -/
def Cfg.losses (c : Cfg σ) : Nat := c.log.countP Obs.isLost

/-- The direction is registered for the descriptor. -/
def Cfg.watches (c : Cfg σ) (d : Dir) : Bool := c.tables.interest.any (Interest.has d)

theorem losses_append {c d : Cfg σ} {obs : List Obs} (log : d.log = c.log ++ obs)
    (silent : ∀ o ∈ obs, o.isLost = false) : d.losses = c.losses := by
  have none : obs.countP Obs.isLost = 0 := by
    refine List.countP_eq_zero.mpr fun o ho => ?_
    rw [silent o ho]
    exact Bool.false_ne_true
  rw [Cfg.losses, log, List.countP_append, none]
  rfl

theorem losses_emit {c d : Cfg σ} {o : Obs} (log : d.log = c.log ++ [o])
    (silent : o.isLost = false) : d.losses = c.losses :=
  losses_append log fun p hp => by rw [List.mem_singleton.mp hp]; exact silent

theorem lost_iff_losses (c : Cfg σ) : c.lost ↔ 0 < c.losses := by
  rw [Cfg.losses, List.countP_pos_iff]
  constructor
  · rintro ⟨err, hmem⟩
    obtain ⟨o, ho, same⟩ := List.mem_filterMap.mp hmem
    refine ⟨o, ho, ?_⟩
    cases o with
    | callback e buffered => cases same; rfl
    | _ => cases same
  · rintro ⟨o, ho, isLost⟩
    cases o with
    | callback e buffered =>
        cases e with
        | connectionLost err => exact ⟨err, List.mem_filterMap.mpr ⟨_, ho, rfl⟩⟩
        | _ => cases isLost
    | _ => cases isLost

theorem lost_emit {c : Cfg σ} {o : Obs} (silent : o.isLost = false) : (c.emit o).lost ↔ c.lost := by
  rw [lost_iff_losses, lost_iff_losses, losses_emit rfl silent]

theorem losses_of_callbacks {c d : Cfg σ} (same : d.callbacks = c.callbacks) :
    d.losses = c.losses := by
  have count : ∀ e : Cfg σ, e.losses = e.callbacks.countP fun e => Obs.isLost (.callback e []) := by
    intro e
    rw [Cfg.losses, Cfg.callbacks, List.countP_filterMap]
    congr 1
    funext o
    cases o with
    | callback e buffered => cases e <;> rfl
    | _ => rfl
  rw [count, count, same]

theorem watches_streamAdd {c : Cfg σ} {d e : Dir} (apart : e ≠ d) :
    (c.streamAdd d).watches e = c.watches e := by
  simp only [Cfg.watches, Cfg.streamAdd]
  cases c.tables.interest with
  | none => cases d <;> cases e <;> first | rfl | exact absurd rfl apart
  | some interest =>
      cases interest with
      | only f => cases d <;> cases e <;> cases f <;> first | rfl | exact absurd rfl apart
      | both => rfl

theorem watches_streamAdd_same (c : Cfg σ) (d : Dir) : (c.streamAdd d).watches d = true := by
  simp only [Cfg.watches, Cfg.streamAdd]
  cases c.tables.interest with
  | none => cases d <;> rfl
  | some interest =>
      cases interest with
      | only f => cases d <;> cases f <;> rfl
      | both => rfl

theorem watches_streamAdd_mono {c : Cfg σ} {d e : Dir} (h : c.watches e = true) :
    (c.streamAdd d).watches e = true := by
  by_cases same : e = d
  · rw [same]
    exact watches_streamAdd_same c d
  · rwa [watches_streamAdd same]

theorem watches_streamRem_same (c : Cfg σ) (d : Dir) : (c.streamRem d).watches d = false := by
  simp only [Cfg.watches, Cfg.streamRem]
  cases c.tables.interest with
  | none => rfl
  | some interest =>
      cases interest with
      | only f => cases d <;> cases f <;> rfl
      | both => cases d <;> rfl

theorem watches_streamRem_other {c : Cfg σ} {d e : Dir}
    (apart : e ≠ d) : (c.streamRem d).watches e = c.watches e := by
  simp only [Cfg.watches, Cfg.streamRem]
  cases c.tables.interest with
  | none => rfl
  | some interest =>
      cases interest with
      | only f => cases d <;> cases e <;> cases f <;> first | rfl | exact absurd rfl apart
      | both => cases d <;> cases e <;> first | rfl | exact absurd rfl apart

theorem watches_streamRem {c : Cfg σ} {d e : Dir} (h : (c.streamRem d).watches e = true) :
    c.watches e = true := by
  by_cases same : e = d
  · rw [same, watches_streamRem_same] at h
    cases h
  · rwa [watches_streamRem_other same] at h

/-- A registration that watches nothing is none. -/
theorem unregistered_of_watches {c : Cfg σ} (readable : c.watches .readable = false)
    (writable : c.watches .writable = false) : c.tables.interest = none := by
  simp only [Cfg.watches] at readable writable
  cases h : c.tables.interest with
  | none => rfl
  | some interest =>
      rw [h] at readable writable
      cases interest with
      | only f =>
          cases f with
          | readable => cases readable
          | writable => cases writable
      | both => cases readable

end TokioLoop.Tcp
