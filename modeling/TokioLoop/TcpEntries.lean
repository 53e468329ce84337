import TokioLoop.TcpFrames

/-!
The entries of a transport in `tcp_transports` and in the set of its listener. Only
`tcp_stream_close` takes them away, and both at once, unless it panics in between; the
registration at the end of `_tcp_conn` is for transports without a listener.
-/
namespace TokioLoop.Tcp

variable {σ : Type} {R : Rustls σ}

/-- The transport is in the set of its listener just as long as it is in the table. -/
def Indexed (c : Cfg σ) : Prop := c.tables.listed = true ↔ c.tables.bound = true ∧
    c.tr.lfd.isSome = true

/-- The code leaves the entries alone. -/
structure Keeps (c d : Cfg σ) : Prop where
  lfd : d.tr.lfd = c.tr.lfd
  bound : d.tables.bound = c.tables.bound
  listed : d.tables.listed = c.tables.listed
  running : d.panicked = false → c.panicked = false

/-- The code keeps the entries in step, or panics. -/
structure Places (c d : Cfg σ) : Prop where
  lfd : d.tr.lfd = c.tr.lfd
  running : d.panicked = false → c.panicked = false
  indexed : d.panicked = false → Indexed c → Indexed d

theorem Keeps.refl (c : Cfg σ) : Keeps c c := ⟨rfl, rfl, rfl, id⟩

theorem Keeps.trans {b c d : Cfg σ} (first : Keeps b c) (second : Keeps c d) : Keeps b d where
  lfd := second.lfd.trans first.lfd
  bound := second.bound.trans first.bound
  listed := second.listed.trans first.listed
  running h := first.running (second.running h)

theorem Keeps.places {c d : Cfg σ} (h : Keeps c d) : Places c d where
  lfd := h.lfd
  running := h.running
  indexed _ indexed := by
    unfold Indexed
    rw [h.listed, h.bound, h.lfd]
    exact indexed

theorem Places.trans {b c d : Cfg σ} (first : Places b c) (second : Places c d) : Places b d where
  lfd := second.lfd.trans first.lfd
  running h := first.running (second.running h)
  indexed h indexed := second.indexed h (first.indexed (second.running h) indexed)

theorem Keeps.panic (c : Cfg σ) : Keeps c c.panic := ⟨rfl, rfl, rfl, fun h => Bool.noConfusion h⟩

theorem Keeps.streamRem (c : Cfg σ) (d : Dir) : Keeps c (c.streamRem d) := ⟨rfl, rfl, rfl, id⟩

theorem Keeps.call (c : Cfg σ) (e : Callback) (frame : Frame) : Keeps c (c.call e frame) :=
  ⟨rfl, rfl, rfl, id⟩

theorem Untouched.keeps {c d : Cfg σ} (h : Untouched c d) : Keeps c d where
  lfd := h.lfd
  bound := by rw [h.tables]
  listed := by rw [h.tables]
  running running := h.panicked ▸ running

theorem closeTls_keeps (c : Cfg σ) (conn : σ) (env : Env) : Keeps c (closeTls R c conn env) := by
  simp only [closeTls]
  split_ifs
  · exact ⟨rfl, rfl, rfl, id⟩
  · exact ⟨rfl, rfl, rfl, id⟩
  · exact Keeps.trans (c := (closeAlert R c conn env).streamRem .writable) ⟨rfl, rfl, rfl, id⟩
      (Keeps.panic _)

theorem close_keeps (c : Cfg σ) (env : Env) : Keeps c (close R c env) := by
  have closing : Keeps c c.setClosing := ⟨rfl, rfl, rfl, id⟩
  simp only [close]
  split_ifs
  · exact Keeps.refl c
  · exact closing.trans (Keeps.panic _)
  · split
    · exact closing.trans (closeTls_keeps _ _ env)
    · simp only [closePlain]
      split_ifs <;> exact ⟨rfl, rfl, rfl, id⟩

theorem pushBack_keeps (c : Cfg σ) (data : Bytes) : Keeps c (pushBack c data) := by
  simp only [pushBack, bufAdded, grow]
  split_ifs <;> exact ⟨rfl, rfl, rfl, id⟩

theorem directWrite_keeps (c : Cfg σ) (data : Bytes) (r : WriteResult) :
    Keeps c (directWrite c data r) := by
  have wrote : Keeps c (c.emit (.write data r)) := ⟨rfl, rfl, rfl, id⟩
  simp only [directWrite]
  split
  · split_ifs
    · exact wrote
    · exact wrote.trans (pushBack_keeps _ _)
  · exact wrote.trans (pushBack_keeps _ _)
  · exact wrote.trans (pushBack_keeps _ _)
  · split_ifs <;> exact ⟨rfl, rfl, rfl, id⟩

theorem tryWrite_keeps (c : Cfg σ) (data : Bytes) (env : Env) : Keeps c (tryWrite c data env) := by
  have taken : Keeps c (c.emit (.accepted data)) := ⟨rfl, rfl, rfl, id⟩
  simp only [tryWrite]
  split_ifs
  · exact ⟨rfl, rfl, rfl, id⟩
  · exact Keeps.refl c
  · exact Keeps.panic c
  · exact taken.trans (pushBack_keeps _ data)
  · exact taken.trans (directWrite_keeps _ data _)
  · exact taken.trans (pushBack_keeps _ data)

theorem Tuned.keeps {c d : Cfg σ} (h : Tuned c d) : Keeps c d := by
  cases h with
  | borrowed => exact ⟨rfl, rfl, rfl, fun h => Bool.noConfusion h⟩
  | unchanged | set | raised | shutdown | pauseReading | resumeReading
  | pauseWriting => exact ⟨rfl, rfl, rfl, id⟩

theorem abort_keeps (c : Cfg σ) : Keeps c (abort c) := by
  simp only [abort]
  split_ifs
  · exact Keeps.panic c
  all_goals exact ⟨rfl, rfl, rfl, id⟩

theorem method_keeps (c : Cfg σ) (env : Env) (m : Method) : Keeps c (m.run R c env) := by
  cases m with
  | write data => exact tryWrite_keeps c data env
  | writelines data => exact tryWrite_keeps c data.flatten env
  | close => exact close_keeps c env
  | abort => exact abort_keeps c
  | callConnectionLost => exact Keeps.call c _ _
  | writeEof | pauseReading | resumeReading | setWriteBufferLimits | isTls | getWriteBufferSize =>
      exact (Method.tuned rfl c env).keeps

/-- The one place that takes the entries away. -/
theorem tcpStreamClose_places (c : Cfg σ) (held : Bool)
    (env : Env) : Places c (tcpStreamClose R c held env) := by
  -- what is left when the entry in the table is gone and nothing has panicked
  have gone : ∀ d : Cfg σ, Keeps c.unbind d → Places c d.unlist := by
    intro d keeps
    have unlisted : d.unlist.tables.bound = false ∧
        d.unlist.tables.listed = (if c.tr.lfd.isSome then false else c.tables.listed) ∧
        d.unlist.tr.lfd = c.tr.lfd ∧ d.unlist.panicked = d.panicked := by
      have bound : d.tables.bound = false := keeps.bound
      have listed : d.tables.listed = c.tables.listed := keeps.listed
      have lfd : d.tr.lfd = c.tr.lfd := keeps.lfd
      unfold Cfg.unlist
      rw [lfd]
      split_ifs
      · exact ⟨bound, rfl, lfd, rfl⟩
      · exact ⟨bound, listed, lfd, rfl⟩
    obtain ⟨bound, listed, lfd, panicked⟩ := unlisted
    refine ⟨lfd, fun running => keeps.running (panicked ▸ running), fun _ indexed => ?_⟩
    unfold Indexed at indexed ⊢
    rw [bound, listed, lfd]
    cases hlfd : c.tr.lfd with
    | some l => simp
    | none => simpa [hlfd] using indexed
  simp only [tcpStreamClose]
  split_ifs with bound held' tls stopped stopped
  · exact ⟨rfl, fun h => Bool.noConfusion h, fun h => Bool.noConfusion h⟩
  · have keeps := close_keeps (R := R) c.unbind env
    refine ⟨keeps.lfd, keeps.running, fun running => ?_⟩
    rw [stopped] at running
    cases running
  · exact gone _ (close_keeps c.unbind env)
  · refine ⟨rfl, id, fun running => ?_⟩
    rw [stopped] at running
    cases running
  · exact gone _ (Keeps.refl _)
  · exact (Keeps.refl c).places

theorem recvPlaintext_keeps (c : Cfg σ) (conn : σ) : Keeps c (recvPlaintext R c conn).1 := by
  have shaken : Keeps c (checkHandshake R (c.setConn conn) conn) := by
    simp only [checkHandshake]
    split_ifs <;> exact ⟨rfl, rfl, rfl, id⟩
  simp only [recvPlaintext]
  split_ifs <;> exact shaken.trans ⟨rfl, rfl, rfl, id⟩

theorem recvDirect_keeps (c : Cfg σ) (env : Env) : Keeps c (recvDirect R c env).1 := by
  simp only [recvDirect]
  split
  · split_ifs
    · exact ⟨rfl, rfl, rfl, id⟩
    · simp only [feedTls]
      split
      · exact ⟨rfl, rfl, rfl, id⟩
      · split
        · exact ⟨rfl, rfl, rfl, id⟩
        · exact ⟨rfl, rfl, rfl, id⟩
        · refine Keeps.trans ?_ (recvPlaintext_keeps _ _)
          exact ⟨rfl, rfl, rfl, id⟩
  · exact ⟨rfl, rfl, rfl, id⟩

theorem received_keeps (c : Cfg σ) (data : Option Bytes)
    (eof : Bool) : Keeps c (received (c, data, eof)) := by
  cases data with
  | some data => exact Keeps.call c _ _
  | none =>
      cases eof with
      | true => exact (Keeps.streamRem c .readable).trans (Keeps.call _ _ _)
      | false => exact Keeps.refl c

theorem received_panicked (c : Cfg σ) (data : Option Bytes) (eof : Bool) :
    (received (c, data, eof)).panicked = c.panicked := by
  cases data with
  | some data => rfl
  | none => cases eof <;> rfl

theorem readRound_keeps (c : Cfg σ) (env : Env) : Keeps c (readRound R c env) := by
  simp only [readRound]
  split_ifs
  · exact Keeps.call c _ _
  · exact (recvDirect_keeps c env).trans (received_keeps _ _ _)

theorem recvBuffered_keeps (c : Cfg σ) (size : Nat)
    (env : Env) : Keeps c (recvBuffered c size env) := by
  refine Keeps.trans ?_ (received_keeps _ _ _)
  exact ⟨rfl, rfl, rfl, id⟩

theorem closeFromReadHandle_places (c : Cfg σ)
    (env : Env) : Places c (closeFromReadHandle R c env) := by
  have closing : Keeps c c.setClosing := ⟨rfl, rfl, rfl, id⟩
  simp only [closeFromReadHandle]
  split_ifs
  · exact (Keeps.refl c).places
  · exact (closing.trans (close_keeps _ env)).places.trans (tcpStreamClose_places _ _ env)
  · exact closing.places
  · exact Keeps.places ⟨rfl, rfl, rfl, id⟩

theorem finishWrite_places (c : Cfg σ) (streamClose : Option Bool) (env : Env) :
    Places c (finishWrite R c streamClose env) := by
  have drained : Keeps c (if c.tr.state.writeBuf = [] then c.streamRem .writable else c) := by
    split_ifs
    · exact Keeps.streamRem c _
    · exact Keeps.refl c
  simp only [finishWrite]
  split
  · exact drained.places.trans (tcpStreamClose_places _ _ env)
  · refine (drained.trans ?_).places
    exact ⟨rfl, rfl, rfl, id⟩
  · exact drained.places

theorem closeFromWriteHandle_places (c : Cfg σ) (errored : Bool) (env : Env) :
    Places c (closeFromWriteHandle R c errored env) := by
  simp only [closeFromWriteHandle]
  split
  · exact (Keeps.call c _ _).places
  · exact finishWrite_places c _ env

theorem afterWrite_places (c : Cfg σ) (env : Env) : Places c (afterWrite R c env) := by
  simp only [afterWrite]
  split_ifs
  · split
    · refine Places.trans ?_ (finishWrite_places _ _ _)
      exact Keeps.places ⟨rfl, rfl, rfl, id⟩
    · exact finishWrite_places c _ env
  · exact closeFromWriteHandle_places c false env
  · exact finishWrite_places c _ env

theorem written_places (c : Cfg σ) (n : Nat) (env : Env) : Places c (written R c n env) := by
  simp only [written]
  split_ifs
  · exact Keeps.places ⟨rfl, rfl, rfl, id⟩
  · exact afterWrite_places c env

theorem writeHandleRun_places (c : Cfg σ) (env : Env) : Places c (writeHandleRun R c env) := by
  simp only [writeHandleRun]
  split_ifs
  · exact Keeps.places ⟨rfl, rfl, rfl, id⟩
  · split
    next conn hconn =>
      have wrote := (writeTls_untouched (R := R) hconn env).keeps.places
      split
      next hwrite =>
        rw [hwrite] at wrote
        exact wrote.trans (written_places _ _ _)
      next hwrite =>
        rw [hwrite] at wrote
        exact wrote.trans (closeFromWriteHandle_places _ _ _)
    · have wrote := (writePlain_untouched c env).keeps.places
      split
      next hwrite =>
        rw [hwrite] at wrote
        exact wrote.trans (written_places _ _ _)
      next hwrite =>
        rw [hwrite] at wrote
        exact wrote.trans (closeFromWriteHandle_places _ _ _)

/-- The end of `_tcp_conn`, on a transport without a listener. -/
theorem register_places {c : Cfg σ} (alone : c.tr.lfd = none) : Places c (register c) := by
  refine ⟨rfl, id, fun _ indexed => ?_⟩
  unfold Indexed at indexed ⊢
  have lfd : (register c).tr.lfd = none := alone
  rw [alone] at indexed
  rw [lfd]
  exact indexed.trans ⟨fun h => Bool.noConfusion h.2, fun h => Bool.noConfusion h.2⟩

theorem after_places (c : Cfg σ) {frame : Frame} (alone : frame = .attach → c.tr.lfd = none)
    (r : Ret) (env : Env) : Places c (frame.after R c r env) := by
  cases frame with
  | attach =>
      simp only [Frame.after]
      split_ifs
      · exact (Keeps.refl c).places
      · exact register_places (alone rfl)
  | connectionMade | pause => exact (Keeps.refl c).places
  | getBuffer =>
      cases r with
      | buffer size => exact (recvBuffered_keeps c size env).places
      | falsy | truthy | raised => exact (Keeps.panic c).places
  | data ended =>
      cases ended with
      | true => exact ((Keeps.streamRem c .readable).trans (Keeps.call _ _ _)).places
      | false => exact (readRound_keeps c env).places
  | eof =>
      simp only [Frame.after, eofReceived]
      split_ifs
      · exact (Keeps.refl c).places
      · exact (Keeps.call c _ _).places
      · exact closeFromReadHandle_places c env
  | lost k =>
      cases k with
      | writeHandle => exact finishWrite_places c (some true) env
      | callConnLost | tryWrite | recvEof | readHandle => exact tcpStreamClose_places c _ env
  | resume => exact afterWrite_places c env

/-- The entries are in step, and only a transport without a listener waits in `attach`. -/
structure Placed (c : Cfg σ) : Prop where
  indexed : Indexed c
  attached : .attach ∈ c.stack → c.tr.lfd = none

theorem step_places {c d : Cfg σ} {a : Act × Env} (placed : Placed c) (h : step R c a = some d) :
    Places c d := by
  obtain ⟨act, env⟩ := a
  obtain ⟨running, stepped⟩ := step_stepped h
  cases stepped with
  | call m exposed => exact (method_keeps c env m).places
  | server aborts bound listed => exact (method_keeps c env _).places
  | ret r frame stack hstack =>
      have popped : Places c { c with stack := stack } := Keeps.places ⟨rfl, rfl, rfl, id⟩
      refine popped.trans (after_places _ (fun attach => ?_) r env)
      exact placed.attached (by rw [hstack, attach]; exact List.mem_cons_self)
  | poll dir free event interest => exact Keeps.places ⟨rfl, rfl, rfl, id⟩
  | fire dir free event quiet =>
      have taken : Places c { c with tables := { c.tables with event := none } } :=
        Keeps.places ⟨rfl, rfl, rfl, id⟩
      refine taken.trans ?_
      simp only [fire]
      split_ifs
      · cases dir with
        | readable => exact (readRound_keeps _ env).places
        | writable => exact writeHandleRun_places _ env
      · exact (Keeps.refl _).places
  | made free pending => exact Keeps.places ⟨rfl, rfl, rfl, id⟩

theorem step_placed {c d : Cfg σ} {a : Act × Env} (placed : Placed c) (h : step R c a = some d)
    (running : d.panicked = false) : Placed d := by
  have places := step_places placed h
  refine ⟨places.indexed running placed.indexed, fun attach => ?_⟩
  rw [places.lfd]
  apply placed.attached
  by_contra free
  exact step_noAttach c a d free h attach

/-- `recv_buffered` unwraps what `get_buffer` gives, and panics on nothing else. -/
theorem ret_getBuffer {c d : Cfg σ} {r : Ret} {env : Env} (top : c.stack.head? = some .getBuffer)
    (h : step R c (.ret r, env) = some d) : d.panicked = false ↔ ∃ size, r = .buffer size := by
  obtain ⟨running, stepped⟩ := step_stepped h
  cases stepped with
  | ret r frame stack hstack =>
      rw [hstack, List.head?_cons] at top
      cases top
      cases r with
      | buffer size =>
          exact iff_of_true ((received_panicked _ _ _).trans running) ⟨size, rfl⟩
      | falsy | truthy | raised =>
          refine iff_of_false (fun h => Bool.noConfusion h) ?_
          rintro ⟨size, other⟩
          cases other

end TokioLoop.Tcp
