import TokioLoop.TcpCallbacks

/-!
`pause_reading` and `resume_reading` of a plain transport: what reaches the protocol
while reading is paused, and what the poller watches.
-/
namespace TokioLoop.Tcp

variable {σ : Type} {R : Rustls σ}

/-- A call of `data_received` or `buffer_updated`. -/
def Obs.isData : Obs → Bool
  | .callback (.dataReceived _) _ => true
  | _ => false

/-- How often data was delivered. -/
def Cfg.heard (c : Cfg σ) : Nat := c.log.countP Obs.isData

theorem heard_append {c d : Cfg σ} (obs : List Obs) (log : d.log = c.log ++ obs) :
    d.heard = c.heard + obs.countP Obs.isData := by
  rw [Cfg.heard, log, List.countP_append]
  rfl

theorem ended_append {c d : Cfg σ} (obs : List Obs) (log : d.log = c.log ++ obs)
    (h : c.ended) : d.ended := by
  unfold Cfg.ended Cfg.callbacks at h ⊢
  rw [log, List.filterMap_append]
  exact List.mem_append_left _ h

/-- `READABLE` goes only when the transport is closing or at the end of the stream. -/
structure Deaf (c d : Cfg σ) : Prop where
  plain : d.tr.state.tlsConn = c.tr.state.tlsConn
  heard : d.heard = c.heard
  paused : d.tr.paused = c.tr.paused
  closing : c.tr.closing = true → d.tr.closing = true
  ended : c.ended → d.ended
  watches : d.watches .readable = true → c.watches .readable = true
  removed : c.watches .readable = true → d.watches .readable = true ∨ d.tr.closing = true ∨ d.ended

theorem Deaf.trans {b c d : Cfg σ} (first : Deaf b c) (second : Deaf c d) : Deaf b d where
  plain := second.plain.trans first.plain
  heard := second.heard.trans first.heard
  paused := second.paused.trans first.paused
  closing := second.closing ∘ first.closing
  ended := second.ended ∘ first.ended
  watches := first.watches ∘ second.watches
  removed h := by
    rcases first.removed h with there | closing | ended
    · exact second.removed there
    · exact .inr (.inl (second.closing closing))
    · exact .inr (.inr (second.ended ended))

/-- Code that logs something else and leaves the interest in `READABLE` alone. -/
theorem Deaf.logs {c d : Cfg σ} (obs : List Obs) (log : d.log = c.log ++ obs)
    (mute : obs.countP Obs.isData = 0) (plain : d.tr.state.tlsConn = c.tr.state.tlsConn)
    (paused : d.tr.paused = c.tr.paused) (closing : c.tr.closing = true → d.tr.closing = true)
    (watches : d.watches .readable = c.watches .readable) : Deaf c d where
  plain := plain
  heard := by rw [heard_append obs log, mute, Nat.add_zero]
  paused := paused
  closing := closing
  ended := ended_append obs log
  watches h := watches.symm.trans h
  removed h := .inl (watches.trans h)

theorem Deaf.same {c d : Cfg σ} (log : d.log = c.log)
    (plain : d.tr.state.tlsConn = c.tr.state.tlsConn) (paused : d.tr.paused = c.tr.paused)
    (closing : c.tr.closing = true → d.tr.closing = true)
    (watches : d.watches .readable = c.watches .readable) : Deaf c d :=
  .logs [] (log.trans (List.append_nil _).symm) rfl plain paused closing watches

theorem Deaf.refl (c : Cfg σ) : Deaf c c := .same rfl rfl rfl id rfl

theorem Deaf.emit (c : Cfg σ) {o : Obs} (mute : o.isData = false) : Deaf c (c.emit o) :=
  .logs [o] rfl (by simp [mute]) rfl rfl id rfl

theorem Deaf.call (c : Cfg σ) {e : Callback} (frame : Frame)
    (mute : (Obs.callback e c.tr.state.writeBuf).isData = false) : Deaf c (c.call e frame) :=
  .logs [.callback e c.tr.state.writeBuf] rfl (by simp [mute]) rfl rfl id rfl

theorem Deaf.stopWriting (c : Cfg σ) : Deaf c (c.streamRem .writable) :=
  .same rfl rfl rfl id (watches_streamRem_other (by decide))

theorem Deaf.startWriting (c : Cfg σ) : Deaf c (c.streamAdd .writable) :=
  .same rfl rfl rfl id (watches_streamAdd (by decide))

theorem Deaf.stopReading {c : Cfg σ} (closing : c.tr.closing = true) :
    Deaf c (c.streamRem .readable) where
  plain := rfl
  heard := rfl
  paused := rfl
  closing := id
  ended := id
  watches := watches_streamRem
  removed _ := .inr (.inl closing)

theorem Deaf.setClosing (c : Cfg σ) : Deaf c c.setClosing := .same rfl rfl rfl (fun _ => rfl) rfl

theorem Deaf.startClose (c : Cfg σ) : Deaf c (c.setClosing.streamRem .readable) :=
  (Deaf.setClosing c).trans (.stopReading rfl)

theorem pushBack_deaf (c : Cfg σ) (data : Bytes) : Deaf c (pushBack c data) := by
  have pushed : Deaf c (c.setState { c.tr.state with writeBuf := c.tr.state.writeBuf ++ [data] }) :=
    .same rfl rfl rfl id rfl
  have grown : ∀ d : Cfg σ, Deaf d (grow d data.length) := by
    intro d
    simp only [grow]
    split_ifs
    · exact (Deaf.startWriting d).trans (.same rfl rfl rfl id rfl)
    · exact .same rfl rfl rfl id rfl
  simp only [pushBack, bufAdded]
  split_ifs
  · exact (pushed.trans (grown _)).trans (.logs [.callback .pauseWriting _] rfl rfl rfl rfl id rfl)
  · exact pushed.trans (grown _)

theorem tryWrite_deaf (c : Cfg σ) (data : Bytes) (env : Env) : Deaf c (tryWrite c data env) := by
  simp only [tryWrite]
  split_ifs with weof empty held tls zero
  · exact .emit c rfl
  · exact .refl c
  · exact .same rfl rfl rfl id rfl
  · exact (Deaf.emit c rfl).trans (pushBack_deaf _ _)
  · have wrote : Deaf c ((c.emit (.accepted data)).emit (.write data env.nextWrite)) :=
      (Deaf.emit c rfl).trans (.emit _ rfl)
    simp only [directWrite]
    split
    · split_ifs
      · exact wrote
      · exact wrote.trans (pushBack_deaf _ _)
    · exact wrote.trans (pushBack_deaf _ _)
    · exact wrote.trans (pushBack_deaf _ _)
    · split_ifs
      · exact wrote.trans (.call _ _ rfl)
      · exact wrote.trans ((Deaf.startClose _).trans (.call _ _ rfl))
  · exact (Deaf.emit c rfl).trans (pushBack_deaf _ _)

theorem close_deaf {c : Cfg σ} (plain : c.tr.state.tlsConn = none)
    (env : Env) : Deaf c (close R c env) := by
  have noTls : c.setClosing.tr.state.tlsConn = none := plain
  simp only [close, noTls, closePlain]
  split_ifs
  · exact .refl c
  · exact (Deaf.setClosing c).trans (.same rfl rfl rfl id rfl)
  · exact (Deaf.startClose c).trans ((Deaf.stopWriting _).trans (.call _ _ rfl))
  · exact .startClose c

theorem abort_deaf (c : Cfg σ) : Deaf c (abort c) := by
  simp only [abort]
  split_ifs
  · exact .same rfl rfl rfl id rfl
  · exact (Deaf.stopWriting c).trans (.call _ _ rfl)
  · exact (Deaf.stopWriting c).trans ((Deaf.startClose _).trans (.call _ _ rfl))
  · exact .call c _ rfl
  · exact (Deaf.startClose c).trans (.call _ _ rfl)

theorem method_deaf {c : Cfg σ} (plain : c.tr.state.tlsConn = none) (env : Env) {m : Method}
    (pause : m ≠ .pauseReading) (resume : m ≠ .resumeReading) : Deaf c (m.run R c env) := by
  have read : Deaf c (readState c) := by
    unfold readState
    split_ifs
    · exact .same rfl rfl rfl id rfl
    · exact .refl c
  cases m with
  | pauseReading => exact absurd rfl pause
  | resumeReading => exact absurd rfl resume
  | write data => exact tryWrite_deaf c data env
  | writelines data => exact tryWrite_deaf c data.flatten env
  | close => exact close_deaf plain env
  | abort => exact abort_deaf c
  | callConnectionLost => exact .call c _ rfl
  | isTls | getWriteBufferSize => exact read
  | writeEof =>
      simp only [Method.run, Tcp.writeEof]
      split_ifs
      · exact .refl c
      · exact .refl c
      · exact .same rfl rfl rfl id rfl
      · exact .logs [.shutdown _] rfl rfl rfl rfl id rfl
      · exact .same rfl rfl rfl id rfl
  | setWriteBufferLimits high low =>
      simp only [Method.run, Tcp.setWriteBufferLimits]
      split_ifs
      · exact .emit c rfl
      · exact .same rfl rfl rfl id rfl
      · exact .logs [.callback .pauseWriting _] rfl rfl rfl rfl id rfl
      · exact .same rfl rfl rfl id rfl

theorem pauseReading_heard (c : Cfg σ) : (pauseReading c).heard = c.heard := by
  simp only [pauseReading]
  split_ifs <;> rfl

theorem resumeReading_heard (c : Cfg σ) : (resumeReading c).heard = c.heard := by
  simp only [resumeReading]
  split_ifs <;> rfl

theorem tcpStreamClose_deaf {c : Cfg σ} (plain : c.tr.state.tlsConn = none) (held : Bool)
    (env : Env) : Deaf c (tcpStreamClose R c held env) := by
  have unbound : c.unbind.tr.state.tlsConn.isSome = false := by
    rw [show c.unbind.tr.state.tlsConn = none from plain]
    rfl
  simp only [tcpStreamClose, unbound, Bool.false_eq_true, if_false, Cfg.unlist]
  split_ifs <;> exact .same rfl rfl rfl id rfl

theorem finishWrite_deaf {c : Cfg σ} (plain : c.tr.state.tlsConn = none) (streamClose : Option Bool)
    (env : Env) : Deaf c (finishWrite R c streamClose env) := by
  have removed : Deaf c (if c.tr.state.writeBuf = [] then c.streamRem .writable else c) := by
    split_ifs
    · exact .stopWriting c
    · exact .refl c
  simp only [finishWrite]
  split
  · exact removed.trans (tcpStreamClose_deaf (removed.plain.trans plain) _ env)
  · exact removed.trans (.emit _ rfl)
  · exact removed

theorem closeFromWriteHandle_deaf {c : Cfg σ} (plain : c.tr.state.tlsConn = none) (errored : Bool)
    (env : Env) : Deaf c (closeFromWriteHandle R c errored env) := by
  unfold closeFromWriteHandle
  split
  · exact .call c _ rfl
  · exact finishWrite_deaf plain _ env

theorem afterWrite_deaf {c : Cfg σ} (plain : c.tr.state.tlsConn = none)
    (env : Env) : Deaf c (afterWrite R c env) := by
  simp only [afterWrite, plain]
  split_ifs
  · exact finishWrite_deaf plain _ env
  · exact closeFromWriteHandle_deaf plain false env
  · exact finishWrite_deaf plain _ env

theorem written_deaf {c : Cfg σ} (plain : c.tr.state.tlsConn = none) (n : Nat) (env : Env) :
    Deaf c (written R c n env) := by
  simp only [written]
  split_ifs
  · exact .logs [.callback .resumeWriting _] rfl rfl rfl rfl id rfl
  · exact afterWrite_deaf plain env

theorem writePlain_deaf (c : Cfg σ) (env : Env) : Deaf c (writePlain c env).1 := by
  refine .logs (writeLoop env.writes c.tr.state.writeBuf).2.2 rfl ?_ rfl rfl id rfl
  rw [List.countP_eq_zero]
  intro o ho data
  have silent := writeLoop_silent env.writes c.tr.state.writeBuf o ho
  cases o with
  | callback => cases silent
  | accepted | write | shutdown | recv | recvTls | fed | tlsError | closeNotify | encrypted
  | flushed | raised =>
      cases data

theorem writeHandleRun_deaf {c : Cfg σ} (plain : c.tr.state.tlsConn = none) (env : Env) :
    Deaf c (writeHandleRun R c env) := by
  have wrote := writePlain_deaf c env
  have waiting : closeTimedOut c.tr.state env.now = false := by simp [closeTimedOut, plain]
  simp only [writeHandleRun, waiting, Bool.false_eq_true, if_false, plain]
  split
  next d n hwrite =>
    rw [hwrite] at wrote
    exact wrote.trans (written_deaf (wrote.plain.trans plain) n env)
  next d hwrite =>
    rw [hwrite] at wrote
    exact wrote.trans (closeFromWriteHandle_deaf (wrote.plain.trans plain) true env)

theorem recvEof_deaf (c : Cfg σ) : Deaf c (recvEof c) where
  plain := rfl
  heard := heard_append [.callback .eofReceived _] rfl
  paused := rfl
  closing := id
  ended := ended_append [.callback .eofReceived _] rfl
  watches := watches_streamRem
  removed _ := by
    refine .inr (.inr ?_)
    simp [Cfg.ended, Cfg.callbacks, recvEof, Cfg.call, Cfg.emit, Cfg.streamRem, Obs.asCallback]

theorem eofReceived_deaf {c : Cfg σ} (plain : c.tr.state.tlsConn = none) (truthy : Bool)
    (env : Env) : Deaf c (eofReceived R c truthy env) := by
  have noTls : c.setClosing.tr.state.tlsConn = none := plain
  simp only [eofReceived, closeFromReadHandle, plain, noTls, Option.isSome_none, Bool.false_eq_true,
    false_and, if_false]
  split_ifs
  · exact .refl c
  · exact .refl c
  · exact .setClosing c
  · exact (Deaf.setClosing c).trans ((Deaf.stopWriting _).trans (.call _ _ rfl))

/-- The same, but for one call with data. -/
structure Hears (c d : Cfg σ) : Prop where
  plain : d.tr.state.tlsConn = c.tr.state.tlsConn
  heard : d.heard = c.heard + 1
  paused : d.tr.paused = c.tr.paused
  closing : d.tr.closing = c.tr.closing
  ended : c.ended → d.ended
  watches : d.watches .readable = c.watches .readable

/-- The code delivers data exactly if `P` holds. -/
def Reads (c d : Cfg σ) (P : Prop) : Prop := P ∧ Hears c d ∨ ¬ P ∧ Deaf c d

theorem received_reads (c : Cfg σ) (got : Bytes × Bool) :
    Reads c (received (c.emit (.recv got.1), if got.1 = [] then none else some got.1, got.2))
    (got.1 ≠ []) := by
  obtain ⟨bytes, closed⟩ := got
  by_cases empty : bytes = []
  · subst empty
    refine .inr ⟨fun some => some rfl, ?_⟩
    cases closed with
    | true => exact (Deaf.emit c rfl).trans (recvEof_deaf _)
    | false => exact .emit c rfl
  · have log : (received (c.emit (.recv bytes), some bytes, closed)).log =
        c.log ++ [.recv bytes, .callback (.dataReceived bytes) c.tr.state.writeBuf] := by
      simp [received, Cfg.call, Cfg.emit]
    dsimp only
    rw [if_neg empty]
    exact .inl ⟨empty, rfl, heard_append _ log, rfl, rfl, ended_append _ log, rfl⟩

/-- There is data in the socket. -/
def arrives : List ReadResult → Bool
  | .data bytes :: _ => !bytes.isEmpty
  | .interrupted :: results => arrives results
  | _ => false

/-- The read handle finds data: when it starts, when `data_received` returns to its loop,
or for the buffer that `get_buffer` returned. -/
def Receives (c : Cfg σ) : Act × Env → Prop
  | (.fire, env) =>
      c.tables.event = some .readable ∧ c.tables.bound = true ∧ c.tr.protoBuffered = false ∧
      arrives env.reads = true
  | (.ret r, env) =>
      match c.stack.head?, r with
      | some (.data false), _ => c.tr.protoBuffered = false ∧ arrives env.reads = true
      | some .getBuffer, .buffer size => 0 < size ∧ arrives env.reads = true
      | _, _ => False
  | _ => False

/-- The step registers a client transport after its `connection_made`. -/
def Registers (c : Cfg σ) : Act → Prop
  | .ret r => c.stack.head? = some .attach ∧ r ≠ .raised
  | _ => False

theorem readInto_arrives (cap : Nat) (reads : List ReadResult) :
    (readInto cap reads).1 ≠ [] ↔ 0 < cap ∧ arrives reads = true := by
  induction reads with
  | nil => simp [readInto, arrives]
  | cons r reads ih =>
      cases r with
      | data bytes =>
          simp only [readInto, arrives]
          split_ifs with zero empty
          · simp [zero]
          · have none : bytes = [] := by simpa [zero] using List.take_eq_nil_iff.mp empty
            simp [none]
          · have some : bytes ≠ [] := fun none => empty (by rw [none, List.take_nil])
            simp [empty, some, Nat.pos_of_ne_zero zero]
      | interrupted =>
          simp only [readInto, arrives]
          split_ifs with zero
          · simp [zero]
          · exact ih
      | eof | wouldBlock | error => simp [readInto, arrives]

theorem readRound_reads {c : Cfg σ} (plain : c.tr.state.tlsConn = none) (env : Env) :
    Reads c (readRound R c env) (c.tr.protoBuffered = false ∧ arrives env.reads = true) := by
  cases buffered : c.tr.protoBuffered with
  | true =>
      simp only [readRound, buffered, if_true]
      exact .inr ⟨fun h => Bool.noConfusion h.1, .call c _ rfl⟩
  | false =>
      have reads := received_reads c (readInto readBufSize env.reads)
      rw [readInto_arrives, and_iff_right (by decide : 0 < readBufSize)] at reads
      simp only [readRound, buffered, Bool.false_eq_true, if_false, recvDirect, plain, true_and]
      exact reads

theorem Reads.of_false {c d : Cfg σ} {P : Prop} (h : ¬ P) (deaf : Deaf c d) : Reads c d P :=
  .inr ⟨h, deaf⟩

theorem Reads.popped {c d : Cfg σ} (stack : List Frame) {P : Prop}
    (h : Reads { c with stack := stack } d P) :
    Reads c d P := by
  rcases h with ⟨there, hears⟩ | ⟨there, deaf⟩
  · exact .inl ⟨there, hears.plain, hears.heard, hears.paused, hears.closing, hears.ended,
      hears.watches⟩
  · exact .inr ⟨there, deaf.plain, deaf.heard, deaf.paused, deaf.closing, deaf.ended, deaf.watches,
      deaf.removed⟩

theorem ret_reads {c : Cfg σ} (plain : c.tr.state.tlsConn = none) {frame : Frame}
    {stack : List Frame} (hstack : c.stack = frame :: stack) (r : Ret) (env : Env)
    (quiet : ¬ Registers c (.ret r)) : Reads c (frame.after R { c with stack := stack } r env)
    (Receives c (.ret r, env)) := by
  have popped : Deaf { c with stack := stack } { c with stack := stack } := .refl _
  have plain : ({ c with stack := stack } : Cfg σ).tr.state.tlsConn = none := plain
  refine Reads.popped stack ?_
  simp only [Registers, Receives, hstack, List.head?_cons] at quiet ⊢
  cases frame with
  | attach =>
      have raised : r = .raised := by simpa using quiet
      subst raised
      exact .of_false id popped
  | connectionMade => exact .of_false id popped
  | pause => exact .of_false id popped
  | resume => exact .of_false id (afterWrite_deaf plain env)
  | eof => exact .of_false id (eofReceived_deaf plain _ env)
  | lost k =>
      cases k with
      | writeHandle => exact .of_false id (finishWrite_deaf plain (some true) env)
      | callConnLost | tryWrite | recvEof
      | readHandle => exact .of_false id (tcpStreamClose_deaf plain _ env)
  | data ended =>
      cases ended with
      | true => exact .of_false id (recvEof_deaf _)
      | false => exact readRound_reads (c := { c with stack := stack }) plain env
  | getBuffer =>
      cases r with
      | buffer size =>
          have reads := received_reads { c with stack := stack } (readInto size env.reads)
          rw [readInto_arrives] at reads
          exact reads
      | falsy | truthy | raised => exact .of_false id (.same rfl rfl rfl id rfl)

theorem fire_reads {c : Cfg σ} (plain : c.tr.state.tlsConn = none) {d : Dir}
    (made : c.tables.event = some d) (env : Env) : Reads c
    (fire R { c with tables := { c.tables with event := none } } d env)
      (Receives c (.fire, env)) := by
  have taken : Deaf c { c with tables := { c.tables with event := none } } :=
    .same rfl rfl rfl id rfl
  by_cases bound : c.tables.bound = true
  · cases d with
    | readable =>
        have reads := readRound_reads (R := R)
          (c := { c with tables := { c.tables with event := none } }) plain env
        have fires : fire R { c with tables := { c.tables with event := none } } .readable env =
            readRound R { c with tables := { c.tables with event := none } } env := if_pos bound
        have receives : Receives c (.fire, env) ↔ c.tr.protoBuffered = false ∧
            arrives env.reads = true :=
          ⟨fun h => h.2.2, fun h => ⟨made, bound, h⟩⟩
        rw [fires]
        rcases reads with ⟨there, hears⟩ | ⟨there, deaf⟩
        · exact .inl ⟨receives.mpr there, hears.plain, hears.heard, hears.paused, hears.closing,
            hears.ended, hears.watches⟩
        · exact .inr ⟨fun h => there (receives.mp h), taken.trans deaf⟩
    | writable =>
        have fires : fire R { c with tables := { c.tables with event := none } } .writable env =
            writeHandleRun R { c with tables := { c.tables with event := none } } env :=
            if_pos bound
        have apart : ¬ Receives c (.fire, env) := by
          intro h
          cases made.symm.trans h.1
        rw [fires]
        exact .of_false apart (taken.trans (writeHandleRun_deaf
          (c := { c with tables := { c.tables with event := none } }) plain env))
  · have skips : fire R { c with tables := { c.tables with event := none } } d env =
        { c with tables := { c.tables with event := none } } := if_neg bound
    rw [skips]
    exact .of_false (fun h => bound h.2.1) taken

/-- A transport with what its user knows: whether a pause is in force, from a
`pause_reading` before the close up to the next `resume_reading`, and whether the poller
ever watched the descriptor for data. -/
structure Watched (σ : Type) where
  cfg : Cfg σ
  held : Bool
  listened : Bool

def Watched.heldAfter (w : Watched σ) : Act → Bool
  | .call .pauseReading => w.held || !w.cfg.tr.closing
  | .call .resumeReading => false
  | _ => w.held

def watch (R : Rustls σ) (w : Watched σ) (a : Act × Env) : Option (Watched σ) :=
  (step R w.cfg a).map fun d => ⟨d, w.heldAfter a.1, w.listened || d.watches .readable⟩

/-- What pausing and resuming promise of a step. -/
structure Honours (w : Watched σ) (a : Act × Env) (t : Watched σ) : Prop where
  silent : w.held = true → t.cfg.heard = w.cfg.heard
  unwatched : t.held = true → t.cfg.watches .readable = false
  renewed : a.1 = .call .resumeReading → w.cfg.tr.closing = false → ¬ w.cfg.ended →
    t.cfg.watches .readable = true

/-- The condition on a step. -/
structure Heeds (w : Watched σ) (a : Act × Env) : Prop where
  idle : w.held = true → ¬ Receives w.cfg a
  later : w.held = true → ¬ Registers w.cfg a.1
  again : a.1 = .call .resumeReading → w.cfg.tr.closing = false → ¬ w.cfg.ended →
    w.held = true ∨ w.listened = true

instance receivesDecidable (c : Cfg σ) (a : Act × Env) : Decidable (Receives c a) := by
  unfold Receives
  split <;> first | infer_instance | (split <;> infer_instance)

instance registersDecidable (c : Cfg σ) (a : Act) : Decidable (Registers c a) := by
  unfold Registers
  split <;> infer_instance

instance endedDecidable (c : Cfg σ) : Decidable c.ended := by
  unfold Cfg.ended
  infer_instance

theorem heeds_iff {w : Watched σ} {a : Act × Env} : Heeds w a ↔
    (w.held = true → ¬ Receives w.cfg a) ∧ (w.held = true → ¬ Registers w.cfg a.1) ∧
      (a.1 = .call .resumeReading → w.cfg.tr.closing = false → ¬ w.cfg.ended →
        w.held = true ∨ w.listened = true) :=
  ⟨fun h => ⟨h.idle, h.later, h.again⟩, fun h => ⟨h.1, h.2.1, h.2.2⟩⟩

instance heedsDecidable (w : Watched σ) (a : Act × Env) : Decidable (Heeds w a) :=
  decidable_of_iff _ heeds_iff.symm

structure Watched.Valid (w : Watched σ) : Prop where
  plain : w.cfg.tr.state.tlsConn = none
  paused : w.cfg.tr.closing = false → w.cfg.tr.paused = w.held
  unwatched : w.held = true → w.cfg.watches .readable = false
  unheard : w.listened = false → w.cfg.watches .readable = false
  reading : w.listened = true → w.held = false → w.cfg.tr.closing = false → ¬ w.cfg.ended →
    w.cfg.watches .readable = true

theorem Deaf.valid {w : Watched σ} {d : Cfg σ} (h : Deaf w.cfg d) (hv : w.Valid) :
    Watched.Valid ⟨d, w.held, w.listened || d.watches .readable⟩ where
  plain := h.plain.trans hv.plain
  paused := by
    intro opened
    have before : w.cfg.tr.closing = false := by
      by_contra closing
      exact absurd (opened.symm.trans (h.closing (Bool.not_eq_false _ ▸ closing)))
        Bool.false_ne_true
    exact h.paused.trans (hv.paused before)
  unwatched := by
    intro held
    by_contra there
    exact absurd ((hv.unwatched held).symm.trans (h.watches (Bool.not_eq_false _ ▸ there)))
      Bool.false_ne_true
  unheard := by
    intro never
    exact (Bool.or_eq_false_iff.mp never).2
  reading := by
    intro listened free opened alive
    rcases Bool.or_eq_true_iff.mp listened with before | now
    · have opened' : w.cfg.tr.closing = false := by
        by_contra closing
        exact absurd (opened.symm.trans (h.closing (Bool.not_eq_false _ ▸ closing)))
          Bool.false_ne_true
      rcases h.removed (hv.reading before free opened' fun ended => alive (h.ended ended)) with
        there | closing | ended
      · exact there
      · exact absurd (opened.symm.trans closing) Bool.false_ne_true
      · exact absurd ended alive
    · exact now

/-- A step that delivers data exactly under `P`, with the flags as they were. -/
theorem Reads.honours {w : Watched σ} {a : Act × Env} {d : Cfg σ}
    (h : Reads w.cfg d (Receives w.cfg a)) (hv : w.Valid) (quiet : ¬ Registers w.cfg a.1)
    (other : a.1 ≠ .call .resumeReading) :
    (Heeds w a ↔ Honours w a ⟨d, w.held, w.listened || d.watches .readable⟩) ∧
      (Heeds w a → Watched.Valid ⟨d, w.held, w.listened || d.watches .readable⟩) := by
  have heeds : Heeds w a ↔ (w.held = true → ¬ Receives w.cfg a) :=
    ⟨Heeds.idle, fun idle => ⟨idle, fun _ => quiet, fun resumed => absurd resumed other⟩⟩
  rcases h with ⟨there, hears⟩ | ⟨there, deaf⟩
  · have unwatched : w.held = true → d.watches .readable = false :=
      fun held => hears.watches.trans (hv.unwatched held)
    have valid : Watched.Valid ⟨d, w.held, w.listened || d.watches .readable⟩ := by
      refine ⟨hears.plain.trans hv.plain, ?_, unwatched, fun never =>
        (Bool.or_eq_false_iff.mp never).2, ?_⟩
      · intro opened
        exact hears.paused.trans (hv.paused (hears.closing.symm.trans opened))
      · intro listened free opened alive
        rcases Bool.or_eq_true_iff.mp listened with before | now
        · exact hears.watches.trans (hv.reading before free (hears.closing.symm.trans opened)
            fun ended => alive (hears.ended ended))
        · exact now
    rw [heeds]
    refine ⟨?_, fun _ => valid⟩
    constructor
    · intro idle
      exact ⟨fun held => absurd there (idle held), unwatched, fun resumed => absurd resumed other⟩
    · intro honours held
      have silent : w.cfg.heard + 1 = w.cfg.heard := hears.heard.symm.trans (honours.silent held)
      exact absurd silent (Nat.succ_ne_self _)
  · have valid := deaf.valid hv
    refine ⟨iff_of_true (heeds.mpr fun _ => there) ?_, fun _ => valid⟩
    exact ⟨fun _ => deaf.heard, valid.unwatched, fun resumed => absurd resumed other⟩

theorem pause_honours {w : Watched σ} (hv : w.Valid) (env : Env) :
    Heeds w (.call .pauseReading, env) ∧
      Honours w (.call .pauseReading, env)
        ⟨pauseReading w.cfg, w.held || !w.cfg.tr.closing,
          w.listened || (pauseReading w.cfg).watches .readable⟩ ∧
      Watched.Valid
        ⟨pauseReading w.cfg, w.held || !w.cfg.tr.closing,
          w.listened || (pauseReading w.cfg).watches .readable⟩ := by
  have heeds : Heeds w (.call .pauseReading, env) :=
    ⟨fun _ => id, fun _ => id, fun h => (nomatch h)⟩
  by_cases noop : w.cfg.tr.closing = true ∨ w.held = true
  · -- nothing changes, and a pause is in force on an open transport
    have same : pauseReading w.cfg = w.cfg := by
      unfold pauseReading
      by_cases closing : w.cfg.tr.closing = true
      · rw [if_pos closing]
      · have held := (hv.paused (Bool.eq_false_iff.mpr closing)).trans (noop.resolve_left closing)
        rw [if_neg closing, if_pos held]
    have flag : (w.held || !w.cfg.tr.closing) = w.held := by
      rcases noop with closing | held
      · rw [closing, Bool.not_true, Bool.or_false]
      · rw [held, Bool.true_or]
    have listened : (w.listened || w.cfg.watches .readable) = w.listened := by
      cases hl : w.listened with
      | true => rfl
      | false => exact hv.unheard hl
    rw [same, flag, listened]
    exact ⟨heeds, ⟨fun _ => rfl, hv.unwatched, fun h => (nomatch h)⟩, hv.plain, hv.paused,
      hv.unwatched, hv.unheard, hv.reading⟩
  · obtain ⟨opened, free⟩ := not_or.mp noop
    have running : ¬ w.cfg.tr.paused = true := by
      rw [hv.paused (Bool.eq_false_iff.mpr opened)]
      exact free
    have pauses : pauseReading w.cfg =
        Cfg.streamRem { w.cfg with tr := { w.cfg.tr with paused := true } } .readable := by
      unfold pauseReading
      rw [if_neg opened, if_neg running]
    have unwatched : (pauseReading w.cfg).watches .readable = false := by
      rw [pauses]
      exact watches_streamRem_same _ _
    have flag : (w.held || !w.cfg.tr.closing) = true := by
      rw [Bool.eq_false_iff.mpr opened]
      exact Bool.or_true _
    rw [flag, unwatched, Bool.or_false]
    refine ⟨heeds, ⟨fun _ => pauseReading_heard _, fun _ => unwatched, fun h => (nomatch h)⟩,
      ?_, ?_, fun _ => unwatched, fun _ => unwatched, fun _ held => (nomatch held)⟩
    · rw [pauses]
      exact hv.plain
    · rw [pauses]
      exact fun _ => rfl

theorem resume_honours {w : Watched σ} (hv : w.Valid) (env : Env) :
    (Heeds w (.call .resumeReading, env) ↔ Honours w (.call .resumeReading, env)
        ⟨resumeReading w.cfg, false, w.listened || (resumeReading w.cfg).watches .readable⟩) ∧
      Watched.Valid
        ⟨resumeReading w.cfg, false, w.listened || (resumeReading w.cfg).watches .readable⟩ := by
  have heeds : Heeds w (.call .resumeReading, env) ↔
      (w.cfg.tr.closing = false → ¬ w.cfg.ended → w.held = true ∨ w.listened = true) :=
    ⟨fun h => h.again rfl, fun again => ⟨fun _ => id, fun _ => id, fun _ => again⟩⟩
  have honours : Honours w (.call .resumeReading, env)
      ⟨resumeReading w.cfg, false, w.listened || (resumeReading w.cfg).watches .readable⟩ ↔
        (w.cfg.tr.closing = false → ¬ w.cfg.ended →
          (resumeReading w.cfg).watches .readable = true) :=
    ⟨fun h => h.renewed rfl, fun renewed =>
      ⟨fun _ => resumeReading_heard _, fun h => (nomatch h), fun _ => renewed⟩⟩
  rw [heeds, honours]
  by_cases closing : w.cfg.tr.closing = true
  · have same : resumeReading w.cfg = w.cfg := if_pos closing
    have shut : ∀ {P : Prop}, w.cfg.tr.closing = false → P := fun opened =>
      absurd (opened.symm.trans closing) Bool.false_ne_true
    rw [same]
    refine ⟨iff_of_true shut shut, hv.plain, shut, fun h => (nomatch h), ?_, fun _ _ => shut⟩
    exact fun never => (Bool.or_eq_false_iff.mp never).2
  · have opened := Bool.eq_false_iff.mpr closing
    by_cases held : w.held = true
    · have paused : w.cfg.tr.paused = true := (hv.paused opened).trans held
      have resumes : resumeReading w.cfg =
          Cfg.streamAdd { w.cfg with tr := { w.cfg.tr with paused := false } } .readable := by
        unfold resumeReading
        rw [if_neg closing, if_pos paused]
      have watches : (resumeReading w.cfg).watches .readable = true := by
        rw [resumes]
        exact watches_streamAdd_same _ _
      refine ⟨iff_of_true (fun _ _ => .inl held) fun _ _ => watches, ?_, ?_, fun h =>
        (nomatch h), ?_, fun _ _ _ _ => watches⟩
      · rw [resumes]
        exact hv.plain
      · rw [resumes]
        exact fun _ => rfl
      · exact fun never => (Bool.or_eq_false_iff.mp never).2
    · have running : ¬ w.cfg.tr.paused = true := by
        rw [hv.paused opened]
        exact held
      have same : resumeReading w.cfg = w.cfg := by
        unfold resumeReading
        rw [if_neg closing, if_neg running]
      have free := Bool.eq_false_iff.mpr held
      rw [same]
      refine ⟨?_, hv.plain, fun _ => (hv.paused opened).trans free, fun h => (nomatch h),
        fun never => (Bool.or_eq_false_iff.mp never).2, ?_⟩
      · constructor
        · intro again opened alive
          exact hv.reading ((again opened alive).resolve_left held) free opened alive
        · intro renewed opened alive
          refine .inr ?_
          by_contra never
          exact absurd ((hv.unheard (Bool.eq_false_iff.mpr never)).symm.trans
            (renewed opened alive)) Bool.false_ne_true
      · intro listened _ opened alive
        rcases Bool.or_eq_true_iff.mp listened with before | now
        · exact hv.reading before free opened alive
        · exact now

theorem register_honours {w : Watched σ} {a : Act × Env} (hv : w.Valid) (stack : List Frame)
    (registers : Registers w.cfg a.1) :
    (Heeds w a ↔ Honours w a ⟨register { w.cfg with stack := stack }, w.held, w.listened || true⟩) ∧
      (Heeds w a → Watched.Valid ⟨register { w.cfg with stack := stack }, w.held,
        w.listened || true⟩) := by
  have watches : (register { w.cfg with stack := stack }).watches .readable = true :=
    watches_streamAdd_same _ _
  obtain ⟨act, env⟩ := a
  cases act with
  | ret r =>
      have deaf : ¬ Receives w.cfg (.ret r, env) := by
        simp only [Receives, registers.1]
        exact id
      have heeds : Heeds w (.ret r, env) ↔ w.held = false := by
        constructor
        · intro h
          by_contra held
          exact h.later (Bool.not_eq_false _ ▸ held) registers
        · intro free
          refine ⟨fun _ => deaf, fun held => ?_, fun h => (nomatch h)⟩
          exact absurd (free.symm.trans held) Bool.false_ne_true
      have shut : ∀ {P : Prop}, w.held = false → w.held = true → P := fun free held =>
        absurd (free.symm.trans held) Bool.false_ne_true
      rw [heeds]
      constructor
      · constructor
        · intro free
          exact ⟨fun _ => rfl, shut free, fun h => (nomatch h)⟩
        · intro honours
          by_contra held
          have unwatched := honours.unwatched (Bool.not_eq_false _ ▸ held)
          exact absurd (unwatched.symm.trans watches) Bool.false_ne_true
      · intro free
        refine ⟨hv.plain, hv.paused, shut free, fun never => ?_, fun _ _ _ _ => watches⟩
        rw [Bool.or_true] at never
        cases never
  | call | server | poll | fire | made => cases registers

theorem watch_honours {w t : Watched σ} {a : Act × Env} (hv : w.Valid) (h : watch R w a = some t) :
    (Heeds w a ↔ Honours w a t) ∧ (Heeds w a → t.Valid) := by
  obtain ⟨d, hstep, rfl⟩ := Option.map_eq_some_iff.mp h
  obtain ⟨act, env⟩ := a
  obtain ⟨-, stepped⟩ := step_stepped hstep
  cases stepped with
  | call m exposed =>
      by_cases pause : m = .pauseReading
      · subst pause
        obtain ⟨heeds, honours, valid⟩ := pause_honours hv env
        exact ⟨iff_of_true heeds honours, fun _ => valid⟩
      by_cases resume : m = .resumeReading
      · subst resume
        obtain ⟨same, valid⟩ := resume_honours hv env
        exact ⟨same, fun _ => valid⟩
      have held : w.heldAfter (.call m) = w.held := by
        unfold Watched.heldAfter
        split
        · exact absurd (Act.call.inj ‹_›) pause
        · exact absurd (Act.call.inj ‹_›) resume
        · rfl
      have reads : Reads w.cfg (m.run R w.cfg env) (Receives w.cfg (.call m, env)) :=
        .of_false id (method_deaf hv.plain env pause resume)
      rw [held]
      exact reads.honours hv id fun h => resume (Act.call.inj h)
  | server aborts bound listed =>
      have apart : ∀ m : Method, m = .abort ∨ m = .close → m ≠ .pauseReading ∧
          m ≠ .resumeReading := by
        rintro m (rfl | rfl) <;> decide
      obtain ⟨pause, resume⟩ := apart (if aborts then .abort else .close)
        (by cases aborts <;> decide)
      have reads : Reads w.cfg (Method.run R w.cfg env (if aborts then .abort else .close))
          (Receives w.cfg (.server aborts, env)) :=
          .of_false id (method_deaf hv.plain env pause resume)
      exact reads.honours hv id Act.noConfusion
  | poll dir free event interest =>
      have reads : Reads w.cfg { w.cfg with tables := { w.cfg.tables with event := some dir } }
          (Receives w.cfg (.poll dir, env)) := .of_false id (.same rfl rfl rfl id rfl)
      exact reads.honours hv id Act.noConfusion
  | fire dir free event quiet => exact (fire_reads hv.plain event env).honours hv id Act.noConfusion
  | made free pending =>
      have called : Deaf w.cfg (Cfg.call { w.cfg with
          tables := { w.cfg.tables with pendingMade := false }
          exposed := true } .connectionMade .connectionMade) :=
        .logs [.callback .connectionMade _] rfl rfl rfl rfl id rfl
      have reads : Reads w.cfg _ (Receives w.cfg (.made, env)) := .of_false id called
      exact reads.honours hv id Act.noConfusion
  | ret r frame stack hstack =>
      by_cases registers : Registers w.cfg (.ret r)
      · have attach : frame = .attach := by
          have top := registers.1
          rw [hstack] at top
          exact Option.some.inj top
        subst attach
        have after : Frame.attach.after R { w.cfg with stack := stack } r env =
            register { w.cfg with stack := stack } := if_neg registers.2
        have watches : (register { w.cfg with stack := stack }).watches .readable = true :=
          watches_streamAdd_same _ _
        rw [after, watches]
        exact register_honours (a := (.ret r, env)) hv stack registers
      · exact (ret_reads hv.plain hstack r env registers).honours hv registers Act.noConfusion

theorem PlainStart.watched {c : Cfg σ} (h : PlainStart R c) :
    Watched.Valid ⟨c, false, c.watches .readable⟩ := by
  cases h with
  | accepted lfd protoBuffered timeout =>
      exact ⟨rfl, fun _ => rfl, fun h => (nomatch h), fun h => h, fun h _ _ _ => h⟩
  | connected protoBuffered timeout =>
      exact ⟨rfl, fun _ => rfl, fun h => (nomatch h), fun h => h, fun h _ _ _ => h⟩

/-- In a run from a new plain connection every step honours the pauses exactly when every
step meets the condition. -/
theorem pauses_honoured (R : Rustls σ) (actions : List (Act × Env)) (start : Cfg σ) (t : Watched σ)
    (hstart : PlainStart R start)
    (h : Runs.run (watch R) ⟨start, false, start.watches .readable⟩ actions = some t) :
    Runs.Guarded (watch R) (fun w a => ∀ u, watch R w a = some u → Honours w a u)
        ⟨start, false, start.watches .readable⟩ actions ↔
      Runs.Guarded (watch R) Heeds ⟨start, false, start.watches .readable⟩ actions := by
  refine (Runs.guarded_congr_kept (I := Watched.Valid) ?_ ?_ h hstart.watched).symm
  · intro w a u hv heeds first
    exact (watch_honours hv first).2 heeds
  · intro w a u hv first
    rw [(watch_honours hv first).1]
    constructor
    · intro honours v hv'
      obtain rfl := Option.some.inj (first.symm.trans hv')
      exact honours
    · intro all
      exact all u first

/-- An accepted connection pauses in `connection_made`, resumes from outside, and is read. -/
def pausedThenRead : List (Act × Env) :=
  [(.made, ⟨[], [], 0⟩), (.call .pauseReading, ⟨[], [], 0⟩), (.ret .falsy, ⟨[], [], 0⟩),
    (.call .resumeReading, ⟨[], [], 0⟩), (.poll .readable, ⟨[], [], 0⟩),
    (.fire, ⟨[.data [1]], [], 0⟩)]

theorem pauses_honoured_resumed :
    Runs.Guarded (watch noTls) (fun w a => ∀ u, watch noTls w a = some u → Honours w a u)
      ⟨accepted 3 none false 1000, false, true⟩ pausedThenRead :=
  (pauses_honoured noTls pausedThenRead (accepted 3 none false 1000) _
    (.accepted 3 false 1000) rfl).mpr (by decide)

/-- `data_received` pauses and is called again when it returns; a client that pauses in
`connection_made` is registered for reading when that returns. -/
theorem data_after_pause :
    (Runs.run (watch noTls) ⟨accepted 3 none false 1000, false, true⟩
        [(.made, ⟨[], [], 0⟩), (.ret .falsy, ⟨[], [], 0⟩), (.poll .readable, ⟨[], [], 0⟩),
          (.fire, ⟨[.data [1]], [], 0⟩), (.call .pauseReading, ⟨[], [], 0⟩)]).map
            (fun w => (w.held, w.cfg.heard)) = some (true, 1) ∧
      (Runs.run (watch noTls) ⟨accepted 3 none false 1000, false, true⟩
        [(.made, ⟨[], [], 0⟩), (.ret .falsy, ⟨[], [], 0⟩), (.poll .readable, ⟨[], [], 0⟩),
          (.fire, ⟨[.data [1]], [], 0⟩), (.call .pauseReading, ⟨[], [], 0⟩),
          (.ret .falsy, ⟨[.data [2]], [], 0⟩)]).map (fun w => (w.held, w.cfg.heard)) = some
          (true, 2) ∧
      (Runs.run (watch noTls) ⟨connected noTls none false 1000, false, false⟩
        [(.call .pauseReading, ⟨[], [], 0⟩), (.ret .falsy, ⟨[], [], 0⟩)]).map
          (fun w => (w.held, w.cfg.watches .readable)) = some (true, true) :=
  ⟨rfl, rfl, rfl⟩

end TokioLoop.Tcp
