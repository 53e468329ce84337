import TokioLoop.TcpBorrow

/-!
What is left of a plain transport once `connection_lost` was delivered. The code removes
the transport from the tables when the callback has returned; from then on its methods
should neither register the descriptor again nor write to it.
-/
namespace TokioLoop.Tcp

open Runs ByteLedger

variable {σ : Type} {R : Rustls σ}

/-- No byte reaches the kernel after a call of `connection_lost`. -/
def Hushed (log : List Obs) : Prop :=
  log.Pairwise fun earlier later => earlier.isLost = true → later.kernelBytes = []

/-- `connection_lost` was called, and every call of it has returned. -/
def Cfg.Delivered (c : Cfg σ) : Prop := c.lost ∧ ∀ k, Frame.lost k ∉ c.stack

structure NothingLeft (c : Cfg σ) : Prop where
  gone : c.panicked = false → c.Delivered →
    c.tables.bound = false ∧ c.tables.listed = false ∧ c.tables.interest = none
  hushed : Hushed c.log

/-- After `connection_lost`, a write that reaches neither the socket nor the poller. -/
def WriteInTime (c : Cfg σ) (data : Bytes) (env : Env) : Prop :=
  c.lost → c.tr.weof = true ∨ data = [] ∨ c.borrowed = true ∨ c.tr.state.writeBufDsize ≠ 0 ∨
    env.nextWrite.isFatal = true

/-- With nothing in the buffer `abort` leaves `WRITABLE` as it is. -/
def AbortInTime (c : Cfg σ) : Prop :=
  c.watches .writable = true → 0 < c.tr.state.writeBufDsize ∨ ∃ k, Frame.lost k ∈ c.stack

/-- The condition on a step. -/
def InTime (c : Cfg σ) : Act × Env → Prop
  | (.call (.write data), env) => WriteInTime c data env
  | (.call (.writelines data), env) => WriteInTime c data.flatten env
  | (.call .abort, _) | (.server true, _) => AbortInTime c
  | (.call .callConnectionLost, _) => c.lost
  | (.ret r, _) =>
      match c.stack with
      | .attach :: _ => c.tr.closing = true → r = .raised
      | .eof :: _ => r ≠ .truthy → c.watches .readable = false
      | _ => True
  | _ => True

/-- The invariant behind it: a closing transport is not read, and from the call of
`connection_lost` on `WRITABLE` is registered only where the write handle takes it off
afterwards, or where the code is about to panic. -/
structure Settling (c : Cfg σ) : Prop where
  plain : c.tr.state.tlsConn = none
  noPending : c.tr.state.tlsPendingClose = false
  size : c.tr.state.writeBufDsize = held c.tr.state.writeBuf
  lfd : c.tables.listed = true → c.tr.lfd.isSome = true
  listed : c.tables.listed = true → c.tables.bound = true
  closing : c.lost → c.tr.closing = true
  frames : ∀ k, Frame.lost k ∈ c.stack → c.lost
  deaf : c.tr.closing = true → c.watches .readable = false
  idle : ¬ c.lost → c.tables.bound = false → c.watches .writable = true →
      0 < c.tr.state.writeBufDsize
  ending : c.lost → c.watches .writable = true →
    (Frame.lost .writeHandle ∈ c.stack ∧ c.tr.state.writeBuf = []) ∨
      (Frame.lost .tryWrite ∈ c.stack ∧ c.tables.bound = true)
  unbound : c.Delivered → c.tables.bound = false
  hushed : Hushed c.log

/-- The invariant of every run; a panic ends the process. -/
def Settled (c : Cfg σ) : Prop := Settling c ∨ c.panicked = true ∧ Hushed c.log

theorem borrowed_of_tryWrite {c : Cfg σ} (h : Frame.lost .tryWrite ∈ c.stack) : c.borrowed = true :=
  List.any_eq_true.mpr ⟨_, h, rfl⟩

theorem Settled.nothingLeft {c : Cfg σ} (h : Settled c) : NothingLeft c := by
  rcases h with h | ⟨panicked, hushed⟩
  · refine ⟨fun _ delivered => ?_, h.hushed⟩
    have unbound := h.unbound delivered
    have unlisted : c.tables.listed = false := by
      by_contra listed
      rw [h.listed (Bool.not_eq_false _ ▸ listed)] at unbound
      cases unbound
    have silent : c.watches .writable = false := by
      by_contra writable
      rcases h.ending delivered.1 (Bool.not_eq_false _ ▸ writable) with ⟨frame, -⟩ | ⟨frame, -⟩
      · exact delivered.2 _ frame
      · exact delivered.2 _ frame
    exact ⟨unbound, unlisted, unregistered_of_watches (h.deaf (h.closing delivered.1)) silent⟩
  · refine ⟨fun running => ?_, hushed⟩
    rw [panicked] at running
    cases running

theorem hushed_append {log obs : List Obs} (h : Hushed log)
    (quiet : (∀ o ∈ log, o.isLost = false) ∧ (∀ o ∈ obs, o.isLost = false) ∨
      ∀ o ∈ obs, o.kernelBytes = []) :
    Hushed (log ++ obs) := by
  rcases quiet with ⟨before, now⟩ | silent
  · refine List.pairwise_append.mpr ⟨h, List.pairwise_of_forall_mem_list fun a ha b _ lost => ?_,
      fun a ha b _ lost => ?_⟩
    · rw [now a ha] at lost
      cases lost
    · rw [before a ha] at lost
      cases lost
  · refine List.pairwise_append.mpr ⟨h, ?_, fun _ _ b hb _ => silent b hb⟩
    exact List.pairwise_of_forall_mem_list fun _ _ b hb _ => silent b hb

theorem not_isLost_of_not_lost {c : Cfg σ} (h : ¬ c.lost) : ∀ o ∈ c.log, o.isLost = false := by
  intro o ho
  refine Bool.eq_false_iff.mpr fun lost => h ?_
  rw [lost_iff_losses, Cfg.losses, List.countP_pos_iff]
  exact ⟨o, ho, lost⟩

/-- What a piece of code without a call of `connection_lost` logs. -/
structure Murmurs (c d : Cfg σ) (obs : List Obs) : Prop where
  log : d.log = c.log ++ obs
  alive : ∀ o ∈ obs, o.isLost = false
  late : c.lost → ∀ o ∈ obs, o.kernelBytes = []

theorem Murmurs.none {c d : Cfg σ} (h : d.log = c.log) : Murmurs c d [] :=
  ⟨h.trans (List.append_nil _).symm, List.forall_mem_nil _, fun _ => List.forall_mem_nil _⟩

theorem Murmurs.one {c d : Cfg σ} {o : Obs} (h : d.log = c.log ++ [o]) (alive : o.isLost = false)
    (silent : o.kernelBytes = []) : Murmurs c d [o] :=
  ⟨h, List.forall_mem_singleton.mpr alive, fun _ => List.forall_mem_singleton.mpr silent⟩

theorem Murmurs.lost_iff {c d : Cfg σ} {obs : List Obs} (h : Murmurs c d obs) : d.lost ↔
    c.lost := by
  rw [lost_iff_losses, lost_iff_losses, losses_append h.log h.alive]

theorem Murmurs.hushed {c d : Cfg σ} {obs : List Obs} (h : Murmurs c d obs)
    (before : Hushed c.log) : Hushed d.log := by
  rw [h.log]
  by_cases lost : c.lost
  · exact hushed_append before (.inr (h.late lost))
  · exact hushed_append before (.inl ⟨not_isLost_of_not_lost lost, h.alive⟩)

structure Passes (c d : Cfg σ) : Prop where
  plain : d.tr.state.tlsConn = c.tr.state.tlsConn
  pending : d.tr.state.tlsPendingClose = c.tr.state.tlsPendingClose
  size : d.tr.state.writeBufDsize = held d.tr.state.writeBuf
  lfd : d.tr.lfd = c.tr.lfd
  listed : d.tables.listed = c.tables.listed
  bound : d.tables.bound = c.tables.bound ∨ ¬ c.lost ∧ d.tables.bound = true
  log : ∃ obs, Murmurs c d obs
  frames : ∀ k, Frame.lost k ∈ d.stack ↔ Frame.lost k ∈ c.stack
  closing : c.tr.closing = true → d.tr.closing = true
  deaf : d.tr.closing = true → d.watches .readable = false
  idle : ¬ c.lost → d.tables.bound = false → d.watches .writable = true →
      0 < d.tr.state.writeBufDsize
  late : c.lost → (d.watches .writable = true → c.watches .writable = true) ∧
    (c.tr.state.writeBuf = [] → d.tr.state.writeBuf = [])

theorem Settling.pass {c d : Cfg σ} (s : Settling c) (h : Passes c d) : Settling d := by
  obtain ⟨obs, murmurs⟩ := h.log
  have lost := murmurs.lost_iff
  have bound : c.lost → d.tables.bound = c.tables.bound :=
    fun lost => h.bound.resolve_right fun up => up.1 lost
  refine
    { plain := h.plain.trans s.plain
      noPending := h.pending.trans s.noPending
      size := h.size
      lfd := fun listed => ?_
      listed := fun listed => ?_
      closing := fun late => h.closing (s.closing (lost.mp late))
      frames := fun k hk => lost.mpr (s.frames k ((h.frames k).mp hk))
      deaf := h.deaf
      idle := fun alive => h.idle fun late => alive (lost.mpr late)
      ending := fun late writable => ?_
      unbound := fun delivered => ?_
      hushed := murmurs.hushed s.hushed }
  · rw [h.lfd]
    exact s.lfd (h.listed ▸ listed)
  · rcases h.bound with same | ⟨-, up⟩
    · exact same.trans (s.listed (h.listed ▸ listed))
    · exact up
  · obtain ⟨watched, empty⟩ := h.late (lost.mp late)
    rcases s.ending (lost.mp late) (watched writable) with ⟨frame, none⟩ | ⟨frame, there⟩
    · exact .inl ⟨(h.frames _).mpr frame, empty none⟩
    · exact .inr ⟨(h.frames _).mpr frame, (bound (lost.mp late)).trans there⟩
  · have before : c.Delivered := ⟨lost.mp delivered.1, fun k hk =>
      delivered.2 k ((h.frames k).mpr hk)⟩
    exact (bound before.1).trans (s.unbound before)

/-- Code that leaves the state as it is and registers nothing. -/
theorem Settling.quiet {c d : Cfg σ} (s : Settling c) (state : d.tr.state = c.tr.state)
    (lfd : d.tr.lfd = c.tr.lfd) (listed : d.tables.listed = c.tables.listed)
    (bound : d.tables.bound = c.tables.bound) (obs : List Obs)
    (log : Murmurs c d obs) (frames : ∀ k, Frame.lost k ∈ d.stack ↔ Frame.lost k ∈ c.stack)
    (watches : ∀ e, d.watches e = true → c.watches e = true)
    (closing : c.tr.closing = true → d.tr.closing = true)
    (deaf : d.tr.closing = true → d.watches .readable = false) : Settling d := by
  refine s.pass
    { plain := by rw [state]
      pending := by rw [state]
      size := by rw [state]; exact s.size
      lfd := lfd
      listed := listed
      bound := .inl bound
      log := ⟨obs, log⟩
      frames := frames
      closing := closing
      deaf := deaf
      idle := fun alive unbound writable => ?_
      late := fun _ => ⟨watches _, fun empty => by rw [state]; exact empty⟩ }
  rw [state]
  exact s.idle alive (bound ▸ unbound) (watches _ writable)

theorem Settling.deaf_of {c d : Cfg σ} (s : Settling c) (closing : d.tr.closing = c.tr.closing)
    (watches : ∀ e, d.watches e = true → c.watches e = true) :
    d.tr.closing = true → d.watches .readable = false := by
  intro closed
  refine Bool.eq_false_iff.mpr fun readable => ?_
  have deaf := s.deaf (closing ▸ closed)
  rw [watches _ readable] at deaf
  cases deaf

/-- A first call with `WRITABLE` registered comes from the write handle with an empty
buffer, or from a direct write that failed. -/
theorem Settling.lostCall {c : Cfg σ} (s : Settling c) (closing : c.tr.closing = true)
    (err : Option String) {k : AfterLost} (ending : ¬ c.lost → c.watches .writable = true →
      (k = .writeHandle ∧ c.tr.state.writeBuf = []) ∨ (k = .tryWrite ∧ c.tables.bound = true)) :
    Settling (callConnLost c err k) where
  plain := s.plain
  noPending := s.noPending
  size := s.size
  lfd := s.lfd
  listed := s.listed
  closing _ := closing
  frames _ _ := lost_call c err (.lost k)
  deaf := s.deaf
  idle alive := absurd (lost_call c err (.lost k)) alive
  ending _ writable := by
    by_cases before : c.lost
    · rcases s.ending before writable with ⟨frame, empty⟩ | ⟨frame, bound⟩
      · exact .inl ⟨List.mem_cons_of_mem _ frame, empty⟩
      · exact .inr ⟨List.mem_cons_of_mem _ frame, bound⟩
    · rcases ending before writable with ⟨rfl, empty⟩ | ⟨rfl, bound⟩
      · exact .inl ⟨List.mem_cons_self, empty⟩
      · exact .inr ⟨List.mem_cons_self, bound⟩
  unbound delivered := absurd List.mem_cons_self (delivered.2 k)
  hushed := hushed_append s.hushed (.inr (List.forall_mem_singleton.mpr rfl))

/-- Begin to close: `closing` is set and the descriptor no longer read. -/
theorem Settling.startClose {c : Cfg σ} (s : Settling c) :
    Settling (c.setClosing.streamRem .readable) :=
  s.quiet rfl rfl rfl rfl [] (.none rfl) (fun _ => Iff.rfl)
      (fun _ h => watches_streamRem (c := c.setClosing) h)
    (fun _ => rfl) fun _ => watches_streamRem_same c.setClosing .readable

theorem Settling.stopWriting {c : Cfg σ} (s : Settling c) : Settling (c.streamRem .writable) :=
  s.quiet rfl rfl rfl rfl [] (.none rfl) (fun _ => Iff.rfl) (fun _ => watches_streamRem) id
    (s.deaf_of rfl fun _ => watches_streamRem)

theorem Settling.stopReading {c : Cfg σ} (s : Settling c) : Settling (c.streamRem .readable) :=
  s.quiet rfl rfl rfl rfl [] (.none rfl) (fun _ => Iff.rfl) (fun _ => watches_streamRem) id
    fun _ => watches_streamRem_same c .readable

/-- A call of another method of the protocol. -/
theorem Settling.call {c : Cfg σ} (s : Settling c) {e : Callback}
    (alive : ∀ err, e ≠ .connectionLost err) {frame : Frame} (other : ∀ k, frame ≠ .lost k) :
    Settling (c.call e frame) := by
  refine s.quiet rfl rfl rfl rfl _ (.one (o := .callback e c.tr.state.writeBuf) rfl ?_ rfl)
    (fun k => ?_) (fun _ => id) id
    s.deaf
  · cases e with
    | connectionLost err => exact absurd rfl (alive err)
    | _ => rfl
  · exact List.mem_cons.trans (or_iff_right (other k).symm)

theorem Settling.emit {c : Cfg σ} (s : Settling c) {o : Obs} (alive : o.isLost = false)
    (silent : o.kernelBytes = []) : Settling (c.emit o) :=
  s.quiet rfl rfl rfl rfl _ (.one rfl alive silent) (fun _ => Iff.rfl) (fun _ => id) id s.deaf

/-- Code that touches only what the invariant does not look at. -/
theorem Settling.of_eq {c d : Cfg σ} (s : Settling c) (state : d.tr.state = c.tr.state)
    (lfd : d.tr.lfd = c.tr.lfd) (closing : d.tr.closing = c.tr.closing)
    (interest : d.tables.interest = c.tables.interest) (listed : d.tables.listed = c.tables.listed)
    (bound : d.tables.bound = c.tables.bound) (stack : d.stack = c.stack) (log : d.log = c.log) :
    Settling d := by
  have watches : ∀ e, d.watches e = c.watches e := fun e => by rw [Cfg.watches, interest]; rfl
  refine s.quiet state lfd listed bound [] (.none log) (fun k => by rw [stack])
    (fun e h => watches e ▸ h) (fun h => closing.trans h) fun h => ?_
  rw [watches]
  exact s.deaf (closing ▸ h)

theorem close_settled {c : Cfg σ} (s : Settling c) (env : Env) : Settled (close R c env) := by
  have plain : c.setClosing.tr.state.tlsConn = none := s.plain
  simp only [close, plain, closePlain]
  split_ifs with closing held drained
  · exact .inl s
  · exact .inr ⟨rfl, s.hushed⟩
  · refine .inl (s.startClose.stopWriting.lostCall rfl none fun _ writable => ?_)
    rw [watches_streamRem_same] at writable
    cases writable
  · exact .inl s.startClose

theorem abort_settled {c : Cfg σ} (s : Settling c) (good : AbortInTime c) : Settled (abort c) := by
  have stopped : Settling (if 0 < c.tr.state.writeBufDsize then c.streamRem .writable else c) := by
    split_ifs
    · exact s.stopWriting
    · exact s
  have silent : ¬ c.lost →
      (if 0 < c.tr.state.writeBufDsize then c.streamRem .writable
        else c).watches .writable = false := by
    intro alive
    refine Bool.eq_false_iff.mpr fun writable => ?_
    split_ifs at writable with waiting
    · rw [watches_streamRem_same] at writable
      cases writable
    · rcases good writable with more | ⟨k, frame⟩
      · exact waiting more
      · exact alive (s.frames k frame)
  have same : (if 0 < c.tr.state.writeBufDsize then c.streamRem .writable else c).log = c.log := by
    split_ifs <;> rfl
  simp only [abort]
  generalize hd : (if 0 < c.tr.state.writeBufDsize then c.streamRem .writable else c) = d
    at stopped silent same ⊢
  have alive : d.lost ↔ c.lost := (Murmurs.none same).lost_iff
  split_ifs with held closing
  · exact .inr ⟨rfl, s.hushed⟩
  · refine .inl (stopped.lostCall closing none fun fresh writable => ?_)
    rw [silent fun lost => fresh (alive.mpr lost)] at writable
    cases writable
  · refine .inl (stopped.startClose.lostCall rfl none fun fresh writable => ?_)
    have writable : d.watches .writable = true := watches_streamRem (c := d.setClosing) writable
    rw [silent fun lost => fresh (alive.mpr lost)] at writable
    cases writable

/-- A chunk goes to the end of the buffer. -/
theorem Settling.enqueue {c d : Cfg σ} (s : Settling c) {data : Bytes} (more : data ≠ [])
    (late : c.lost → c.tr.state.writeBufDsize ≠ 0)
    (state : d.tr.state = { c.tr.state with
      writeBuf := c.tr.state.writeBuf ++ [data]
      writeBufDsize := c.tr.state.writeBufDsize + data.length })
    (lfd : d.tr.lfd = c.tr.lfd) (closing : d.tr.closing = c.tr.closing)
    (tables : d.tables = c.tables ∨ c.tr.state.writeBufDsize = 0 ∧
      d.tables = (c.streamAdd .writable).tables)
    (stack : d.stack = c.stack) (log : d.log = c.log) : Settling d := by
  have readable : d.watches .readable = c.watches .readable := by
    rcases tables with same | ⟨-, added⟩
    · rw [Cfg.watches, same]
      rfl
    · rw [Cfg.watches, added]
      exact watches_streamAdd (c := c) (by simp)
  have rest : d.tables.listed = c.tables.listed ∧ d.tables.bound = c.tables.bound := by
    rcases tables with same | ⟨-, added⟩
    · rw [same]
      exact ⟨rfl, rfl⟩
    · rw [added]
      exact ⟨rfl, rfl⟩
  refine s.pass
    { plain := by rw [state]
      pending := by rw [state]
      size := ?_
      lfd := lfd
      listed := rest.1
      bound := .inl rest.2
      log := ⟨[], .none log⟩
      frames := fun k => by rw [stack]
      closing := closing.trans
      deaf := fun closed => readable.trans (s.deaf (closing ▸ closed))
      idle := fun _ _ _ => ?_
      late := fun lost => ⟨fun writable => ?_, fun empty => ?_⟩ }
  · rw [state]
    simp [s.size]
  · rw [state]
    exact Nat.add_pos_right _ (List.length_pos_of_ne_nil more)
  · rcases tables with same | ⟨zero, -⟩
    · rw [Cfg.watches, same] at writable
      exact writable
    · exact absurd zero (late lost)
  · refine absurd ?_ (late lost)
    rw [s.size, empty]
    rfl

theorem pushBack_settling {c : Cfg σ} (s : Settling c) {data : Bytes} (more : data ≠ [])
    (late : c.lost → c.tr.state.writeBufDsize ≠ 0) : Settling (pushBack c data) := by
  apply pushBack_rule
  · intro paused
    simp only [grow]
    split_ifs with zero
    · exact s.enqueue more late rfl rfl rfl (.inr ⟨zero, rfl⟩) rfl rfl
    · exact s.enqueue more late rfl rfl rfl (.inl rfl) rfl rfl
  · intro d grown
    exact grown.call (fun _ => Callback.noConfusion) fun _ => Frame.noConfusion

/-- A write on a transport whose connection is not lost may reach the socket. -/
theorem Settling.wrote {c : Cfg σ} (s : Settling c) (alive : ¬ c.lost) (data : Bytes)
    (r : WriteResult) : Settling (c.emit (.write data r)) :=
  s.quiet rfl rfl rfl rfl [.write data r] ⟨rfl, List.forall_mem_singleton.mpr rfl, fun lost =>
      absurd lost alive⟩
    (fun _ => Iff.rfl) (fun _ => id) id s.deaf

theorem directWrite_settling {c : Cfg σ} (s : Settling c) {data : Bytes} (more : data ≠ [])
    (zero : c.tr.state.writeBufDsize = 0) {r : WriteResult} (good : c.lost → r.isFatal = true) :
    Settling (directWrite c data r) := by
  have alive : (c.emit (.write data r)).lost ↔ c.lost := lost_emit rfl
  have quiet : r.isFatal = false → ¬ c.lost := fun calm lost => by
    rw [good lost] at calm
    cases calm
  have buffered : ∀ rest : Bytes, rest ≠ [] → r.isFatal = false → Settling
      (pushBack (c.emit (.write data r)) rest) :=
    fun rest some calm => pushBack_settling (s.wrote (quiet calm) data r) some fun lost =>
      absurd (alive.mp lost) (quiet calm)
  cases r with
  | ok n =>
      simp only [directWrite]
      split_ifs with whole
      · exact s.wrote (quiet rfl) data _
      · exact buffered _ (fun gone => whole (List.drop_eq_nil_iff.mp gone)) rfl
  | interrupted | wouldBlock => exact buffered data more rfl
  | fatal text =>
      have failed : Settling (c.emit (.write data (.fatal text))) := s.emit rfl rfl
      -- without the transport in the table nothing is registered, with it the return panics
      have ending : ¬ (c.emit (.write data (.fatal text))).lost → ∀ d : Cfg σ,
          (d.watches .writable = true → c.watches .writable = true) →
          d.tables.bound = c.tables.bound → d.watches .writable = true →
          AfterLost.tryWrite = .tryWrite ∧ d.tables.bound = true := by
        intro fresh d watched same writable
        refine ⟨rfl, ?_⟩
        by_contra unbound
        have waiting := s.idle (fun lost => fresh (alive.mpr lost))
          (Bool.eq_false_iff.mpr (same ▸ unbound)) (watched writable)
        rw [zero] at waiting
        cases waiting
      simp only [directWrite]
      split_ifs with closing
      · exact failed.lostCall closing _ fun fresh writable => .inr (ending fresh _ id rfl writable)
      · exact failed.startClose.lostCall rfl _ fun fresh writable => .inr
          (ending fresh _ (watches_streamRem (c := (c.emit (.write data (.fatal text))).setClosing))
            rfl writable)

theorem tryWrite_settled {c : Cfg σ} (s : Settling c) {data : Bytes} {env : Env}
    (good : WriteInTime c data env) : Settled (tryWrite c data env) := by
  have alive : (c.emit (.accepted data)).lost ↔ c.lost := lost_emit rfl
  have plain : ((c.emit (.accepted data)).tr.state.tlsConn.isSome) = false := by
    rw [Cfg.emit, s.plain]
    rfl
  have offered : Settling (c.emit (.accepted data)) := s.emit rfl rfl
  simp only [tryWrite, plain, Bool.false_eq_true, if_false]
  split_ifs with weof empty held zero
  · exact .inl (s.emit rfl rfl)
  · exact .inl s
  · exact .inr ⟨rfl, s.hushed⟩
  · refine .inl (directWrite_settling offered empty zero fun lost => ?_)
    rcases good (alive.mp lost) with h | h | h | h | h
    · exact absurd h weof
    · exact absurd h empty
    · exact absurd h held
    · exact absurd zero h
    · exact h
  · exact .inl (pushBack_settling offered empty fun _ => zero)

/-- Only a transport that is not closing is registered for reading. -/
theorem Settling.startReading {c d : Cfg σ} (s : Settling c) (alive : ¬ c.tr.closing = true)
    (state : d.tr.state = c.tr.state) (lfd : d.tr.lfd = c.tr.lfd)
    (closing : d.tr.closing = c.tr.closing) (listed : d.tables.listed = c.tables.listed)
    (bound : d.tables.bound = c.tables.bound ∨ d.tables.bound = true)
    (interest : d.tables.interest = (c.streamAdd .readable).tables.interest)
    (stack : d.stack = c.stack) (log : d.log = c.log) : Settling d := by
  have fresh : ¬ c.lost := fun lost => alive (s.closing lost)
  have writable : d.watches .writable = c.watches .writable := by
    rw [Cfg.watches, interest]
    exact watches_streamAdd (c := c) (by simp)
  refine s.pass
    { plain := by rw [state]
      pending := by rw [state]
      size := by rw [state]; exact s.size
      lfd := lfd
      listed := listed
      bound := bound.imp_right fun up => ⟨fresh, up⟩
      log := ⟨[], .none log⟩
      frames := fun k => by rw [stack]
      closing := closing.trans
      deaf := fun closed => absurd (closing ▸ closed) alive
      idle := fun _ unbound watched => ?_
      late := fun lost => absurd lost fresh }
  rcases bound with same | up
  · rw [state]
    exact s.idle fresh (same ▸ unbound) (writable ▸ watched)
  · rw [up] at unbound
    cases unbound

theorem Tuned.settled {c d : Cfg σ} (h : Tuned c d) (s : Settling c) : Settled d := by
  cases h with
  | unchanged => exact .inl s
  | set => exact .inl (s.of_eq rfl rfl rfl rfl rfl rfl rfl rfl)
  | borrowed => exact .inr ⟨rfl, (Murmurs.none (c := c) rfl).hushed s.hushed⟩
  | raised => exact .inl (s.emit rfl rfl)
  | shutdown =>
      have marked : Settling { c with tr := { c.tr with weof := true } } :=
        s.of_eq rfl rfl rfl rfl rfl rfl rfl rfl
      exact .inl (marked.emit rfl rfl)
  | pauseReading =>
      exact .inl (Settling.of_eq (c := c.streamRem .readable) s.stopReading rfl rfl rfl rfl rfl rfl
        rfl rfl)
  | resumeReading opened =>
      exact .inl (s.startReading (Bool.eq_false_iff.mp opened) rfl rfl rfl rfl
        (.inl rfl) rfl rfl rfl)
  | pauseWriting waterHi waterLo =>
      have limited : Settling { c with tr := { c.tr with
          waterHi := waterHi
          waterLo := waterLo
          protoPaused := true } } := s.of_eq rfl rfl rfl rfl rfl rfl rfl rfl
      exact .inl (limited.call (fun _ => Callback.noConfusion) fun _ => Frame.noConfusion)

theorem method_settled {c : Cfg σ} (s : Settling c) {m : Method} {env : Env}
    (good : InTime c (.call m, env)) : Settled (m.run R c env) := by
  cases m with
  | write data => exact tryWrite_settled s good
  | writelines data => exact tryWrite_settled s good
  | close => exact close_settled s env
  | abort => exact abort_settled s good
  | callConnectionLost =>
      exact .inl (s.lostCall (s.closing good) none fun fresh => absurd good fresh)
  | writeEof | pauseReading | resumeReading | setWriteBufferLimits | isTls | getWriteBufferSize =>
      exact (Method.tuned rfl c env).settled s

theorem received_settling {c : Cfg σ} (s : Settling c) (data : Option Bytes) (eof : Bool) :
    Settling (received (c, data, eof)) := by
  cases data with
  | some data => exact s.call (fun _ => Callback.noConfusion) fun _ => Frame.noConfusion
  | none =>
      cases eof with
      | true => exact s.stopReading.call (fun _ => Callback.noConfusion) fun _ => Frame.noConfusion
      | false => exact s

theorem readRound_settling {c : Cfg σ} (s : Settling c)
    (env : Env) : Settling (readRound R c env) := by
  simp only [readRound]
  split_ifs
  · exact s.call (fun _ => Callback.noConfusion) fun _ => Frame.noConfusion
  · simp only [recvDirect, s.plain]
    exact received_settling (s.emit rfl rfl) _ _

theorem eofReceived_settling {c : Cfg σ} (s : Settling c) {truthy : Bool}
    (good : truthy = false → c.watches .readable = false) (env : Env) : Settling
    (eofReceived R c truthy env) := by
  have plain : c.setClosing.tr.state.tlsConn = none := s.plain
  simp only [eofReceived, closeFromReadHandle, s.plain, plain, Option.isSome_none,
    Bool.false_eq_true, false_and, if_false]
  split_ifs with ended closing waiting
  · exact s
  · exact s
  all_goals
    have deaf := good (Bool.eq_false_iff.mpr ended)
    have closed : Settling c.setClosing :=
      s.quiet rfl rfl rfl rfl [] (.none rfl) (fun _ => Iff.rfl) (fun _ => id)
        (fun _ => rfl) fun _ => deaf
  · exact closed
  · refine closed.stopWriting.lostCall rfl none fun _ writable => ?_
    rw [watches_streamRem_same] at writable
    cases writable

theorem writePlain_settling {c : Cfg σ} (s : Settling c) (bound : c.tables.bound = true)
    (alive : ¬ c.lost) (env : Env) :
    Settling (writePlain c env).1 := by
  have wrote := writePlain_untouched c env
  obtain ⟨failed, counted⟩ := writeLoop_held env.writes c.tr.state.writeBuf
  have silent := writeLoop_silent env.writes c.tr.state.writeBuf
  refine s.pass
    { plain := rfl
      pending := rfl
      size := ?_
      lfd := rfl
      listed := rfl
      bound := .inl rfl
      log := ⟨_, rfl, fun o ho => ?_, fun lost => absurd lost alive⟩
      frames := fun _ => Iff.rfl
      closing := id
      deaf := s.deaf
      idle := fun _ unbound => absurd bound (Bool.eq_false_iff.mp unbound)
      late := fun lost => absurd lost alive }
  · simp only [writePlain, Cfg.setState]
    cases hret : (writeLoop env.writes c.tr.state.writeBuf).2.1 with
    | none =>
        rw [failed hret]
        rfl
    | some n =>
        have total := counted n hret
        have size := s.size
        simp only [Option.elim_some]
        omega
  · have quiet := silent o ho
    cases o with
    | callback e buffered => cases quiet
    | _ => rfl

/-- `connection_lost` has returned and the transport is in no table. -/
theorem Settling.returned {c d : Cfg σ} (s : Settling c) {k : AfterLost}
    (h : c.stack = .lost k :: d.stack) (tr : d.tr = c.tr) (log : d.log = c.log)
    (unbound : d.tables.bound = false) (unlisted : d.tables.listed = false)
    (watches : ∀ e, d.watches e = true → c.watches e = true)
    (silent : k = .writeHandle → d.watches .writable = false)
    (free : Frame.lost .tryWrite ∈ c.stack → c.tables.bound = false) : Settling d := by
  have lost : c.lost := s.frames k (h ▸ List.mem_cons_self)
  have same : d.lost ↔ c.lost := (Murmurs.none log).lost_iff
  refine
    { plain := tr ▸ s.plain
      noPending := tr ▸ s.noPending
      size := tr ▸ s.size
      lfd := fun listed => ?_
      listed := fun listed => ?_
      closing := fun _ => tr ▸ s.closing lost
      frames := fun _ _ => same.mpr lost
      deaf := s.deaf_of (by rw [tr]) watches
      idle := fun alive => absurd (same.mpr lost) alive
      ending := fun _ writable => ?_
      unbound := fun _ => unbound
      hushed := log ▸ s.hushed }
  · rw [unlisted] at listed
    cases listed
  · rw [unlisted] at listed
    cases listed
  · rcases s.ending lost (watches _ writable) with ⟨frame, empty⟩ | ⟨frame, bound⟩
    · refine .inl ⟨?_, tr ▸ empty⟩
      rcases List.mem_cons.mp (h ▸ frame) with here | below
      · cases here
        rw [silent rfl] at writable
        cases writable
      · exact below
    · rw [free frame] at bound
      cases bound

/-- `tcp_stream_close` after `connection_lost`; `held` tells whether `try_write` is in
progress. -/
theorem tcpStreamClose_settled {c d : Cfg σ} (s : Settling c) {k : AfterLost}
    (h : c.stack = .lost k :: d.stack) (tr : d.tr = c.tr) (log : d.log = c.log)
    (bound : d.tables.bound = c.tables.bound) (listed : d.tables.listed = c.tables.listed)
    (watches : ∀ e, d.watches e = true → c.watches e = true)
    (silent : k = .writeHandle → d.watches .writable = false) {held : Bool}
    (free : Frame.lost .tryWrite ∈ c.stack → held = true) (env : Env) : Settled
    (tcpStreamClose R d held env) := by
  have plain : d.unbind.tr.state.tlsConn.isSome = false := by
    rw [Cfg.unbind, tr, s.plain]
    rfl
  simp only [tcpStreamClose, plain, Bool.false_eq_true, if_false]
  split_ifs with there busy panicked
  · exact .inr ⟨rfl, log ▸ s.hushed⟩
  · exact .inr ⟨panicked, log ▸ s.hushed⟩
  · have free : Frame.lost .tryWrite ∈ c.stack → c.tables.bound = false :=
      fun frame => absurd (free frame) busy
    simp only [Cfg.unlist]
    split_ifs with server
    · exact .inl (s.returned (d := { d.unbind with
        tables := { d.unbind.tables with listed := false } }) h tr log
        rfl rfl watches silent free)
    · refine .inl (s.returned (d := d.unbind) h tr log rfl (Bool.eq_false_iff.mpr fun still =>
        server ?_) watches silent free)
      change d.tr.lfd.isSome = true
      rw [tr]
      exact s.lfd (listed ▸ still)
  · have gone : c.tables.bound = false := Bool.eq_false_iff.mpr (bound ▸ there)
    refine .inl (s.returned h tr log (Bool.eq_false_iff.mpr there)
      (Bool.eq_false_iff.mpr fun still => ?_) watches silent fun _ => gone)
    rw [s.listed (listed ▸ still)] at gone
    cases gone

/-- The end of the write handle's run on an open connection. -/
theorem finishWrite_settling {c : Cfg σ} (s : Settling c) {streamClose : Option Bool}
    (half : streamClose ≠ some true) (env : Env) : Settling (finishWrite R c streamClose env) := by
  have drained : Settling (if c.tr.state.writeBuf = [] then c.streamRem .writable else c) := by
    split_ifs
    · exact s.stopWriting
    · exact s
  simp only [finishWrite]
  split
  · exact absurd rfl half
  · exact drained.emit rfl rfl
  · exact drained

theorem closeFromWriteHandle_settling {c : Cfg σ} (s : Settling c)
    (empty : c.tr.state.writeBuf = []) (errored : Bool) (env : Env) : Settling
    (closeFromWriteHandle R c errored env) := by
  simp only [closeFromWriteHandle]
  split_ifs with closing
  all_goals first
    | exact s.lostCall closing _ fun _ _ => .inl ⟨rfl, empty⟩
    | exact finishWrite_settling s (by simp) env

theorem afterWrite_settling {c : Cfg σ} (s : Settling c)
    (env : Env) : Settling (afterWrite R c env) := by
  simp only [afterWrite, s.noPending, Bool.false_eq_true, if_false]
  split_ifs with empty
  · exact closeFromWriteHandle_settling s empty false env
  · exact finishWrite_settling s (by simp) env

theorem written_settling {c : Cfg σ} (s : Settling c) (n : Nat)
    (env : Env) : Settling (written R c n env) := by
  simp only [written]
  split_ifs
  · refine Settling.call (c := { c with tr := { c.tr with protoPaused := false } }) ?_
      (fun _ => Callback.noConfusion) fun _ => Frame.noConfusion
    exact s.of_eq rfl rfl rfl rfl rfl rfl rfl rfl
  · exact afterWrite_settling s env

theorem writeHandleRun_settling {c : Cfg σ} (s : Settling c) (bound : c.tables.bound = true)
    (alive : ¬ c.lost) (env : Env) : Settling (writeHandleRun R c env) := by
  have noTimeout : closeTimedOut c.tr.state env.now = false := by
    simp [closeTimedOut, s.plain]
  have wrote := writePlain_settling s bound alive env
  obtain ⟨failed, -⟩ := writeLoop_held env.writes c.tr.state.writeBuf
  simp only [writeHandleRun, noTimeout, Bool.false_eq_true, if_false, s.plain]
  split
  next d n hwrite =>
    rw [hwrite] at wrote
    exact written_settling wrote n env
  next d hwrite =>
    rw [hwrite] at wrote
    refine closeFromWriteHandle_settling wrote ?_ true env
    have state : (writePlain c env).1.tr.state.writeBuf = [] := failed (congrArg Prod.snd hwrite)
    rw [hwrite] at state
    exact state

theorem Settling.popped {c : Cfg σ} (s : Settling c) {frame : Frame} {stack : List Frame}
    (h : c.stack = frame :: stack) (other : ∀ k, frame ≠ .lost k) : Settling
    { c with stack := stack } := by
  refine s.quiet rfl rfl rfl rfl [] (.none rfl) (fun k => ?_) (fun _ => id) id s.deaf
  rw [h]
  exact (List.mem_cons.trans (or_iff_right (other k).symm)).symm

theorem lost_settled {c : Cfg σ} (s : Settling c) (last : HandlesLast c) {k : AfterLost}
    {stack : List Frame} (h : c.stack = .lost k :: stack) (r : Ret) (env : Env) :
    Settled ((Frame.lost k).after R { c with stack := stack } r env) := by
  have below : k ≠ .tryWrite → Frame.lost .tryWrite ∈ c.stack →
      Cfg.borrowed { c with stack := stack } = true := by
    intro other frame
    rcases List.mem_cons.mp (h ▸ frame) with here | below
    · cases here
      exact absurd rfl other
    · exact borrowed_of_tryWrite (c := { c with stack := stack }) below
  cases k with
  | tryWrite =>
      exact tcpStreamClose_settled s (d := { c with stack := stack }) h rfl rfl rfl rfl
        (fun _ => id) (fun h => by cases h) (fun _ => rfl) env
  | callConnLost | recvEof | readHandle =>
      exact tcpStreamClose_settled s (d := { c with stack := stack }) h rfl rfl rfl rfl
        (fun _ => id) (fun h => by cases h) (below (by simp)) env
  | writeHandle =>
      have bottom : stack = [] := (last.below h).resolve_left Bool.noConfusion
      have lost : c.lost := s.frames _ (h ▸ List.mem_cons_self)
      simp only [Frame.after, finishWrite]
      split_ifs with empty
      · exact tcpStreamClose_settled s (d := Cfg.streamRem { c with stack := stack } .writable) h
          rfl rfl rfl rfl (fun _ => watches_streamRem (c := { c with stack := stack }))
          (fun _ => watches_streamRem_same { c with stack := stack } .writable)
          (below (by simp)) env
      · refine tcpStreamClose_settled s (d := { c with stack := stack }) h rfl rfl rfl rfl
          (fun _ => id) (fun _ => Bool.eq_false_iff.mpr fun writable => ?_) (below (by simp)) env
        rcases s.ending lost writable with ⟨-, none⟩ | ⟨frame, -⟩
        · exact empty none
        · rw [h, bottom] at frame
          cases List.mem_singleton.mp frame

theorem after_settled {c : Cfg σ} (s : Settling c) (last : HandlesLast c) {frame : Frame}
    {stack : List Frame} (h : c.stack = frame :: stack) {r : Ret} {env : Env}
    (good : InTime c (.ret r, env)) : Settled (frame.after R { c with stack := stack } r env) := by
  simp only [InTime, h] at good
  cases frame with
  | attach =>
      have popped := s.popped h fun _ => Frame.noConfusion
      simp only [Frame.after]
      split_ifs with raised
      · exact .inl popped
      · exact .inl (popped.startReading (fun closing => raised (good closing)) rfl rfl rfl rfl
          (.inr rfl) rfl rfl rfl)
  | connectionMade | pause => exact .inl (s.popped h fun _ => Frame.noConfusion)
  | getBuffer =>
      have popped := s.popped h fun _ => Frame.noConfusion
      cases r with
      | buffer size => exact .inl (received_settling (popped.emit rfl rfl) _ _)
      | falsy | truthy | raised => exact .inr ⟨rfl, s.hushed⟩
  | data ended =>
      have popped := s.popped h fun _ => Frame.noConfusion
      cases ended with
      | true => exact .inl (received_settling popped none true)
      | false => exact .inl (readRound_settling popped env)
  | eof =>
      have popped := s.popped h fun _ => Frame.noConfusion
      refine .inl (eofReceived_settling popped (fun falsy => good fun truthy => ?_) env)
      rw [truthy] at falsy
      cases falsy
  | lost k => exact lost_settled s last h r env
  | resume => exact .inl (afterWrite_settling (s.popped h fun _ => Frame.noConfusion) env)

theorem stepped_settled {c d : Cfg σ} {act : Act} {env : Env} (s : Settling c)
    (last : HandlesLast c) (good : InTime c (act, env)) (stepped : Stepped R c env act d) :
    Settled d := by
  cases stepped with
  | call m exposed => exact method_settled s good
  | server aborts bound listed =>
      cases aborts with
      | true => exact method_settled (m := .abort) s good
      | false => exact method_settled (m := .close) s good
  | ret r frame stack hstack => exact after_settled s last hstack good
  | poll dir free event interest => exact .inl (s.of_eq rfl rfl rfl rfl rfl rfl rfl rfl)
  | fire dir free event quiet =>
      have taken : Settling { c with tables := { c.tables with event := none } } :=
        s.of_eq rfl rfl rfl rfl rfl rfl rfl rfl
      simp only [fire]
      split_ifs with bound
      · cases dir with
        | readable => exact .inl (readRound_settling taken env)
        | writable =>
            refine .inl (writeHandleRun_settling taken bound (fun lost => ?_) env)
            rw [taken.unbound ⟨lost, fun k hk => by rw [free] at hk; cases hk⟩] at bound
            cases bound
      · exact .inl taken
  | made free pending =>
      refine .inl (Settling.call (c := { c with
        tables := { c.tables with pendingMade := false }
        exposed := true }) ?_ (fun _ => Callback.noConfusion) fun _ => Frame.noConfusion)
      exact s.of_eq rfl rfl rfl rfl rfl rfl rfl rfl

theorem step_settled (c : Cfg σ) (a : Act × Env) (d : Cfg σ) (inv : Settled c ∧ HandlesLast c)
    (good : InTime c a) (h : step R c a = some d) : Settled d ∧ HandlesLast d := by
  obtain ⟨running, stepped⟩ := step_stepped h
  have s : Settling c := inv.1.resolve_right fun panic => by
    rw [panic.1] at running
    cases running
  exact ⟨stepped_settled s inv.2 good stepped, step_handlesLast c a d inv.2 h⟩

theorem PlainStart.settling {c : Cfg σ} (h : PlainStart R c) : Settling c := by
  cases h with
  | accepted lfd protoBuffered timeout =>
      have fresh : ¬ (Tcp.accepted lfd (none : Option σ) protoBuffered timeout).lost := by
        rintro ⟨err, hmem⟩
        cases hmem
      exact ⟨rfl, rfl, rfl, fun _ => rfl, fun _ => rfl, fun lost => absurd lost fresh, fun k hk =>
        (by cases hk), Bool.noConfusion, fun _ => Bool.noConfusion, fun lost => absurd lost fresh,
        fun h => absurd h.1 fresh, .nil⟩
  | connected protoBuffered timeout =>
      have fresh : ¬ (Tcp.connected R (none : Option σ) protoBuffered timeout).lost := by
        rw [lost_iff_losses]
        exact Nat.lt_irrefl 0
      exact ⟨rfl, rfl, rfl, Bool.noConfusion, Bool.noConfusion, fun lost => absurd lost fresh,
        fun k hk => (by cases hk with | tail _ h => cases h), Bool.noConfusion, fun _ _ =>
        Bool.noConfusion, fun lost => absurd lost fresh, fun h => absurd h.1 fresh,
        List.pairwise_singleton _ _⟩

/-- In a run whose steps are in time, nothing is left of the connection once
`connection_lost` was delivered. -/
theorem plain_teardown (R : Rustls σ) (actions : List (Act × Env)) (start : Cfg σ)
    (hstart : PlainStart R start) (guarded : Guarded (step R) InTime start actions) : Always
    (step R) NothingLeft start actions := by
  refine (always_of_guarded (I := fun c => Settled c ∧ HandlesLast c) step_settled ?_ guarded).mono
    fun c inv => inv.1.nothingLeft
  exact ⟨.inl hstart.settling, hstart.handlesLast⟩

/-- A client writes, of which the kernel takes a part, and closes; the write handle
drains the buffer, and after `connection_lost` the methods do nothing. -/
def drainedClose : List (Act × Env) :=
  [(.ret .falsy, ⟨[], [], 0⟩), (.call (.write [1, 2]), ⟨[], [.ok 1], 0⟩),
      (.call .close, ⟨[], [], 0⟩),
    (.poll .writable, ⟨[], [], 0⟩), (.fire, ⟨[], [.ok 1], 0⟩), (.ret .falsy, ⟨[], [], 0⟩),
    (.call .resumeReading, ⟨[], [], 0⟩), (.call .writeEof, ⟨[], [], 0⟩),
    (.call .close, ⟨[], [], 0⟩)]

theorem plain_teardown_drained : ∃ c,
    run (step noTls) (connected noTls none false 1000) drainedClose = some c ∧
    c.callbacks = [.connectionMade, .connectionLost none] ∧ c.stack = [] ∧
    Always (step noTls) NothingLeft (connected noTls none false 1000) drainedClose := by
  refine ⟨_, rfl, rfl, rfl, plain_teardown noTls drainedClose _ (.connected false 1000) ?_⟩
  refine guarded_cons rfl Bool.noConfusion
    (guarded_cons rfl (fun lost => ?_) (guarded_cons rfl trivial
    (guarded_cons rfl trivial (guarded_cons rfl trivial
      (guarded_cons rfl trivial (guarded_cons rfl trivial
    (guarded_cons rfl trivial (guarded_cons rfl trivial trivial))))))))
  rw [lost_iff_losses] at lost
  cases lost

/-- A client closes in `connection_made`: `connection_lost` returns, and then
`_tcp_conn` puts the transport into the table and registers the descriptor. -/
theorem closed_client_registered :
    ¬ ∀ (actions : List (Act × Env)) (start : Cfg Empty), PlainStart noTls start →
      Always (step noTls) NothingLeft start actions := by
  intro claim
  have left := (claim [(.call .close, ⟨[], [], 0⟩), (.ret .falsy, ⟨[], [], 0⟩),
    (.ret .falsy, ⟨[], [], 0⟩)] _ (.connected false 1000)).last rfl
  have gone := left.gone rfl ⟨(lost_iff_losses _).mpr Nat.one_pos, fun _ => List.not_mem_nil⟩
  cases gone.1

end TokioLoop.Tcp
