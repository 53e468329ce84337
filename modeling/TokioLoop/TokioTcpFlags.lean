import TokioLoop.TokioTcpOutbound

/-!
The atomic flags of a `TokioTCPTransport` and their copies under the mutex, while the
calls of several threads interleave. `pause_reading`, `resume_reading` and `write_eof`
read `closing` before they exchange the flag of their own, so such a call is three
actions here: the load, the exchange and the update.
-/
namespace TokioLoop.TokioTcp

/-- The methods that first read `closing` and return when it is set. -/
def Method.loadsClosing : Method → Bool
  | .writeEof | .pauseReading | .resumeReading => true
  | .write _ | .close | .abort => false

/-- What follows the read of `closing`: the one access to the flag of the method. -/
def Method.exchange (f : Flags) : Method → Flags × Option Update
  | .write data => if f.weof then (f, none) else (f, some (.push data))
  | .writeEof => if f.weof then (f, none) else ({ f with weof := true }, some .setWeof)
  | .pauseReading =>
      if f.paused then (f, none) else ({ f with paused := true }, some (.setPaused true))
  | .resumeReading =>
      if f.paused then ({ f with paused := false }, some (.setPaused false)) else (f, none)
  | .close => if f.closing then (f, none) else ({ f with closing := true }, some .setClosing)
  | .abort => if f.closing then (f, none) else ({ f with closing := true }, some .abortClosing)

theorem enter_eq_exchange (f : Flags) (m : Method) :
    m.enter f = if m.loadsClosing && f.closing then (f, none) else m.exchange f := by
  cases m <;> simp [Method.enter, Method.exchange, Method.loadsClosing]

/-- `loaded` holds the calls that have found the transport open and not yet exchanged. -/
structure Split where
  world : World
  loaded : Nat → Option Method

def Split.start : Split := ⟨TokioTcp.start, fun _ => none⟩

inductive SplitAction where
  | load (thread : Nat) (method : Method)
  | exchange (thread : Nat)
  | plain (action : Action)

/-- The actions that stay whole: the task, the updates, and the calls without a load. -/
def Split.admits (s : Split) : Action → Bool
  | .enter thread method => (s.loaded thread).isNone && !method.loadsClosing
  | _ => true

def Split.step (s : Split) : SplitAction → Option Split
  | .load thread method =>
      match method.loadsClosing, s.loaded thread, s.world.calls thread with
      | true, none, none => some (if s.world.flags.closing then s
          else { s with loaded := Function.update s.loaded thread (some method) })
      | _, _, _ => none
  | .exchange thread =>
      match s.loaded thread with
      | none => none
      | some method =>
          let (flags, update) := method.exchange s.world.flags
          some {
            world := { s.world with flags, calls := Function.update s.world.calls thread update }
            loaded := Function.update s.loaded thread none }
  | .plain action =>
      if s.admits action then (TokioTcp.step s.world action).map fun world => { s with world }
        else none

inductive Flag where
  | closing
  | paused
  | weof
  deriving DecidableEq, Repr

def Flags.get (f : Flags) : Flag → Bool
  | .closing => f.closing
  | .paused => f.paused
  | .weof => f.weof

/-- The copy an update writes, and what it writes there. -/
def Update.writes : Update → Option (Flag × Bool)
  | .push _ => none
  | .setWeof => some (.weof, true)
  | .setPaused paused => some (.paused, paused)
  | .setClosing | .abortClosing => some (.closing, true)

/-- Some call has exchanged `k` and not yet written its copy. -/
def World.Pends (w : World) (k : Flag) (value : Bool) : Prop :=
  ∃ thread u, w.calls thread = some u ∧ u.writes = some (k, value)

/-- A flag that no call is about to copy equals its copy. -/
def World.Agree (w : World) : Prop :=
  ∀ k, (∀ value, ¬ w.Pends k value) → w.flags.get k = w.state.marks.get k

def Split.Settled (s : Split) : Prop :=
  ∀ thread, s.loaded thread = none ∧ s.world.calls thread = none

def World.isReading (w : World) : Bool := !w.flags.closing && !w.flags.paused

/-- The thread whose update an action makes. -/
def SplitAction.commits : SplitAction → Option Nat
  | .plain (.commit thread) => some thread
  | _ => none

/-- The last pending write to `state.paused` writes what the flag says. -/
def InOrder (s : Split) (a : SplitAction) : Prop :=
  ∀ thread, a.commits = some thread → ∀ paused, s.world.calls thread = some (.setPaused paused) →
    (∀ other p, s.world.calls other = some (.setPaused p) → other = thread) →
    s.world.flags.paused = paused

theorem Flags.ext_get {f g : Flags} (h : ∀ k, f.get k = g.get k) : f = g := by
  have closing := h .closing
  have paused := h .paused
  have weof := h .weof
  cases f
  cases g
  simp_all [Flags.get]

theorem Agree.settled {s : Split} (agree : s.world.Agree) (settled : s.Settled) :
    s.world.flags = s.world.state.marks := by
  apply Flags.ext_get
  intro k
  apply agree
  rintro value ⟨thread, u, pending, _⟩
  rw [(settled thread).2] at pending
  cases pending

theorem apply_get {u : Update} {k : Flag} {value : Bool} (s : State)
    (writes : u.writes = some (k, value)) : (u.apply s).marks.get k = value := by
  cases u <;> cases writes <;> rfl

theorem apply_get_other {u : Update} {k : Flag} (s : State)
    (other : ∀ value, u.writes ≠ some (k, value)) : (u.apply s).marks.get k = s.marks.get k := by
  cases u <;> cases k <;> first | rfl | exact absurd rfl (other _)

/-- A successful exchange turns one flag and owes its copy; any other changes no flag. -/
theorem exchange_get (f : Flags) (m : Method) (k : Flag) :
    (∃ u value, (m.exchange f).2 = some u ∧ u.writes = some (k, value) ∧
        f.get k = !value ∧ (m.exchange f).1.get k = value) ∨
      ((m.exchange f).1.get k = f.get k ∧
        ∀ u value, (m.exchange f).2 = some u → u.writes ≠ some (k, value)) := by
  cases m <;> cases k <;> simp only [Method.exchange] <;> split_ifs <;>
    grind [Flags.get, Update.writes]

/-- What a step can do to the flags, their copies and the calls in progress. -/
inductive Turns (w t : World) : Option Nat → Prop where
  | idle : t.flags = w.flags → t.state.marks = w.state.marks → t.calls = w.calls → Turns w t none
  | exchanged (thread : Nat) (method : Method) : w.calls thread = none →
      t.flags = (method.exchange w.flags).1 → t.state.marks = w.state.marks →
      t.calls = Function.update w.calls thread (method.exchange w.flags).2 → Turns w t none
  | committed (thread : Nat) (u : Update) : w.calls thread = some u → t.flags = w.flags →
      t.state = u.apply w.state → t.calls = Function.update w.calls thread none →
      Turns w t (some thread)

theorem step_turns {w t : World} {a : Action} (h : step w a = some t)
    (single : ∀ thread method, a = .enter thread method → method.loadsClosing = false) :
    Turns w t (SplitAction.plain a).commits := by
  cases step_stepped h with
  | enter thread method idle =>
      rw [enter_eq_exchange, single thread method rfl, Bool.false_and, if_neg Bool.false_ne_true]
      exact .exchanged thread method idle rfl rfl rfl
  | commit thread u pending => exact .committed thread u pending rfl rfl rfl
  | pollWrite _ _ _ _ _ polled =>
      obtain ⟨_, _, _, marks, flags, calls⟩ := pollWrite_frame polled
      exact .idle flags marks calls
  | readDone result => cases result <;> exact .idle rfl rfl rfl
  | _ => exact .idle rfl rfl rfl

theorem Split.step_load {s t : Split} {thread : Nat} {method : Method}
    (h : s.step (.load thread method) = some t) : method.loadsClosing = true ∧
    s.loaded thread = none ∧ s.world.calls thread = none ∧
      t = if s.world.flags.closing then s
        else { s with loaded := Function.update s.loaded thread (some method) } := by
  simp only [Split.step] at h
  split at h <;> cases h
  next loads free idle => exact ⟨loads, free, idle, rfl⟩

theorem Split.step_exchange {s t : Split} {thread : Nat} (h : s.step (.exchange thread) = some t) :
    ∃ method, s.loaded thread = some method ∧ t.loaded = Function.update s.loaded thread none ∧
      t.world = { s.world with
        flags := (method.exchange s.world.flags).1
        calls := Function.update s.world.calls thread (method.exchange s.world.flags).2 } := by
  simp only [Split.step] at h
  split at h <;> cases h
  next method loaded => exact ⟨method, loaded, rfl, rfl⟩

theorem Split.step_plain {s t : Split} {a : Action} (h : s.step (.plain a) = some t) :
    s.admits a = true ∧ t.loaded = s.loaded ∧ TokioTcp.step s.world a = some t.world := by
  simp only [Split.step] at h
  split at h
  next admitted =>
    obtain ⟨w, hw, rfl⟩ := Option.map_eq_some_iff.mp h
    exact ⟨admitted, rfl, hw⟩
  next => cases h

theorem Split.admits_single {s : Split} {a : Action} (h : s.admits a = true) (thread : Nat)
    (method : Method) (enters : a = .enter thread method) : method.loadsClosing = false := by
  subst enters
  simpa using (Bool.and_eq_true_iff.mp h).2

/-- A thread with a call past its load has no update to make. -/
def Split.OneCall (s : Split) : Prop :=
  ∀ thread, s.loaded thread ≠ none → s.world.calls thread = none

theorem Split.OneCall.step {s t : Split} {a : SplitAction} (one : s.OneCall)
    (h : s.step a = some t) : t.OneCall := by
  intro thread pending
  cases a with
  | load other method =>
      obtain ⟨_, _, idle, rfl⟩ := Split.step_load h
      split_ifs at pending ⊢
      · exact one thread pending
      · by_cases same : thread = other
        · exact same ▸ idle
        · change Function.update s.loaded other (some method) thread ≠ none at pending
          rw [Function.update_of_ne same] at pending
          exact one thread pending
  | exchange other =>
      obtain ⟨method, _, loaded, world⟩ := Split.step_exchange h
      rw [loaded] at pending
      by_cases same : thread = other
      · simp [same] at pending
      · rw [Function.update_of_ne same] at pending
        simpa [world, same] using one thread pending
  | plain action =>
      obtain ⟨admitted, loaded, hw⟩ := Split.step_plain h
      rw [loaded] at pending
      rcases step_calls hw with same | ⟨other, update, same, asked⟩
      · rw [same]
        exact one thread pending
      · rw [same]
        by_cases eq : thread = other
        · subst eq
          cases update with
          | none => simp
          | some u =>
              obtain ⟨method, rfl, _⟩ := asked u rfl
              simp [Split.admits, pending] at admitted
        · rw [Function.update_of_ne eq]
          exact one thread pending

theorem Split.step_turns {s t : Split} {a : SplitAction} (one : s.OneCall) (h : s.step a = some t) :
    Turns s.world t.world a.commits := by
  cases a with
  | load thread method =>
      obtain ⟨_, _, _, rfl⟩ := Split.step_load h
      split_ifs <;> exact .idle rfl rfl rfl
  | exchange thread =>
      obtain ⟨method, loaded, _, world⟩ := Split.step_exchange h
      have idle := one thread (by simp [loaded])
      rw [world]
      exact .exchanged thread method idle rfl rfl rfl
  | plain action =>
      obtain ⟨admitted, _, hw⟩ := Split.step_plain h
      exact TokioTcp.step_turns hw (Split.admits_single admitted)

/-- What a pending write of the copy of `k` becomes when the calls change at one thread. -/
theorem pends_update {w t : World} {thread : Nat} {update : Option Update} (k : Flag) (value : Bool)
    (calls : t.calls = Function.update w.calls thread update) :
    t.Pends k value ↔ (∃ u, update = some u ∧ u.writes = some (k, value)) ∨
      ∃ other, other ≠ thread ∧ ∃ u, w.calls other = some u ∧ u.writes = some (k, value) := by
  simp only [World.Pends, calls]
  constructor
  · rintro ⟨other, u, pending, writes⟩
    by_cases same : other = thread
    · subst same
      rw [Function.update_self] at pending
      exact .inl ⟨u, pending, writes⟩
    · rw [Function.update_of_ne same] at pending
      exact .inr ⟨other, same, u, pending, writes⟩
  · rintro (⟨u, rfl, writes⟩ | ⟨other, same, u, pending, writes⟩)
    · exact ⟨thread, u, by simp, writes⟩
    · exact ⟨other, u, by simpa [same] using pending, writes⟩

theorem pends_idle {w : World} {thread : Nat} {k : Flag} {value : Bool}
    (idle : w.calls thread = none) :
    (∃ other, other ≠ thread ∧ ∃ u, w.calls other = some u ∧ u.writes = some (k, value)) ↔
    w.Pends k value := by
  constructor
  · rintro ⟨other, _, u, pending⟩
    exact ⟨other, u, pending⟩
  · rintro ⟨other, u, pending, writes⟩
    refine ⟨other, ?_, u, pending, writes⟩
    rintro rfl
    rw [idle] at pending
    cases pending

/-- A flag that is only ever set: it is up exactly when its copy is or is about to be. -/
structure World.Rises (w : World) (k : Flag) : Prop where
  up : w.flags.get k = true ↔ w.state.marks.get k = true ∨ w.Pends k true
  never : ¬ w.Pends k false

theorem writes_up {u : Update} {k : Flag} {value : Bool} (once : k ≠ .paused)
    (writes : u.writes = some (k, value)) : value = true := by
  cases u <;> cases writes <;> first | rfl | exact absurd rfl once

theorem Rises.step {w t : World} {k : Flag} {thread : Option Nat} (once : k ≠ .paused)
    (rises : w.Rises k) (turns : Turns w t thread) :
    t.Rises k := by
  cases turns with
  | idle flags marks calls =>
      constructor
      · simpa only [flags, marks, World.Pends, calls] using rises.up
      · simpa only [World.Pends, calls] using rises.never
  | exchanged thread method idle flags marks calls =>
      constructor
      · rw [pends_update k true calls, pends_idle idle, marks, flags]
        rcases exchange_get w.flags method k with
          ⟨u, value, owes, writes, _, turned⟩ | ⟨same, other⟩
        · obtain rfl := writes_up once writes
          exact iff_of_true turned (.inr (.inl ⟨u, owes, writes⟩))
        · rw [same, rises.up]
          simp only [show ¬ ∃ u, (method.exchange w.flags).2 = some u ∧ u.writes = some (k, true)
            from fun ⟨u, owes, writes⟩ => other u true owes writes, false_or]
      · rw [pends_update k false calls, pends_idle idle]
        rintro (⟨u, _, writes⟩ | pending)
        · cases writes_up once writes
        · exact rises.never pending
  | committed thread u pending flags applied calls =>
      constructor
      · rw [pends_update k true calls, applied, flags]
        by_cases writes : u.writes = some (k, true)
        · exact iff_of_true (rises.up.mpr (.inr ⟨thread, u, pending, writes⟩))
            (.inl (apply_get w.state writes))
        · have elsewhere : ∀ value, u.writes ≠ some (k, value) := by
            intro value hvalue
            exact writes (writes_up once hvalue ▸ hvalue)
          rw [apply_get_other w.state elsewhere, rises.up]
          refine or_congr Iff.rfl ?_
          constructor
          · rintro ⟨other, v, hv, hwrites⟩
            refine .inr ⟨other, ?_, v, hv, hwrites⟩
            rintro rfl
            exact writes (Option.some.inj (pending.symm.trans hv) ▸ hwrites)
          · rintro (⟨v, hv, _⟩ | ⟨other, _, v, hv⟩)
            · cases hv
            · exact ⟨other, v, hv⟩
      · rw [pends_update k false calls]
        rintro (⟨v, hv, _⟩ | ⟨other, _, v, hv⟩)
        · cases hv
        · exact rises.never ⟨other, v, hv⟩

/-- A run keeps these whatever its order. -/
structure Split.Counts (s : Split) : Prop where
  one : s.OneCall
  closing : s.world.Rises .closing
  weof : s.world.Rises .weof

theorem rises_start (k : Flag) : TokioTcp.start.Rises k := by
  have idle : ∀ value, ¬ TokioTcp.start.Pends k value := by
    rintro value ⟨thread, u, pending, _⟩
    cases pending
  refine ⟨?_, idle false⟩
  cases k <;> exact iff_of_false Bool.false_ne_true (fun h => h.elim Bool.false_ne_true (idle true))

theorem counts_start : Split.start.Counts where
  one _ h := absurd rfl h
  closing := rises_start .closing
  weof := rises_start .weof

theorem Counts.step {s t : Split} {a : SplitAction} (counts : s.Counts) (h : s.step a = some t) :
    t.Counts where
  one := counts.one.step h
  closing := Rises.step (by decide) counts.closing (Split.step_turns counts.one h)
  weof := Rises.step (by decide) counts.weof (Split.step_turns counts.one h)

theorem World.Rises.agree {w : World} {k : Flag} (rises : w.Rises k)
    (settled : ∀ value, ¬ w.Pends k value) : w.flags.get k = w.state.marks.get k := by
  apply Bool.eq_iff_iff.mpr
  rw [rises.up]
  exact or_iff_left (settled true)

/-- Only the copy of `paused` can end up different from its flag. -/
theorem agree_iff {w : World} (closing : w.Rises .closing) (weof : w.Rises .weof) :
    w.Agree ↔ ((∀ value, ¬ w.Pends .paused value) → w.flags.paused = w.state.paused) := by
  constructor
  · intro agree
    exact agree .paused
  · intro agree k
    cases k with
    | closing => exact closing.agree
    | weof => exact weof.agree
    | paused => exact agree

theorem writes_paused {u : Update} {value : Bool} : u.writes = some (.paused, value) ↔
    u = .setPaused value := by
  cases u <;> simp [Update.writes]

/-- No write of `state.paused` is pending besides that of `thread`. -/
theorem pends_paused_elsewhere {w t : World} {thread : Nat}
    (calls : t.calls = Function.update w.calls thread none) : (∀ value, ¬ t.Pends .paused value) ↔
    ∀ other p, w.calls other = some (.setPaused p) → other = thread := by
  simp only [pends_update .paused _ calls, reduceCtorEq, false_and, exists_false, false_or,
    writes_paused]
  constructor
  · intro settled other p pending
    by_contra elsewhere
    exact settled p ⟨other, elsewhere, _, pending, rfl⟩
  · rintro only value ⟨other, elsewhere, _, pending, rfl⟩
    exact elsewhere (only other value pending)

theorem Agree.step {s t : Split} {a : SplitAction} (counts : s.Counts) (agree : s.world.Agree)
    (h : s.step a = some t) : t.world.Agree ↔ InOrder s a := by
  have after := Counts.step counts h
  rw [agree_iff after.closing after.weof]
  have before := (agree_iff counts.closing counts.weof).mp agree
  have turns := Split.step_turns counts.one h
  generalize hcommits : a.commits = commits at turns
  cases turns with
  | idle flags marks calls =>
      refine iff_of_true ?_ (by simp [InOrder, hcommits])
      have same : t.world.state.paused = s.world.state.paused := congrArg Flags.paused marks
      simpa only [flags, same, World.Pends, calls] using before
  | exchanged thread method idle flags marks calls =>
      refine iff_of_true ?_ (by simp [InOrder, hcommits])
      have same : t.world.state.paused = s.world.state.paused := congrArg Flags.paused marks
      simp only [pends_update .paused _ calls, pends_idle idle, same, flags]
      intro settled
      rcases exchange_get s.world.flags method .paused with ⟨u, value, owes, writes, _⟩ | ⟨kept, _⟩
      · exact absurd (.inl ⟨u, owes, writes⟩) (settled value)
      · change (method.exchange s.world.flags).1.paused = s.world.flags.paused at kept
        rw [kept]
        exact before fun value pending => settled value (.inr pending)
  | committed thread u pending flags applied calls =>
      rw [pends_paused_elsewhere calls, flags, applied]
      simp only [InOrder, hcommits, Option.some.injEq, forall_eq', pending]
      constructor
      · rintro last paused rfl only
        exact last only
      · intro order only
        by_cases writes : ∃ paused, u = .setPaused paused
        · obtain ⟨paused, rfl⟩ := writes
          exact order paused rfl only
        · have other : ∀ value, u.writes ≠ some (.paused, value) := by
            intro value hvalue
            exact writes ⟨value, writes_paused.mp hvalue⟩
          have copy : (u.apply s.world.state).paused = s.world.state.paused :=
            apply_get_other s.world.state other
          rw [copy]
          apply before
          rintro value ⟨elsewhere, v, hv, hwrites⟩
          obtain rfl := writes_paused.mp hwrites
          obtain rfl := only elsewhere value hv
          rw [pending] at hv
          exact writes ⟨value, Option.some.inj hv⟩

/-- In every run each flag equals its copy whenever no call is about to write the copy,
exactly when the writes of `state.paused` settle in order. Such a run has, whenever no call
is in progress, every flag equal to its copy, and a transport that says it is reading is
not paused in the loop's eyes. -/
theorem flags_agree_iff_in_order (actions : List SplitAction) (s : Split)
    (h : Runs.run Split.step Split.start actions = some s) :
    (Runs.Always Split.step (fun v => v.world.Agree) Split.start actions ↔
        Runs.Guarded Split.step InOrder Split.start actions) ∧
      (Runs.Guarded Split.step InOrder Split.start actions →
        Runs.Always Split.step (fun v => v.Settled → v.world.flags = v.world.state.marks ∧
          (v.world.isReading = true → v.world.state.paused = false)) Split.start actions) := by
  have agree_start : Split.start.world.Agree :=
    (agree_iff counts_start.closing counts_start.weof).mpr fun _ => rfl
  have exact_order := Runs.always_iff_guarded (I := Split.Counts) (P := fun v => v.world.Agree)
    (fun _ _ _ counts hstep => Counts.step counts hstep)
    (fun _ _ _ counts agree hstep => Agree.step counts agree hstep) h counts_start agree_start
  refine ⟨exact_order, fun order => (exact_order.mpr order).mono ?_⟩
  intro v agree settled
  have equal := Agree.settled agree settled
  refine ⟨equal, fun reading => ?_⟩
  have copied : v.world.flags.paused = v.world.state.paused := congrArg Flags.paused equal
  rw [← copied]
  simpa [World.isReading] using (Bool.and_eq_true_iff.mp reading).2

/-- A pause and a resume on two threads, each once, one after the other. -/
def pausedThenResumed : List SplitAction :=
  [.load 1 .pauseReading, .exchange 1, .plain (.commit 1), .load 2 .resumeReading, .exchange 2,
    .plain (.commit 2)]

theorem flags_agree_in_order :
    Runs.Always Split.step (fun v => v.Settled → v.world.flags = v.world.state.marks ∧
      (v.world.isReading = true → v.world.state.paused = false)) Split.start pausedThenResumed := by
  refine (flags_agree_iff_in_order pausedThenResumed _ rfl).2 ?_
  refine Runs.guarded_cons rfl (fun _ hc => by cases hc)
    (Runs.guarded_cons rfl (fun _ hc => by cases hc)
      (Runs.guarded_cons rfl ?_ (Runs.guarded_cons rfl (fun _ hc => by cases hc)
      (Runs.guarded_cons rfl (fun _ hc => by cases hc) (Runs.guarded_cons rfl ?_ trivial)))))
  · rintro thread ⟨⟩ paused pending _
    exact (Update.setPaused.inj (Option.some.inj pending) : true = paused)
  · rintro thread ⟨⟩ paused pending _
    exact (Update.setPaused.inj (Option.some.inj pending) : false = paused)

/-- The resume is called after the pause has set its flag and writes the copy first. -/
def crossed : List SplitAction :=
  [.load 1 .pauseReading, .exchange 1, .load 2 .resumeReading, .exchange 2, .plain (.commit 2),
    .plain (.commit 1)]

theorem crossed_calls_disagree :
    ¬ ∀ (actions : List SplitAction) (s : Split), Runs.run Split.step Split.start actions = some s →
      s.Settled → s.world.flags = s.world.state.marks ∧
      (s.world.isReading = true → s.world.state.paused = false) := by
  intro always
  obtain ⟨s, hrun, settled, reading, paused⟩ :
    ∃ s, Runs.run Split.step Split.start crossed = some s ∧ s.Settled ∧
      s.world.isReading = true ∧ s.world.state.paused = true := by
    refine ⟨_, rfl, ?_, rfl, rfl⟩
    intro thread
    by_cases first : thread = 1
    · subst first
      exact ⟨rfl, rfl⟩
    · by_cases second : thread = 2
      · subst second
        exact ⟨rfl, rfl⟩
      · simp [Split.start, TokioTcp.start, Function.update_of_ne first,
          Function.update_of_ne second]
  rw [(always crossed s hrun settled).2 reading] at paused
  cases paused

end TokioLoop.TokioTcp
