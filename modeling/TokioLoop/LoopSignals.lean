import TokioLoop.LoopMachine

/-!
Signals on RLoop. A signal writes its number to the self-socket and interrupts the poll;
the dispatch of the self-socket looks the numbers up in `sig_handlers` and sets
`sig_loop_handled` for each one found, and only an interrupted step looks at that flag.
The machine is the scheduling core with its choice of I/O handles refined to the handles
of other sources and the bytes read from the self-socket.
-/
namespace TokioLoop.Loop

variable {α : Type}

/-- An entry of `sig_handlers`: a `CBHandle`, with the object that `cancel()` names. -/
structure SigHandler (α : Type) where
  obj : Nat
  callback : α

/-- What the end of a step with an interrupted poll decided, and whether the dispatch of
that step met a registered handler. -/
structure Interrupt where
  handled : Bool
  continued : Bool
  deriving DecidableEq, Repr

structure SigLoop (α : Type) where
  loop : EventLoop α
  sigHandlers : UInt8 → Option (SigHandler α)
  sigListening : Bool
  ssock : Bool
  handled : Bool
  interrupts : List Interrupt

def SigLoop.new : SigLoop α := ⟨Loop.new, fun _ => none, false, false, false, []⟩

/-- The dispatch of one event: handles of a source other than the self-socket, or what
`read_from_sock` read from it. -/
inductive IoEvent (α : Type) where
  | handles (handles : List (Entry α))
  | signals (bytes : List UInt8)

/-- What a dispatch builds up. -/
structure Dispatch (α : Type) where
  sigHandlers : UInt8 → Option (SigHandler α)
  handles : List (Entry α)
  signalled : Bool

def SigHandler.entry (h : SigHandler α) : Entry α := ⟨.io, some h.obj, .cb, h.callback⟩

def sigHandle (flags : Nat → Bool) (d : Dispatch α) (sig : UInt8) : Dispatch α :=
  match d.sigHandlers sig with
  | none => d
  | some h =>
      if flags h.obj then { d with sigHandlers := Function.update d.sigHandlers sig none, signalled
        := true }
      else { d with handles := d.handles ++ [h.entry], signalled := true }

def handleIoSignals (s : SigLoop α) (d : Dispatch α) (bytes : List UInt8) : Dispatch α :=
  if s.ssock && s.sigListening then bytes.foldl (sigHandle s.loop.flags) d else d

def handleIo (s : SigLoop α) (d : Dispatch α) : IoEvent α → Dispatch α
  | .handles handles => { d with handles := d.handles ++ handles }
  | .signals bytes => handleIoSignals s d bytes

/-- The loop over the events of a poll. -/
def dispatchAll (s : SigLoop α) (events : List (IoEvent α)) : Dispatch α :=
  events.foldl (handleIo s) ⟨s.sigHandlers, [], false⟩

/-- Among the bytes that are looked at is a signal with a handler in the table. -/
def IoEvent.registered (s : SigLoop α) (table : UInt8 → Option (SigHandler α)) : IoEvent α → Bool
  | .handles _ => false
  | .signals bytes => s.ssock && s.sigListening && bytes.any fun sig => (table sig).isSome

def SigLoop.registered (s : SigLoop α) (events : List (IoEvent α)) : Bool :=
  events.any (IoEvent.registered s s.sigHandlers)

inductive SigAction (α : Type) where
  | loop (a : Action α)
  | dispatch (events : List (IoEvent α))
  | sigAdd (sig : UInt8) (obj : Nat) (callback : α)
  | sigRem (sig : UInt8)
  | sigClear
  | setListening (on : Bool)
  | setSsock (on : Bool)

def Pc.isTop : Pc α → Bool
  | .top _ => true
  | _ => false

/-- The record of an interrupted step that ends with `a` in the state `t`. -/
def interruptsOf (s : SigLoop α) (a : Action α) (t : EventLoop α) : List Interrupt :=
  match a, s.loop.pc with
  | .stepEnd, .batch p _ _ => if p.result = .interrupted then [⟨s.handled, t.pc.isTop⟩] else []
  | _, _ => []

def SigLoop.step (s : SigLoop α) : SigAction α → Option (SigLoop α)
  | .loop (.dispatch _ _) => none
  | .loop a => (Loop.step s.loop a).map fun loop =>
      { s with loop, interrupts := s.interrupts ++ interruptsOf s a loop }
  | .dispatch events =>
      let d := dispatchAll s events
      (Loop.step s.loop (.dispatch d.handles d.signalled)).map fun loop =>
        { s with loop, sigHandlers := d.sigHandlers, handled := s.registered events }
  | .sigAdd sig obj callback =>
      some { s with sigHandlers := Function.update s.sigHandlers sig (some ⟨obj, callback⟩) }
  | .sigRem sig => some { s with sigHandlers := Function.update s.sigHandlers sig none }
  | .sigClear => some { s with sigHandlers := fun _ => none }
  | .setListening on => some { s with sigListening := on }
  | .setSsock on => some { s with ssock := on }

/-- Each interrupted step so far went on exactly if it met a registered handler. -/
def SigLoop.Attributed (s : SigLoop α) : Prop :=
  ∀ i ∈ s.interrupts, (i.continued = true ↔ i.handled = true)

/-- The events of an interrupted poll are dispatched next. -/
def Pc.reports : Pc α → Bool
  | .dispatch p _ => p.result = .interrupted
  | _ => false

/-- When the events of an interrupted poll are dispatched, `sig_loop_handled` is not set
any more, unless they include a signal with a handler themselves. -/
def Unstale (s : SigLoop α) : SigAction α → Prop
  | .dispatch events =>
      s.loop.pc.reports = true → s.loop.sigLoopHandled = true → s.registered events = true
  | _ => True

instance (s : SigLoop α) (a : SigAction α) : Decidable (Unstale s a) := by
  unfold Unstale
  split <;> infer_instance

/-- Past the dispatch of a step whose poll was interrupted. -/
def Pc.interrupted : Pc α → Bool
  | .timers p _ | .popping p _ _ | .batch p _ _ => p.result = .interrupted
  | _ => false

/-- A step that skips the poll has no result to look at. -/
def Pc.Polls : Pc α → Prop
  | .polled p | .swapped p _ => p.skipPoll = true → p.result = .ok
  | _ => True

/-- A lookup of some signals, of which `seen` says whether one has a handler. -/
structure LooksUp (d t : Dispatch α) (seen : Bool) : Prop where
  signalled : t.signalled = (d.signalled || seen)
  sigHandlers : seen = false → t.sigHandlers = d.sigHandlers

theorem LooksUp.trans {b c d : Dispatch α} {first second : Bool} (one : LooksUp b c first)
    (two : first = false → LooksUp c d second) (later : first = true → d.signalled = true) :
    LooksUp b d (first || second) := by
  cases first with
  | true => exact ⟨by simp [later rfl], fun h => by cases h⟩
  | false =>
      obtain ⟨signalled, sigHandlers⟩ := two rfl
      refine ⟨?_, fun none => (sigHandlers none).trans (one.sigHandlers rfl)⟩
      rw [signalled, one.signalled, Bool.or_false, Bool.false_or]

theorem sigHandle_looksUp (flags : Nat → Bool) (d : Dispatch α) (sig : UInt8) :
    LooksUp d (sigHandle flags d sig) (d.sigHandlers sig).isSome := by
  unfold sigHandle
  cases found : d.sigHandlers sig with
  | none => exact ⟨by simp, fun _ => rfl⟩
  | some h =>
      refine ⟨?_, fun none => by cases none⟩
      simp only
      split_ifs <;> simp

/-- Along a list the table stays as it is until a handler is found. -/
theorem fold_looksUp {β : Type} (f : Dispatch α → β → Dispatch α)
    (seen : (UInt8 → Option (SigHandler α)) → β → Bool)
    (one : ∀ d x, LooksUp d (f d x) (seen d.sigHandlers x)) (xs : List β) (d : Dispatch α) :
    LooksUp d (xs.foldl f d) (xs.any (seen d.sigHandlers)) := by
  have mono : ∀ (xs : List β) (d : Dispatch α), d.signalled = true →
      (xs.foldl f d).signalled = true := by
    intro xs
    induction xs with
    | nil => exact fun _ signalled => signalled
    | cons x xs ih =>
        intro d signalled
        refine ih (f d x) ?_
        rw [(one d x).signalled, signalled, Bool.true_or]
  induction xs generalizing d with
  | nil => exact ⟨by simp, fun _ => rfl⟩
  | cons x xs ih =>
      have first := one d x
      rw [List.foldl_cons, List.any_cons]
      refine first.trans ?_ ?_
      · intro none
        have rest := ih (f d x)
        rwa [first.sigHandlers none] at rest
      · intro found
        refine mono xs (f d x) ?_
        rw [first.signalled, found, Bool.or_true]

theorem handleIo_looksUp (s : SigLoop α) (d : Dispatch α) (event : IoEvent α) :
    LooksUp d (handleIo s d event) (event.registered s d.sigHandlers) := by
  cases event with
  | handles handles => exact ⟨by simp [handleIo, IoEvent.registered], fun _ => rfl⟩
  | signals bytes =>
      simp only [handleIo, handleIoSignals, IoEvent.registered]
      cases on : s.ssock && s.sigListening with
      | false => exact ⟨by simp, fun _ => rfl⟩
      | true =>
          rw [if_pos rfl, Bool.true_and]
          exact fold_looksUp (sigHandle s.loop.flags) (fun table sig => (table sig).isSome)
            (sigHandle_looksUp s.loop.flags) bytes d

/-- The flag is set exactly if a signal with a handler is among the bytes looked at. -/
theorem dispatchAll_signalled (s : SigLoop α) (events : List (IoEvent α)) :
    (dispatchAll s events).signalled = s.registered events := by
  have all := fold_looksUp (handleIo s) (fun table event => event.registered s table)
    (handleIo_looksUp s) events ⟨s.sigHandlers, [], false⟩
  rw [dispatchAll, all.signalled, Bool.false_or]
  rfl

/-- The part of the loop that decides about an interrupted step. -/
def EventLoop.phase (s : EventLoop α) : Bool × Bool := (s.sigLoopHandled, s.pc.interrupted)

theorem callStep_phase {s t : EventLoop α} {a : Action α} (h : callStep s a = some t) :
    t.phase = s.phase ∧ t.pc = s.pc := by
  cases callStep_stepped h <;> exact ⟨rfl, rfl⟩

theorem afterPlan_phase (tickLast : Nat) (plan : PollPlan) :
    (afterPlan tickLast plan : Pc α).interrupted = false ∧
    (afterPlan tickLast plan : Pc α).Polls := by
  cases plan <;> exact ⟨rfl, by simp [afterPlan, Pc.Polls]⟩

/-- Apart from the dispatch and the end of the step no action enters or leaves the part of
an interrupted step behind its dispatch, or touches the flag. -/
theorem loopStep_phase {s t : EventLoop α} {a : Action α} (polls : s.pc.Polls)
    (h : loopStep s a = some t) (inner : ∀ handles signalled, a ≠ .dispatch handles signalled)
    (notEnd : a ≠ .stepEnd) : t.phase = s.phase ∧ t.pc.Polls := by
  cases loopStep_stepped h with
  | dispatch handles signalled => exact absurd rfl (inner handles signalled)
  | stepEnd => exact absurd rfl notEnd
  | run hpc | post hpc | leave _ hpc | enter _ hpc | noneReady _ _ hpc | enterPoll _ _ hpc
  | timers _ _ _ hpc
  | finish _ _ _ hpc | timersDone _ _ _ hpc | popTimer _ _ _ _ _ hpc | pop _ _ _ hpc =>
      exact ⟨by simp [EventLoop.phase, popFront, hpc, Pc.interrupted],
        by simp [popFront, hpc, Pc.Polls]⟩
  | ready tick tickLast hpc =>
      obtain ⟨early, ok⟩ := afterPlan_phase (α := α) tickLast (readyPlan tick tickLast)
      exact ⟨Prod.ext rfl (early.trans (congrArg Pc.interrupted hpc).symm), ok⟩
  | peek tick tickLast hpc =>
      exact ⟨by simp [EventLoop.phase, hpc, Pc.interrupted, afterPlan], trivial⟩
  | pollReturns result tick tickLast timeout hpc =>
      exact ⟨by simp [EventLoop.phase, hpc, Pc.interrupted], fun skipped => by cases skipped⟩
  | swap p hpc =>
      rw [hpc] at polls
      exact ⟨by simp [EventLoop.phase, hpc, Pc.interrupted], polls⟩
  | uncount p batch hpc =>
      rw [hpc] at polls
      split_ifs with skipped
      · exact ⟨by simp [EventLoop.phase, hpc, Pc.interrupted, polls skipped], trivial⟩
      · exact ⟨by simp [EventLoop.phase, hpc, Pc.interrupted], trivial⟩

theorem step_phase {s t : EventLoop α} {a : Action α} (polls : s.pc.Polls) (h : step s a = some t)
    (inner : ∀ handles signalled, a ≠ .dispatch handles signalled) (notEnd : a ≠ .stepEnd) :
    t.phase = s.phase ∧ t.pc.Polls := by
  rcases Option.or_eq_some_iff.mp h with hcall | ⟨-, hloop⟩
  · obtain ⟨phase, pc⟩ := callStep_phase hcall
    exact ⟨phase, pc ▸ polls⟩
  · exact loopStep_phase polls hloop inner notEnd

/-- The end of a step decides by the flag alone. -/
theorem step_end {s t : EventLoop α} (h : step s .stepEnd = some t) :
    ∃ p, s.pc = .batch p none [] ∧ t = stepEnd s p := by
  simp only [step, callStep, loopStep, Option.none_or] at h
  split at h <;> cases h
  next p hpc => exact ⟨p, hpc, rfl⟩

theorem step_dispatch {s t : EventLoop α} {handles : List (Entry α)} {signalled : Bool}
    (h : step s (.dispatch handles signalled) = some t) :
    ∃ p batch, s.pc = .dispatch p batch ∧ t.sigLoopHandled = (s.sigLoopHandled || signalled) ∧
      t.pc.interrupted = decide (p.result = .interrupted) ∧ t.pc.Polls := by
  simp only [step, callStep, loopStep, Option.none_or] at h
  split at h <;> cases h
  next p batch hpc => exact ⟨p, batch, hpc, rfl, rfl, trivial⟩

theorem SigLoop.step_loop {s t : SigLoop α} {a : Action α} (h : s.step (.loop a) = some t) :
    ∃ loop, Loop.step s.loop a = some loop ∧
      t = { s with loop, interrupts := s.interrupts ++ interruptsOf s a loop } := by
  have core : (Loop.step s.loop a).map (fun loop =>
      { s with loop, interrupts := s.interrupts ++ interruptsOf s a loop }) = some t := by
    cases a with
    | dispatch handles signalled => cases h
    | _ => exact h
  obtain ⟨loop, hloop, same⟩ := Option.map_eq_some_iff.mp core
  exact ⟨loop, hloop, same.symm⟩

theorem SigLoop.refines {s t : SigLoop α} {a : SigAction α} (h : s.step a = some t) :
    t.loop = s.loop ∨ ∃ b, Loop.step s.loop b = some t.loop := by
  cases a with
  | loop a =>
      obtain ⟨loop, hloop, rfl⟩ := SigLoop.step_loop h
      exact .inr ⟨a, hloop⟩
  | dispatch events =>
      obtain ⟨loop, hloop, rfl⟩ := Option.map_eq_some_iff.mp h
      exact .inr ⟨_, hloop⟩
  | sigAdd | sigRem | sigClear | setListening | setSsock =>
      cases h
      exact .inl rfl

/-- The scheduling core goes through a run of its own. -/
theorem SigLoop.reachable {s : SigLoop α} (h : Runs.Reachable SigLoop.step SigLoop.new s) :
    Runs.Reachable Loop.step Loop.new s.loop := by
  refine h.invariant (I := fun v => Runs.Reachable Loop.step Loop.new v.loop) ?_ ⟨[], rfl⟩
  rintro v a u ⟨before, hv⟩ hstep
  rcases SigLoop.refines hstep with same | ⟨b, hb⟩
  · exact ⟨before, same ▸ hv⟩
  · exact ⟨before ++ [b], Runs.run_append_iff.mpr ⟨_, hv, Runs.run_cons_iff.mpr ⟨_, hb, rfl⟩⟩⟩

/-- Within an interrupted step a handler met by its dispatch shows in the flag. -/
structure SigLoop.Sound (s : SigLoop α) : Prop where
  polls : s.loop.pc.Polls
  shows : s.loop.pc.interrupted = true → s.handled = true → s.loop.sigLoopHandled = true

/-- An interrupted step will go on for the sake of an earlier signal. -/
def SigLoop.Doomed (s : SigLoop α) : Prop :=
  s.loop.pc.interrupted = true ∧ s.loop.sigLoopHandled = true ∧ s.handled = false

/-- An action that is neither a dispatch nor the end of a step. -/
def SigAction.plain : SigAction α → Bool
  | .dispatch _ | .loop (.dispatch _ _) | .loop .stepEnd => false
  | _ => true

theorem SigLoop.step_plain {s t : SigLoop α} {a : SigAction α} (sound : s.Sound)
    (plain : a.plain = true) (h : s.step a = some t) :
    t.loop.phase = s.loop.phase ∧ t.loop.pc.Polls ∧ t.handled = s.handled ∧
    t.interrupts = s.interrupts := by
  cases a with
  | loop a =>
      have inner : ∀ handles signalled, a ≠ .dispatch handles signalled := by
        rintro handles signalled rfl
        cases plain
      have notEnd : a ≠ .stepEnd := by
        rintro rfl
        cases plain
      obtain ⟨loop, hloop, rfl⟩ := SigLoop.step_loop h
      obtain ⟨phase, polls⟩ := step_phase sound.polls hloop inner notEnd
      have silent : interruptsOf s a loop = [] := by
        cases a with
        | stepEnd => exact absurd rfl notEnd
        | _ => rfl
      exact ⟨phase, polls, rfl, by rw [silent, List.append_nil]⟩
  | dispatch events => cases plain
  | sigAdd | sigRem | sigClear | setListening | setSsock =>
      cases h
      exact ⟨rfl, sound.polls, rfl, rfl⟩

theorem SigLoop.step_dispatch {s t : SigLoop α} {events : List (IoEvent α)}
    (h : s.step (.dispatch events) = some t) : ∃ p batch, s.loop.pc = .dispatch p batch ∧
      t.loop.sigLoopHandled = (s.loop.sigLoopHandled || s.registered events) ∧
      t.loop.pc.interrupted = decide (p.result = .interrupted) ∧ t.loop.pc.Polls ∧
      t.handled = s.registered events ∧ t.interrupts = s.interrupts := by
  obtain ⟨loop, hloop, rfl⟩ := Option.map_eq_some_iff.mp h
  obtain ⟨p, batch, hpc, flag, late, polls⟩ := Loop.step_dispatch hloop
  exact ⟨p, batch, hpc, dispatchAll_signalled s events ▸ flag, late, polls, rfl, rfl⟩

/-- After an ordinary poll nothing is decided; after an interrupted one the flag decides. -/
theorem SigLoop.step_end {s t : SigLoop α} (h : s.step (.loop .stepEnd) = some t) :
    t.loop.pc.interrupted = false ∧ t.loop.pc.Polls ∧
      t.interrupts = s.interrupts ++
        if s.loop.pc.interrupted then [⟨s.handled, s.loop.sigLoopHandled⟩] else [] := by
  obtain ⟨loop, hloop, rfl⟩ := SigLoop.step_loop h
  obtain ⟨p, hpc, rfl⟩ := Loop.step_end hloop
  simp only [interruptsOf, hpc, Loop.stepEnd, Pc.interrupted]
  cases result : p.result with
  | ok | error => exact ⟨rfl, trivial, by simp⟩
  | interrupted =>
      simp only [if_true, decide_true]
      cases flag : s.loop.sigLoopHandled with
      | true => exact ⟨rfl, trivial, by simp [Pc.isTop]⟩
      | false => exact ⟨rfl, trivial, by simp [Pc.isTop]⟩

theorem phase_parts {s t : EventLoop α} (h : t.phase = s.phase) :
    t.sigLoopHandled = s.sigLoopHandled ∧ t.pc.interrupted = s.pc.interrupted :=
  ⟨congrArg Prod.fst h, congrArg Prod.snd h⟩

/-- Every action is a dispatch, the end of a step, or plain. -/
theorem SigAction.sort (a : SigAction α) :
    a.plain = true ∨ (∃ events, a = .dispatch events) ∨ a = .loop .stepEnd ∨
      ∃ handles signalled, a = .loop (.dispatch handles signalled) := by
  cases a with
  | dispatch events => exact .inr (.inl ⟨events, rfl⟩)
  | loop a =>
      cases a with
      | dispatch handles signalled => exact .inr (.inr (.inr ⟨handles, signalled, rfl⟩))
      | stepEnd => exact .inr (.inr (.inl rfl))
      | _ => exact .inl rfl
  | _ => exact .inl rfl

theorem SigLoop.Sound.step {s t : SigLoop α} {a : SigAction α} (sound : s.Sound)
    (h : s.step a = some t) : t.Sound := by
  rcases a.sort with plain | ⟨events, rfl⟩ | rfl | ⟨handles, signalled, rfl⟩
  · obtain ⟨phase, polls, handled, _⟩ := SigLoop.step_plain sound plain h
    obtain ⟨flag, late⟩ := phase_parts phase
    refine ⟨polls, ?_⟩
    rw [late, handled, flag]
    exact sound.shows
  · obtain ⟨p, batch, _, flag, _, polls, handled, _⟩ := SigLoop.step_dispatch h
    refine ⟨polls, fun _ met => ?_⟩
    rw [flag, ← handled, met, Bool.or_true]
  · obtain ⟨early, polls, _⟩ := SigLoop.step_end h
    refine ⟨polls, fun late => ?_⟩
    rw [early] at late
    cases late
  · cases h

theorem SigLoop.Attributed.step {s t : SigLoop α} {a : SigAction α} (sound : s.Sound)
    (fair : s.Attributed) (healthy : ¬ s.Doomed) (h : s.step a = some t) : t.Attributed ∧
    ¬ t.Doomed ↔ Unstale s a := by
  rcases a.sort with plain | ⟨events, rfl⟩ | rfl | ⟨handles, signalled, rfl⟩
  · obtain ⟨phase, _, handled, interrupts⟩ := SigLoop.step_plain sound plain h
    obtain ⟨flag, late⟩ := phase_parts phase
    have free : Unstale s a := by
      cases a with
      | dispatch events => cases plain
      | _ => trivial
    refine iff_of_true ⟨?_, ?_⟩ free
    · rwa [SigLoop.Attributed, interrupts]
    · rwa [SigLoop.Doomed, late, flag, handled]
  · obtain ⟨p, batch, hpc, flag, late, _, handled, interrupts⟩ := SigLoop.step_dispatch h
    have kept : t.Attributed := by rwa [SigLoop.Attributed, interrupts]
    simp only [kept, true_and, SigLoop.Doomed, late, flag, handled, Unstale, hpc, Pc.reports]
    constructor
    · intro fine interrupted stale
      by_contra unmet
      exact fine ⟨interrupted, by simp [stale], Bool.eq_false_iff.mpr unmet⟩
    · rintro fresh ⟨interrupted, set, unmet⟩
      rw [unmet, Bool.or_false] at set
      rw [fresh interrupted set] at unmet
      cases unmet
  · obtain ⟨early, _, interrupts⟩ := SigLoop.step_end h
    refine iff_of_true ⟨?_, fun doomed => ?_⟩ trivial
    · rw [SigLoop.Attributed, interrupts]
      intro i hi
      rcases List.mem_append.mp hi with old | new
      · exact fair i old
      · cases late : s.loop.pc.interrupted with
        | false => simp [late] at new
        | true =>
            rw [late, if_pos rfl, List.mem_singleton] at new
            subst new
            constructor
            · intro set
              by_contra unmet
              exact healthy ⟨late, set, Bool.eq_false_iff.mpr unmet⟩
            · exact sound.shows late
    · rw [SigLoop.Doomed, early] at doomed
      cases doomed.1
  · cases h

theorem SigLoop.Doomed.step {s t : SigLoop α} {a : SigAction α} (sound : s.Sound)
    (doomed : s.Doomed) (h : s.step a = some t) (fair : t.Attributed) : t.Doomed := by
  obtain ⟨late, set, unmet⟩ := doomed
  rcases a.sort with plain | ⟨events, rfl⟩ | rfl | ⟨handles, signalled, rfl⟩
  · obtain ⟨phase, _, handled, _⟩ := SigLoop.step_plain sound plain h
    obtain ⟨flag, same⟩ := phase_parts phase
    exact ⟨same.trans late, flag.trans set, handled.trans unmet⟩
  · obtain ⟨p, batch, hpc, _⟩ := SigLoop.step_dispatch h
    rw [hpc] at late
    cases late
  · obtain ⟨_, _, interrupts⟩ := SigLoop.step_end h
    have judged := fair ⟨s.handled, s.loop.sigLoopHandled⟩ (by rw [interrupts, late]; simp)
    rw [set, unmet] at judged
    exact absurd (judged.mp rfl) Bool.false_ne_true
  · cases h

theorem sound_new : (SigLoop.new : SigLoop α).Sound := ⟨trivial, fun late => by cases late⟩

/-- A run in which no dispatch of an interrupted step meets a stale flag attributes every
interrupted poll to the right step; a run that does so, and stands in no step that is
still to be decided by a stale flag, met none. -/
theorem interrupts_attributed_iff (actions : List (SigAction α)) (s : SigLoop α)
    (h : Runs.run SigLoop.step SigLoop.new actions = some s) :
    (Runs.Guarded SigLoop.step Unstale SigLoop.new actions →
        Runs.Always SigLoop.step SigLoop.Attributed SigLoop.new actions) ∧
      (¬ s.Doomed → Runs.Always SigLoop.step SigLoop.Attributed SigLoop.new actions →
        Runs.Guarded SigLoop.step Unstale SigLoop.new actions) :=
  Runs.always_iff_guarded_settled (I := SigLoop.Sound) (P := SigLoop.Attributed)
      (D := SigLoop.Doomed)
    (fun _ _ _ sound _ hstep _ => sound.step hstep)
    (fun _ _ _ sound fair healthy hstep => fair.step sound healthy hstep)
    (fun _ _ _ sound _ doomed hstep fair => doomed.step sound hstep fair) h sound_new
    (fun i hi => by cases hi) (fun doomed => by cases doomed.1)

/-- One step of an idle loop: the poll ends with `result`, and the byte `sig` is read. -/
def idleStep (result : PollOutcome) (sig : UInt8) (tick : Nat) : List (SigAction Unit) :=
  [.loop .top, .loop (.load tick), .loop (.peek tick), .loop .enterPoll,
      .loop (.pollReturns result tick),
    .loop .swap, .loop .uncount, .dispatch [.signals [sig]], .loop (.timers tick),
    .loop .timersDone]

/-- The loop runs with a handler for the signal 10. -/
def withHandler : List (SigAction Unit) :=
  [.sigAdd 10 7 (), .setListening true, .setSsock true, .loop .run]

/-- The handler of the signal reaches the front of the batch and the step ends. -/
def handlerRuns : List (SigAction Unit) := [.loop .pop, .loop .finish, .loop .stepEnd]

theorem interrupts_attributed_handled :
    ∃ s, Runs.run SigLoop.step SigLoop.new
    (withHandler ++ idleStep .interrupted 10 1000 ++ handlerRuns) = some s ∧
      s.interrupts = [⟨true, true⟩] ∧ Runs.Always SigLoop.step SigLoop.Attributed SigLoop.new
        (withHandler ++ idleStep .interrupted 10 1000 ++ handlerRuns) := by
  refine ⟨_, rfl, rfl, ?_⟩
  exact (interrupts_attributed_iff _ _ rfl).1 (by decide)

/-- The handled signal arrives while callbacks run; Ctrl-C interrupts the next, idle poll. -/
theorem stale_flag_suppresses :
    ¬ ∀ (actions : List (SigAction Unit)) (s : SigLoop Unit),
      Runs.run SigLoop.step SigLoop.new actions = some s → s.Attributed := by
  intro always
  obtain ⟨s, hrun, interrupts⟩ : ∃ s, Runs.run SigLoop.step SigLoop.new
      (withHandler ++ idleStep .ok 10 1000 ++ handlerRuns ++ idleStep .interrupted 2
        2000 ++ [.loop .stepEnd]) = some s ∧ s.interrupts = [⟨false, true⟩] := ⟨_, rfl, rfl⟩
  have judged := always _ s hrun ⟨false, true⟩ (by rw [interrupts]; exact List.mem_cons_self)
  cases judged.mp rfl

end TokioLoop.Loop
