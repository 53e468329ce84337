import Mathlib.Data.List.Basic
import TokioLoop.IoTable

/-!
The reader and writer callbacks in one step of the loop: the events of a poll are turned
into copies of the callback handles before any of them runs, and the copies run from the
front of the batch, each checked for its `cancelled` flag only. The calls on the table
come from the running callbacks and from other threads, so at any point.

A `CBHandle` is its identity: the number of the call that made it. The log has the
removals and the executions in the order in which they happen.
-/
namespace TokioLoop.Io.Batch

open Runs Tcp

/-- A handle of the batch: a copy from a `py` entry, or one of the ready queue, of the
timers or of a transport. -/
inductive Queued where
  | io (id : Nat)
  | task
  deriving DecidableEq

inductive Seen where
  | removed (id : Nat)
  | ran (id : Nat)
  deriving DecidableEq

structure Loop where
  table : Table Nat
  next : Nat
  cancelled : Nat → Bool
  dispatching : Bool
  cbHandles : List Queued
  log : List Seen

inductive Action where
  | poll (ready : Nat)
  | event (fd : Nat) (readable writable : Bool) (accepted : Nat)
  | timers (due : Nat)
  | pop
  | call (c : Call Unit)
  | cancel (id : Nat)

/-- The call with the handle it makes. -/
def withHandle (id : Nat) : Call Unit → Call Nat
  | .addReader fd _ => .addReader fd id
  | .addWriter fd _ => .addWriter fd id
  | .removeReader fd => .removeReader fd
  | .removeWriter fd => .removeWriter fd

def handleIoPy (data : PyHandleData Nat) (readable writable : Bool) : List Queued :=
  (if readable then data.cbr.toList.map .io else []) ++ if writable then data.cbw.toList.map .io
    else []

/-- The handles for one event; the number for an entry of a transport is open. -/
def dispatch (t : Table Nat) (fd : Nat) (readable writable : Bool) (accepted : Nat) : List Queued :=
  match t.handlesIo fd with
  | some (.py data) => handleIoPy data readable writable
  | some _ => List.replicate accepted .task
  | none => []

/-- What taking a handle from the batch executes. -/
def Loop.executes (s : Loop) : Queued → List Seen
  | .io id => if s.cancelled id then [] else [.ran id]
  | .task => []

/-- The callback that stands where the call will put its own or nothing. -/
def Loop.occupant (s : Loop) (c : Call Unit) : Option Nat :=
  s.table.slots (withHandle s.next c).fd (withHandle s.next c).dir

def step (s : Loop) : Action → Option Loop
  | .poll ready =>
      if s.dispatching = false ∧ s.cbHandles = [] then
        some { s with dispatching := true, cbHandles := List.replicate ready .task }
      else none
  | .event fd readable writable accepted =>
      if s.dispatching then
        some { s with cbHandles := s.cbHandles ++ dispatch s.table fd readable writable accepted }
      else none
  | .timers due =>
      if s.dispatching then
        some { s with dispatching := false, cbHandles := s.cbHandles ++ List.replicate due .task }
      else none
  | .pop =>
      match s.cbHandles with
      | [] => none
      | handle :: rest =>
          if s.dispatching then none
            else some { s with cbHandles := rest, log := s.log ++ s.executes handle }
  | .call c =>
      (Io.step s.table (withHandle s.next c)).map fun table =>
        { s with table := table, next := s.next + 1, log :=
          s.log ++ (s.occupant c).toList.map .removed }
  | .cancel id => some { s with cancelled := Function.update s.cancelled id true }

/-- No callback runs once it has been removed. -/
def Clean (log : List Seen) : Prop :=
  log.Pairwise fun earlier later => ∀ id, earlier = .removed id → later ≠ .ran id

/-- The call takes no callback off its slot of which the batch has a copy that is not
cancelled. -/
def NotQueued (s : Loop) : Action → Prop
  | .call c => ∀ id, s.occupant c = some id → .io id ∈ s.cbHandles → s.cancelled id = true
  | _ => True

/-- A loop whose table has entries of transports only. -/
structure Started (s : Loop) : Prop where
  entries : ∀ fd data, s.table.handlesIo fd ≠ some (.py data)
  batch : s.cbHandles = []
  log : s.log = []

/-- Identities are used once, and a removed callback is neither in the table nor, unless
it is cancelled, in the batch. -/
structure Inv (s : Loop) : Prop where
  clean : Clean s.log
  matched : s.table.Matches
  fresh : ∀ fd d id, s.table.slots fd d = some id → id < s.next
  once : ∀ fd d gd e id, s.table.slots fd d = some id → s.table.slots gd e = some id →
      fd = gd ∧ d = e
  past : ∀ id, Seen.removed id ∈ s.log → id < s.next
  off : ∀ id, Seen.removed id ∈ s.log → ∀ fd d, s.table.slots fd d ≠ some id
  quiet : ∀ id, Seen.removed id ∈ s.log → Queued.io id ∈ s.cbHandles → s.cancelled id = true

variable {s t : Loop}

theorem clean_append_iff {log more : List Seen} :
    Clean (log ++ more) ↔ Clean log ∧ Clean more ∧ ∀ id, .removed id ∈ log → .ran id ∉ more := by
  simp only [Clean, List.pairwise_append]
  refine and_congr_right fun _ => and_congr_right fun _ => ?_
  constructor
  · intro h id removed ran
    exact h _ removed _ ran id rfl rfl
  · rintro h earlier he later hl id rfl rfl
    exact h id he hl

theorem clean_executes (handle : Queued) : Clean (s.executes handle) := by
  cases handle with
  | io id =>
      simp only [Loop.executes]
      split
      · exact .nil
      · exact List.pairwise_singleton _ _
  | task => exact .nil

theorem clean_removed (ids : List Nat) : Clean (ids.map .removed) := by
  rw [Clean, List.pairwise_map]
  exact List.pairwise_of_forall fun _ _ _ _ => Seen.noConfusion

theorem ran_mem_executes {handle : Queued} {id : Nat} :
    .ran id ∈ s.executes handle ↔ handle = .io id ∧ s.cancelled id = false := by
  cases handle with
  | io other =>
      simp only [Loop.executes]
      cases hc : s.cancelled other with
      | true =>
          refine iff_of_false (by simp) ?_
          rintro ⟨same, live⟩
          cases same
          rw [hc] at live
          cases live
      | false =>
          simp only [Bool.false_eq_true, if_false, List.mem_singleton, Seen.ran.injEq,
            Queued.io.injEq]
          constructor
          · rintro rfl
            exact ⟨rfl, hc⟩
          · rintro ⟨rfl, -⟩
            rfl
  | task => exact iff_of_false (by simp [Loop.executes]) (by simp)

theorem removed_not_mem_executes {handle : Queued}
    {id : Nat} : .removed id ∉ s.executes handle := by
  cases handle with
  | io other =>
      simp only [Loop.executes]
      split <;> simp
  | task => simp [Loop.executes]

/-- Dispatch copies callbacks that are in the table. -/
theorem io_mem_dispatch {t : Table Nat} {fd accepted id : Nat} {readable writable : Bool}
    (h : .io id ∈ dispatch t fd readable writable accepted) : ∃ d, t.slots fd d = some id := by
  unfold dispatch at h
  split at h
  next data there =>
    simp only [handleIoPy, List.mem_append] at h
    rcases h with h | h
    · split at h
      · simp only [List.mem_map, Option.mem_toList, Queued.io.injEq, exists_eq_right] at h
        exact ⟨.readable, (slots_of_entry there _).trans h⟩
      · cases h
    · split at h
      · simp only [List.mem_map, Option.mem_toList, Queued.io.injEq, exists_eq_right] at h
        exact ⟨.writable, (slots_of_entry there _).trans h⟩
      · cases h
  next => simp at h
  next => cases h

theorem puts_withHandle {c : Call Unit} {id next : Nat} (h : (withHandle next c).puts = some id) :
    id = next := by
  cases c <;> simp_all [withHandle, Call.puts]

/-- After a call the slots are as before, except for its own, which holds the new
handle or nothing. -/
theorem call_slots {c : Call Unit} {table : Table Nat} (matched : s.table.Matches)
    (h : Io.step s.table (withHandle s.next c) = some table) {fd : Nat} {d : Dir} {id : Nat}
    (there : table.slots fd d = some id) :
    (fd = (withHandle s.next c).fd ∧ d = (withHandle s.next c).dir ∧ id = s.next) ∨
      (s.table.slots fd d = some id ∧
        ¬ (fd = (withHandle s.next c).fd ∧ d = (withHandle s.next c).dir)) := by
  obtain ⟨r, executed⟩ := step_executed h
  rw [executed_slots executed matched] at there
  simp only [Call.spec] at there
  split at there
  next here => exact .inl ⟨here.1, here.2, puts_withHandle there⟩
  next apart => exact .inr ⟨there, apart⟩

theorem started_inv (h : Started s) : Inv s := by
  have slots : ∀ fd d id, s.table.slots fd d ≠ some id := by
    intro fd d id there
    simp only [Table.slots, Option.bind_eq_some_iff] at there
    obtain ⟨entry, he, hs⟩ := there
    cases entry with
    | py data => exact h.entries fd data he
    | _ => cases hs
  have removed : ∀ id, Seen.removed id ∉ s.log := fun id => by rw [h.log]; exact List.not_mem_nil
  exact
    { clean := by rw [h.log]; exact .nil
      matched := fun fd data there => absurd there (h.entries fd data)
      fresh := fun fd d id there => absurd there (slots fd d id)
      once := fun fd d gd e id there _ => absurd there (slots fd d id)
      past := fun id gone => absurd gone (removed id)
      off := fun id gone => absurd gone (removed id)
      quiet := fun id gone => absurd gone (removed id) }

/-- More handles in the batch, each of a callback in the table. -/
theorem Inv.extend (inv : Inv s) (more : List Queued) (dispatching : Bool)
    (there : ∀ id, .io id ∈ more → ∃ fd d, s.table.slots fd d = some id) :
    Inv { s with dispatching := dispatching, cbHandles := s.cbHandles ++ more } where
  clean := inv.clean
  matched := inv.matched
  fresh := inv.fresh
  once := inv.once
  past := inv.past
  off := inv.off
  quiet := by
    intro id gone queued
    rcases List.mem_append.mp queued with old | new
    · exact inv.quiet id gone old
    · obtain ⟨fd, d, hs⟩ := there id new
      exact absurd hs (inv.off id gone fd d)

theorem Inv.popped {handle : Queued} {rest : List Queued} (inv : Inv s)
    (batch : s.cbHandles = handle :: rest) : Inv
    { s with cbHandles := rest, log := s.log ++ s.executes handle } := by
  have old : ∀ id, Seen.removed id ∈ s.log ++ s.executes handle → Seen.removed id ∈ s.log := by
    intro id gone
    exact (List.mem_append.mp gone).resolve_right removed_not_mem_executes
  have quiet : ∀ id, Seen.removed id ∈ s.log → Queued.io id ∈ handle ::
      rest → s.cancelled id = true := by
    intro id gone queued
    exact inv.quiet id gone (batch ▸ queued)
  have clean : Clean (s.log ++ s.executes handle) := by
    refine clean_append_iff.mpr ⟨inv.clean, clean_executes handle, fun id gone ran => ?_⟩
    obtain ⟨rfl, live⟩ := ran_mem_executes.mp ran
    rw [quiet id gone List.mem_cons_self] at live
    cases live
  exact
    { clean := clean
      matched := inv.matched
      fresh := inv.fresh
      once := inv.once
      past := fun id gone => inv.past id (old id gone)
      off := fun id gone => inv.off id (old id gone)
      quiet := fun id gone queued => quiet id (old id gone) (List.mem_cons_of_mem handle queued) }

theorem Inv.called {c : Call Unit} {table : Table Nat} (inv : Inv s) (good : NotQueued s (.call c))
    (h : Io.step s.table (withHandle s.next c) = some table) :
    Inv { s with table := table, next := s.next + 1, log :=
      s.log ++ (s.occupant c).toList.map .removed } := by
  have gone : ∀ id, Seen.removed id ∈ s.log ++ (s.occupant c).toList.map .removed →
      Seen.removed id ∈ s.log ∨ s.occupant c = some id := by
    intro id hid
    simpa [List.mem_append] using hid
  -- the occupant is in no other slot, and the new handle is not the occupant
  have replaced : ∀ id, s.occupant c = some id → ∀ fd d, table.slots fd d ≠ some id := by
    intro id hid fd d there
    rcases call_slots inv.matched h there with ⟨-, -, rfl⟩ | ⟨old, apart⟩
    · exact absurd (inv.fresh _ _ _ hid) (Nat.lt_irrefl _)
    · exact apart (inv.once _ _ _ _ id old hid)
  exact
    { clean := by
        refine clean_append_iff.mpr ⟨inv.clean, clean_removed _, fun id _ ran => ?_⟩
        simp at ran
      matched := step_matches _ _ _ inv.matched h
      fresh := by
        intro fd d id there
        rcases call_slots inv.matched h there with ⟨-, -, rfl⟩ | ⟨old, -⟩
        · exact Nat.lt_succ_self _
        · exact Nat.lt_succ_of_lt (inv.fresh fd d id old)
      once := by
        intro fd d gd e id first second
        rcases call_slots inv.matched h first with ⟨rfl, rfl, rfl⟩ | ⟨old, -⟩
        · rcases call_slots inv.matched h second with ⟨rfl, rfl, -⟩ | ⟨older, -⟩
          · exact ⟨rfl, rfl⟩
          · exact absurd (inv.fresh _ _ _ older) (Nat.lt_irrefl _)
        · rcases call_slots inv.matched h second with ⟨-, -, rfl⟩ | ⟨older, -⟩
          · exact absurd (inv.fresh _ _ _ old) (Nat.lt_irrefl _)
          · exact inv.once fd d gd e id old older
      past := by
        intro id hid
        rcases gone id hid with old | occupant
        · exact Nat.lt_succ_of_lt (inv.past id old)
        · exact Nat.lt_succ_of_lt (inv.fresh _ _ _ occupant)
      off := by
        intro id hid fd d there
        rcases gone id hid with old | occupant
        · rcases call_slots inv.matched h there with ⟨-, -, rfl⟩ | ⟨before, -⟩
          · exact absurd (inv.past _ old) (Nat.lt_irrefl _)
          · exact inv.off id old fd d before
        · exact replaced id occupant fd d there
      quiet := by
        intro id hid queued
        rcases gone id hid with old | occupant
        · exact inv.quiet id old queued
        · exact good id occupant queued }

theorem step_inv (s : Loop) (a : Action) (t : Loop) (inv : Inv s) (good : NotQueued s a)
    (h : step s a = some t) : Inv t := by
  cases a with
  | poll ready =>
      obtain ⟨free, rfl⟩ := Option.ite_none_right_eq_some.mp h |>.imp_right Option.some.inj
      have extended := inv.extend (List.replicate ready .task) true (by simp)
      rwa [free.2, List.nil_append] at extended
  | event fd readable writable accepted =>
      obtain ⟨-, rfl⟩ := Option.ite_none_right_eq_some.mp h |>.imp_right Option.some.inj
      exact inv.extend _ _ fun id queued => ⟨fd, io_mem_dispatch queued⟩
  | timers due =>
      obtain ⟨-, rfl⟩ := Option.ite_none_right_eq_some.mp h |>.imp_right Option.some.inj
      exact inv.extend _ _ (by simp)
  | pop =>
      simp only [step] at h
      split at h
      · cases h
      next handle rest batch =>
        obtain ⟨-, rfl⟩ := Option.ite_none_left_eq_some.mp h |>.imp_right Option.some.inj
        exact inv.popped batch
  | call c =>
      obtain ⟨table, called, rfl⟩ := Option.map_eq_some_iff.mp h
      exact inv.called good called
  | cancel id =>
      cases h
      refine { inv with quiet := fun other gone queued => ?_ }
      have flag := inv.quiet other gone queued
      by_cases same : other = id
      · exact (congrArg _ same).trans (Function.update_self id true s.cancelled)
      · exact (Function.update_of_ne same true s.cancelled).trans flag

/-- In every state of a run in which no call takes away a callback that the batch still
holds uncancelled, no removed callback has run. -/
theorem removed_never_runs {actions : List Action} (start : Started s)
    (guarded : Guarded step NotQueued s actions) : Always step (fun t => Clean t.log) s actions :=
  (always_of_guarded step_inv (started_inv start) guarded).mono fun _ inv => inv.clean

/-- The rest of the batch, run with no call in between. -/
theorem run_pops (running : s.dispatching = false) :
    run step s (List.replicate s.cbHandles.length .pop) =
      some { s with cbHandles := [], log := s.log ++ s.cbHandles.flatMap s.executes } := by
  obtain ⟨table, next, cancelled, dispatching, batch, log⟩ := s
  induction batch generalizing log with
  | nil => simp
  | cons handle rest ih =>
      have running' : dispatching = false := running
      rw [List.length_cons, List.replicate_succ, run_cons]
      simp only [step, running', Bool.false_eq_true, if_false, Option.bind_some]
      have later := ih (log ++ Loop.executes ⟨table, next, cancelled, dispatching, handle :: rest,
        log⟩ handle) running
      rw [running'] at later
      rw [show Loop.executes ⟨table, next, cancelled, false, handle :: rest, log⟩ =
        Loop.executes ⟨table, next, cancelled, dispatching, handle :: rest, log⟩ from rfl]
      refine later.trans ?_
      rw [List.flatMap_cons, List.append_assoc]
      rfl

/-- The condition is needed: after a call that takes away a callback of the running
batch, the rest of the batch runs it. -/
theorem queued_runs_after_removal {c : Call Unit} (h : step s (.call c) = some t)
    (running : s.dispatching = false) (queued : ¬ NotQueued s (.call c)) :
    ∃ u, run step t (List.replicate t.cbHandles.length .pop) = some u ∧ ¬ Clean u.log := by
  obtain ⟨table, called, rfl⟩ := Option.map_eq_some_iff.mp h
  refine ⟨_, run_pops running, fun clean => queued fun id occupant copy => ?_⟩
  have apart := (clean_append_iff.mp clean).2.2 id (by simp [occupant])
  cases live : s.cancelled id with
  | true => rfl
  | false =>
      exact absurd (List.mem_flatMap.mpr ⟨.io id, copy, ran_mem_executes.mpr ⟨rfl, live⟩⟩) apart

def fresh : Loop := ⟨Table.empty, 0, fun _ => false, false, [], []⟩

theorem fresh_started : Started fresh := by
  refine ⟨fun fd data there => ?_, rfl, rfl⟩
  cases there

/-- A reader that is ready runs, and is removed afterwards. -/
theorem removed_never_runs_afterwards :
    Always step (fun t => Clean t.log) fresh
      [.call (.addReader 3 ()), .poll 0, .event 3 true false 0, .timers 0, .pop,
        .call (.removeReader 3)] := by
  refine removed_never_runs fresh_started ?_
  refine guarded_cons rfl ?_ (guarded_cons rfl trivial
    (guarded_cons rfl trivial (guarded_cons rfl trivial
      (guarded_cons rfl trivial (guarded_cons rfl ?_ trivial)))))
  · exact fun id occupant => nomatch occupant
  · exact fun id _ copy => nomatch copy

/-- Two readers are ready in one poll and the first one removes the second, which runs
nevertheless. -/
theorem removed_runs_in_batch :
    ¬ ∀ (s : Loop) (actions : List Action), Started s → Always step
    (fun t => Clean t.log) s actions := by
  intro claim
  have always := claim fresh [.call (.addReader 3 ()), .call (.addReader 4 ()), .poll 0,
    .event 3 true false 0, .event 4 true false 0, .timers 0, .pop, .call (.removeReader 4),
    .pop] fresh_started
  have clean := always.last rfl
  have log : Clean ([.ran 0, .removed 1] ++ [.ran 1]) := clean
  exact (clean_append_iff.mp log).2.2 1 (by decide) (by decide)

end TokioLoop.Io.Batch
