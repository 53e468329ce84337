import TokioLoop.IoDispatch

/-!
Readers over an edge-triggered poller. A descriptor is reported readable when data arrives
while it is registered for `READABLE`, or when it is registered with data in it, and then
not again for the same data: what a callback leaves there waits until one of the two
happens once more.

The callbacks read as much as they like, and so may other code; the calls on the table
come at any point.
-/
namespace TokioLoop.Io.Readers

open Runs Dispatch
open Tcp (Dir Interest)

/-- The loop with the descriptors: `unread` bytes in each, `edge` where the poller has an
event for a reader; `running` is the callback in progress. -/
structure Loop where
  table : Table Callback
  next : Nat
  cancelled : Nat → Bool
  dispatching : Bool
  cbHandles : List Queued
  running : Option Callback
  unread : Nat → Nat
  edge : Nat → Bool

inductive Action where
  | poll (ready : Nat)
  | event (fd : Nat) (readable writable : Bool) (others : Nat)
  | timers (due : Nat)
  | pop
  | read (fd n : Nat)
  | done
  | arrive (fd n : Nat)
  | call (c : Call Unit)
  | cancel (id : Nat)

/-- The poller watches this direction of the descriptor. -/
def watched (t : Table Callback) (fd : Nat) (d : Dir) : Bool :=
  (t.registered fd).any (Interest.has d)

/-- An event the poller can report. -/
def Loop.ready (s : Loop) (fd : Nat) (readable writable : Bool) : Bool :=
  (!readable || watched s.table fd .readable && (s.edge fd || decide (0 < s.unread fd))) &&
    (!writable || watched s.table fd .writable)

/-- `others` is the number of handles for an entry of a transport. -/
def handlesOf (t : Table Callback) (fd : Nat) (readable writable : Bool)
    (others : Nat) : List Queued :=
  match t.handlesIo fd with
  | some (.py data) => (handleIoPy data readable writable).map .io
  | some _ => List.replicate others .task
  | none => []

/-- The callback that a handle runs. -/
def Loop.starts (s : Loop) : Queued → Option Callback
  | .io cb => if s.cancelled cb.id then none else some cb
  | _ => none

/-- The call of the registry by this call, unless it removes nothing. -/
def registers (t : Table Callback) (c : Call Unit) : Bool :=
  c.puts.isSome || (t.handlesIo c.fd).isSome

def step (s : Loop) : Action → Option Loop
  | .poll ready =>
      if s.dispatching = false ∧ s.cbHandles = [] ∧ s.running = none then
        some { s with dispatching := true, cbHandles := List.replicate ready .task }
      else none
  | .event fd readable writable others =>
      if s.dispatching ∧ s.ready fd readable writable then
        some { s with
          cbHandles := s.cbHandles ++ handlesOf s.table fd readable writable others
          edge := Function.update s.edge fd (s.edge fd && !readable) }
      else none
  | .timers due =>
      if s.dispatching then
        some { s with dispatching := false, cbHandles := s.cbHandles ++ List.replicate due .task }
      else none
  | .pop =>
      match s.cbHandles with
      | [] => none
      | handle :: rest =>
          if s.dispatching = false ∧ s.running = none then
            some { s with cbHandles := rest, running := s.starts handle }
          else none
  | .read fd n =>
      if n ≤ s.unread fd then some { s with
        unread := Function.update s.unread fd (s.unread fd - n) } else none
  | .done => s.running.map fun _ => { s with running := none }
  | .arrive fd n =>
      some { s with
        unread := Function.update s.unread fd (s.unread fd + n)
        edge := Function.update s.edge fd (s.edge fd || watched s.table fd .readable) }
  | .call c =>
      (Io.step s.table (named s.next c)).map fun table =>
        { s with
          table
          next := s.next + 1
          edge := if registers s.table c then
              Function.update s.edge c.fd
                  (watched table c.fd .readable && decide (0 < s.unread c.fd))
            else s.edge }
  | .cancel id => some { s with cancelled := Function.update s.cancelled id true }

def Loop.HasReader (s : Loop) (fd : Nat) : Prop := (s.table.slots fd .readable).isSome = true

/-- The loop is about to poll. -/
def Loop.Quiet (s : Loop) : Prop := s.dispatching = false ∧ s.cbHandles = [] ∧ s.running = none

/-- The descriptor has a reader and unread data, and the poller will not report it. -/
def Starved (s : Loop) (fd : Nat) : Prop := s.HasReader fd ∧ 0 < s.unread fd ∧ s.edge fd = false

def NeverStarved (s : Loop) : Prop := s.Quiet → ∀ fd, ¬ Starved s fd

/-- A reader's callback is in the batch or in progress. -/
def Loop.Served (s : Loop) (fd : Nat) : Prop :=
  ∃ cb : Callback, cb.fd = fd ∧ cb.dir = .readable ∧ (.io cb ∈ s.cbHandles ∨ s.running = some cb)

/-- At any moment the data of a reader is announced or about to be read. -/
def Attended (s : Loop) : Prop :=
  ∀ fd, s.HasReader fd → 0 < s.unread fd → s.edge fd = true ∨ s.Served fd

/-- Nothing is left in the descriptor of a reader's callback that goes, unless there is news
of it or another one is queued. -/
def Loop.Leaves (s : Loop) (cb : Callback) : Prop :=
  cb.dir = .readable → s.HasReader cb.fd → 0 < s.unread cb.fd → s.edge cb.fd = true ∨ s.Served cb.fd

/-- The condition on a step. A callback returns with its descriptor read empty, announced
again or without a reader; so does a cancelled one that is passed over. Data does not
come to a reader that the poller does not know of, nor such a reader to data. -/
def Drains (s : Loop) : Action → Prop
  | .pop => ∀ cb rest, s.cbHandles = .io cb :: rest → s.cancelled cb.id = true →
      { s with cbHandles := rest }.Leaves cb
  | .done => ∀ cb, s.running = some cb → { s with running := none }.Leaves cb
  | .arrive fd n =>
      0 < n → s.HasReader fd → watched s.table fd .readable = true ∨ s.edge fd = true ∨ s.Served fd
  | .call (.addReader fd _) => ∀ data, s.table.handlesIo fd = some (.py data) → data.cbr = none →
      0 < s.unread fd → s.Served fd
  | _ => True

/-- A loop whose table has entries of transports only. -/
structure Started (s : Loop) : Prop where
  entries : ∀ fd data, s.table.handlesIo fd ≠ some (.py data)
  quiet : s.Quiet

variable {s t : Loop}

/-- The readers a step leaves attended are those it found so, or served itself. -/
theorem Attended.step (h : Attended s) (readers : ∀ fd, t.HasReader fd → s.HasReader fd)
    (data : ∀ fd, 0 < t.unread fd → 0 < s.unread fd)
    (covers : ∀ fd, t.HasReader fd → s.edge fd = true ∨ s.Served fd → t.edge fd = true ∨
      t.Served fd) :
    Attended t :=
  fun fd reader some => covers fd reader (h fd (readers fd reader) (data fd some))

theorem Loop.Served.more {fd : Nat} (h : s.Served fd) {more : List Queued}
    (queued : t.cbHandles = s.cbHandles ++ more) (running : t.running = s.running) :
    t.Served fd := by
  obtain ⟨cb, home, dir, there⟩ := h
  refine ⟨cb, home, dir, there.imp (fun old => ?_) fun now => running.trans now⟩
  rw [queued]
  exact List.mem_append_left more old

/-- A handle goes: what it served has to be served otherwise. -/
theorem attended_leaves_iff (h : Attended s) {cb : Callback} (table : t.table = s.table)
    (unread : t.unread = s.unread) (edge : t.edge = s.edge)
    (served : ∀ fd, s.Served fd → t.Served fd ∨ cb.fd = fd ∧ cb.dir = .readable) :
    Attended t ↔ t.Leaves cb := by
  constructor
  · intro attended readable reader some
    exact attended cb.fd reader some
  · intro leaves fd reader some
    have before := h fd (by rw [Loop.HasReader, ← table]; exact reader)
      (by rw [← unread]; exact some)
    rw [← edge] at before
    rcases before with news | there
    · exact .inl news
    · rcases served fd there with still | ⟨rfl, readable⟩
      · exact .inr still
      · exact leaves readable reader some

/-- A reader that is reported readable gets into the batch. -/
theorem event_served {fd : Nat} {writable : Bool} {others : Nat} (housed : Housed s.table)
    (reader : s.HasReader fd) (queued :
      t.cbHandles = s.cbHandles ++ handlesOf s.table fd true writable others) : t.Served fd := by
  obtain ⟨cb, slot⟩ := Option.isSome_iff_exists.mp reader
  obtain ⟨entry, there, found⟩ := Option.bind_eq_some_iff.mp slot
  obtain ⟨home, dir⟩ := housed.home fd .readable cb slot
  cases entry with
  | py data =>
      refine ⟨cb, home, dir, .inl ?_⟩
      rw [queued, handlesOf, there]
      refine List.mem_append_right _ (List.mem_map.mpr ⟨cb, ?_, rfl⟩)
      rw [handleIoPy, if_pos rfl]
      exact List.mem_append_left _ (Option.mem_toList.mpr found)
  | signals | tcpListener | tcpStream | udpSocket => cases found

theorem pop_attended_iff {handle : Queued} {rest : List Queued} (h : Attended s)
    (batch : s.cbHandles = handle :: rest) (idle : s.running = none) :
    Attended { s with cbHandles := rest, running := s.starts handle } ↔ Drains s .pop := by
  have goes : ∀ fd, s.Served fd → ∃ cb : Callback, cb.fd = fd ∧ cb.dir = .readable ∧
      (handle = .io cb ∨ .io cb ∈ rest) := by
    rintro fd ⟨cb, home, dir, there⟩
    rw [batch, idle] at there
    refine ⟨cb, home, dir, ?_⟩
    rcases there with queued | none
    · exact (List.mem_cons.mp queued).imp_left Eq.symm
    · cases none
  by_cases passed : ∃ cb, handle = .io cb ∧ s.cancelled cb.id = true
  · obtain ⟨cb, rfl, off⟩ := passed
    have same : ({ s with cbHandles := rest, running := s.starts (.io cb) } : Loop) = { s with
        cbHandles := rest } := by
      rw [Loop.starts, if_pos off, ← idle]
    have served : ∀ fd, s.Served fd →
        ({ s with cbHandles := rest } : Loop).Served fd ∨ cb.fd = fd ∧ cb.dir = .readable := by
      intro fd there
      obtain ⟨other, home, dir, front | queued⟩ := goes fd there
      · cases front
        exact .inr ⟨home, dir⟩
      · exact .inl ⟨other, home, dir, .inl queued⟩
    rw [same]
    refine (attended_leaves_iff (t := { s with cbHandles := rest }) h rfl rfl rfl served).trans ?_
    constructor
    · intro leaves other rest' batch' _
      obtain ⟨front, rfl⟩ := List.cons.inj (batch.symm.trans batch')
      cases front
      exact leaves
    · exact fun drains => drains cb rest batch off
  · refine iff_of_true (h.step (fun _ => id) (fun _ => id) fun fd _ => ?_) ?_
    · refine Or.imp_right fun there => ?_
      obtain ⟨cb, home, dir, front | queued⟩ := goes fd there
      · refine ⟨cb, home, dir, .inr ?_⟩
        have live : ¬ s.cancelled cb.id = true := fun off => passed ⟨cb, front, off⟩
        rw [front]
        exact if_neg live
      · exact ⟨cb, home, dir, .inl queued⟩
    · intro cb rest' batch' off
      exact absurd ⟨cb, (List.cons.inj (batch.symm.trans batch')).1, off⟩ passed

theorem done_attended_iff {cb : Callback} (h : Attended s) (runs : s.running = some cb) :
    Attended { s with running := none } ↔ Drains s .done := by
  have served : ∀ fd, s.Served fd →
      ({ s with running := none } : Loop).Served fd ∨ cb.fd = fd ∧ cb.dir = .readable := by
    rintro fd ⟨other, home, dir, queued | now⟩
    · exact .inl ⟨other, home, dir, .inl queued⟩
    · cases runs.symm.trans now
      exact .inr ⟨home, dir⟩
  refine (attended_leaves_iff (t := { s with running := none }) h rfl rfl rfl served).trans ?_
  constructor
  · intro leaves other runs'
    cases runs.symm.trans runs'
    exact leaves
  · exact fun drains => drains cb runs

theorem arrive_attended_iff {fd n : Nat} (h : Attended s) :
    Attended { s with
      unread := Function.update s.unread fd (s.unread fd + n)
      edge := Function.update s.edge fd (s.edge fd || watched s.table fd .readable) } ↔
          Drains s (.arrive fd n) := by
  constructor
  · intro attended some reader
    have here := attended fd reader (by simp only [Function.update_self]; omega)
    simp only [Function.update_self, Bool.or_eq_true] at here
    rcases here with (news | known) | served
    · exact .inr (.inl news)
    · exact .inl known
    · exact .inr (.inr served)
  · intro drains gd reader some
    by_cases same : gd = fd
    · subst same
      simp only [Function.update_self, Bool.or_eq_true] at some ⊢
      by_cases none : n = 0
      · exact (h gd reader (by omega)).imp_left .inl
      · rcases drains (Nat.pos_of_ne_zero none) reader with known | news | served
        · exact .inl (.inr known)
        · exact .inl (.inl news)
        · exact .inr served
    · simp only [Function.update_of_ne same] at some ⊢
      exact h gd reader some

/-- Whose callback the reader of a new entry is. -/
theorem reader_of_set {t : Table Callback} {fd : Nat} {interest : Interest}
    {registered : Option Interest} {d : Dir} {mine theirs : Option Callback}
    (reader : ((t.set fd (some (.py (.of interest d mine theirs))) registered).slots fd
      .readable).isSome = true) :
    d = .readable ∧ mine.isSome = true ∨ d = .writable ∧ theirs.isSome = true := by
  have there : (t.set fd (some (.py (.of interest d mine theirs))) registered).handlesIo fd =
      some (.py (.of interest d mine theirs)) := by simp
  rw [slots_of_entry there] at reader
  cases d with
  | readable => exact .inl ⟨rfl, reader⟩
  | writable => exact .inr ⟨rfl, reader⟩

/-- After a call the poller knows of a reader, unless it was put next to a writer. -/
theorem executed_watched {t u : Table Callback} {call : Call Callback} {r : Option Bool}
    (h : Executed t call u r) (matched : t.Matches)
    (reader : (u.slots call.fd .readable).isSome = true) : watched u call.fd .readable = false ↔
    call.puts.isSome = true ∧ call.dir = .readable ∧
      ∃ data, t.handlesIo call.fd = some (.py data) ∧ data.cbr = none := by
  cases h with
  | insert handle puts missing =>
      have dir : call.dir = .readable := by
        rcases reader_of_set reader with ⟨dir, _⟩ | ⟨_, none⟩
        · exact dir
        · cases none
      refine iff_of_false ?_ ?_
      · simp [watched, dir]
      · rintro ⟨-, -, data, there, -⟩
        rw [missing] at there
        cases there
  | replace handle kept data puts there hk =>
      have has := matched _ data there .readable
      have known : watched (t.set call.fd
          (some (.py (.of (data.interest.add call.dir) call.dir (some handle) (some kept))))
          (some data.interest)) call.fd .readable = data.interest.has .readable := by
        simp [watched]
      rw [known]
      constructor
      · intro unknown
        have none : data.cbr = none := by
          rw [← Option.not_isSome_iff_eq_none]
          exact fun some => Bool.false_ne_true (unknown.symm.trans (has.mpr some))
        refine ⟨by rw [puts]; rfl, ?_, data, there, none⟩
        by_contra dir
        have writes : call.dir = .writable := (eq_or_eq_other .readable call.dir).resolve_left dir
        rw [writes] at hk
        cases none.symm.trans hk
      · rintro ⟨-, -, found, there', none⟩
        cases there.symm.trans there'
        refine Bool.eq_false_iff.mpr fun some => ?_
        have slot : data.cbr.isSome = true := has.mp some
        rw [none] at slot
        cases slot
  | absent puts missing =>
      rw [slots_of_none missing] at reader
      cases reader
  | drop data puts there alone =>
      rw [slots_of_none (by simp)] at reader
      cases reader
  | keep kept data puts there more hk =>
      have dir : call.dir = .writable := by
        rcases reader_of_set reader with ⟨_, none⟩ | ⟨dir, _⟩
        · cases none
        · exact dir
      refine iff_of_false ?_ ?_
      · simp [watched, dir, other]
      · rintro ⟨some, -⟩
        rw [puts] at some
        cases some

theorem fd_named (id : Nat) (c : Call Unit) : (named id c).fd = c.fd := by cases c <;> rfl

theorem dir_named (id : Nat) (c : Call Unit) : (named id c).dir = c.dir := by cases c <;> rfl

theorem puts_named (id : Nat) (c : Call Unit) :
    (named id c).puts.isSome = c.puts.isSome := by cases c <;> rfl

/-- A call that leaves a reader on its descriptor makes a call of the registry. -/
theorem registers_of_reader {u : Table Callback} {c : Call Unit}
    (h : Io.step s.table (named s.next c) = some u)
    (reader : (u.slots c.fd .readable).isSome = true) : registers s.table c = true := by
  obtain ⟨r, executed⟩ := step_executed h
  by_contra none
  simp only [registers, ← puts_named s.next, ← fd_named s.next, Bool.or_eq_true, not_or,
    Bool.not_eq_true, Option.isSome_eq_false_iff, Option.isNone_iff_eq_none] at none
  rw [← fd_named s.next] at reader
  obtain ⟨puts, missing⟩ := none
  cases executed with
  | insert handle some => cases puts.symm.trans some
  | replace handle kept data some => cases puts.symm.trans some
  | absent =>
      rw [slots_of_none missing] at reader
      cases reader
  | drop data _ there => cases missing.symm.trans there
  | keep kept data _ there => cases missing.symm.trans there

theorem call_attended_iff {c : Call Unit} {u : Table Callback} (h : Attended s)
    (matched : s.table.Matches) (run : Io.step s.table (named s.next c) = some u) :
    Attended { s with
      table := u
      next := s.next + 1
      edge := if registers s.table c then
          Function.update s.edge c.fd (watched u c.fd .readable && decide (0 < s.unread c.fd))
        else s.edge } ↔ Drains s (.call c) := by
  obtain ⟨r, executed⟩ := step_executed run
  have slots := executed_slots executed matched
  -- the condition only speaks of a reader put next to a writer
  have second : Drains s (.call c) ↔ (c.puts.isSome = true → c.dir = .readable → ∀ data,
      s.table.handlesIo c.fd = some (.py data) → data.cbr = none → 0 < s.unread c.fd →
      s.Served c.fd) := by
    cases c with
    | addReader fd handle => exact ⟨fun drains _ _ => drains, fun drains => drains rfl rfl⟩
    | addWriter fd handle => exact iff_of_true trivial fun _ dir => by cases dir
    | removeReader fd | removeWriter fd => exact iff_of_true trivial fun puts => by cases puts
  have here := fun reader => executed_watched executed matched reader
  rw [fd_named, dir_named, puts_named] at here
  rw [second]
  constructor
  · intro attended puts dir data there none some
    have reader : (u.slots c.fd .readable).isSome = true := by
      rw [slots]
      simp only [Call.spec, fd_named, dir_named, dir, and_self, if_true, puts_named]
      exact puts
    have unknown := (here reader).mpr ⟨puts, dir, data, there, none⟩
    have covered := attended c.fd reader some
    simp only [registers_of_reader run reader, if_true, Function.update_self, unknown,
      Bool.false_and, Bool.false_eq_true, false_or] at covered
    exact covered
  · intro drains gd reader some
    by_cases same : gd = c.fd
    · subst same
      simp only [registers_of_reader run reader, if_true, Function.update_self]
      cases known : watched u c.fd .readable with
      | true => exact .inl (by rw [Bool.true_and, decide_eq_true some])
      | false =>
          obtain ⟨puts, dir, data, there, none⟩ := (here reader).mp known
          exact .inr (drains puts dir data there none some)
    · have old : s.HasReader gd := by
        have reader : (u.slots gd .readable).isSome = true := reader
        rw [slots, Call.spec, fd_named] at reader
        simp only [same, false_and, if_false] at reader
        exact reader
      refine (h gd old some).imp_left fun news => ?_
      simp only
      split_ifs
      · rw [Function.update_of_ne same]
        exact news
      · exact news

/-- An attended loop stays so exactly through the steps that meet the condition. -/
theorem step_attended_iff {a : Action} (housed : Housed s.table) (h : Attended s)
    (one : step s a = some t) : Attended t ↔ Drains s a := by
  cases a with
  | poll ready =>
      obtain ⟨⟨-, batch, idle⟩, rfl⟩ :=
        Option.ite_none_right_eq_some.mp one |>.imp_right Option.some.inj
      refine iff_of_true (h.step (fun _ => id) (fun _ => id) fun fd _ => Or.imp_right ?_) trivial
      rintro ⟨cb, -, -, queued | runs⟩
      · rw [batch] at queued
        cases queued
      · cases idle.symm.trans runs
  | event fd readable writable others =>
      obtain ⟨-, rfl⟩ := Option.ite_none_right_eq_some.mp one |>.imp_right Option.some.inj
      refine iff_of_true (h.step (fun _ => id) (fun _ => id) fun gd reader covered => ?_) trivial
      by_cases same : gd = fd ∧ readable = true
      · obtain ⟨rfl, rfl⟩ := same
        exact .inr (event_served housed reader rfl)
      · refine covered.imp (fun news => ?_) fun there => ?_
        · simp only [Function.update_apply]
          split_ifs with here
          · rw [← here, news, Bool.true_and, Bool.not_eq_true']
            exact Bool.eq_false_iff.mpr fun on => same ⟨here, on⟩
          · exact news
        · exact there.more rfl rfl
  | timers due =>
      obtain ⟨-, rfl⟩ := Option.ite_none_right_eq_some.mp one |>.imp_right Option.some.inj
      refine iff_of_true (h.step (fun _ => id) (fun _ => id) fun fd _ => Or.imp_right fun there =>
        ?_) trivial
      exact there.more rfl rfl
  | pop =>
      simp only [step] at one
      split at one
      · cases one
      next handle rest batch =>
        obtain ⟨⟨-, idle⟩, rfl⟩ := Option.ite_none_right_eq_some.mp one |>.imp_right Option.some.inj
        exact pop_attended_iff h batch idle
  | read fd n =>
      obtain ⟨-, rfl⟩ := Option.ite_none_right_eq_some.mp one |>.imp_right Option.some.inj
      refine iff_of_true (h.step (fun _ => id) (fun gd => ?_) fun fd _ => id) trivial
      simp only [Function.update_apply]
      split_ifs with same
      · subst same
        omega
      · exact id
  | done =>
      obtain ⟨cb, runs, rfl⟩ := Option.map_eq_some_iff.mp one
      exact done_attended_iff h runs
  | arrive fd n =>
      cases one
      exact arrive_attended_iff h
  | call c =>
      obtain ⟨u, run, rfl⟩ := Option.map_eq_some_iff.mp one
      exact call_attended_iff h housed.matched run
  | cancel off =>
      cases one
      exact iff_of_true (h.step (fun _ => id) (fun _ => id) fun _ _ => id) trivial

theorem step_housed {a : Action} (housed : Housed s.table) (one : step s a = some t) :
    Housed t.table := by
  cases a with
  | poll | event | timers | read =>
      obtain ⟨-, rfl⟩ := Option.ite_none_right_eq_some.mp one |>.imp_right Option.some.inj
      exact housed
  | pop =>
      simp only [step] at one
      split at one
      · cases one
      · obtain ⟨-, rfl⟩ := Option.ite_none_right_eq_some.mp one |>.imp_right Option.some.inj
        exact housed
  | done =>
      obtain ⟨cb, -, rfl⟩ := Option.map_eq_some_iff.mp one
      exact housed
  | call c =>
      obtain ⟨u, run, rfl⟩ := Option.map_eq_some_iff.mp one
      exact housed.call run
  | arrive | cancel =>
      cases one
      exact housed

theorem Started.attended (start : Started s) : Attended s := by
  intro fd reader
  obtain ⟨entry, there, slot⟩ := Option.bind_eq_some_iff.mp (Option.get_mem reader)
  cases entry with
  | py data => exact absurd there (start.entries fd data)
  | signals | tcpListener | tcpStream | udpSocket => cases slot

theorem Attended.never (h : Attended s) : NeverStarved s := by
  rintro ⟨-, batch, idle⟩ fd ⟨reader, some, silent⟩
  rcases h fd reader some with news | ⟨cb, -, -, queued | runs⟩
  · exact Bool.false_ne_true (silent.symm.trans news)
  · rw [batch] at queued
    cases queued
  · cases idle.symm.trans runs

/-- The data of every reader is attended to throughout a run exactly if its steps meet the
condition, and then no reader is starved when the loop polls. -/
theorem readers_attended {actions : List Action} (start : Started s)
    (h : run step s actions = some t) :
    (Always step Attended s actions ↔ Guarded step Drains s actions) ∧
      (Guarded step Drains s actions → Always step NeverStarved s actions) := by
  have exact := always_iff_guarded (G := Drains) (I := fun s => Housed s.table) (P := Attended)
    (fun _ _ _ housed one => step_housed housed one)
    (fun _ _ _ housed attended one => step_attended_iff housed attended one) h
    (housed_of_foreign start.entries) start.attended
  exact ⟨exact, fun guarded => (exact.mpr guarded).mono fun _ => Attended.never⟩

def fresh : Loop := ⟨Table.empty, 0, fun _ => false, false, [], none, fun _ => 0, fun _ => false⟩

theorem fresh_started : Started fresh := ⟨fun _ _ there => (by cases there), rfl, rfl, rfl⟩

/-- A reader of descriptor 5 with ten bytes, of which its callback reads four. -/
def fourOfTen : List Action :=
  [.call (.addReader 5 ()), .arrive 5 10, .poll 0, .event 5 true false 0, .timers 0, .pop,
    .read 5 4]

/-- One more byte comes before the callback returns. -/
theorem readers_attended_again : Always step NeverStarved fresh
    (fourOfTen ++ [.arrive 5 1, .done]) := by
  have ran : ∃ t, run step fresh (fourOfTen ++ [.arrive 5 1, .done]) = some t := ⟨_, rfl⟩
  obtain ⟨t, ran⟩ := ran
  refine (readers_attended fresh_started ran).2 ?_
  refine guarded_cons rfl ?_ (guarded_cons rfl ?_
    (guarded_cons rfl trivial (guarded_cons rfl trivial
      (guarded_cons rfl trivial (guarded_cons rfl ?_ (guarded_cons rfl trivial (guarded_cons rfl ?_
      (guarded_cons rfl ?_ trivial))))))))
  · intro data there
    cases there
  · exact fun _ _ => .inl rfl
  · intro cb rest _ off
    cases off
  · exact fun _ _ => .inl rfl
  · intro cb runs
    cases runs
    exact fun _ _ _ => .inl rfl

/-- The callback returns, and the loop polls with six bytes unread and nothing announced. -/
theorem reader_starved_of_rest : ∃ t, run step fresh (fourOfTen ++ [.done]) = some t ∧ t.Quiet ∧
    Starved t 5 ∧ ¬ Always step NeverStarved fresh (fourOfTen ++ [.done]) := by
  have ran : ∃ t, run step fresh (fourOfTen ++ [.done]) = some t ∧ t.Quiet ∧ Starved t 5 :=
    ⟨_, rfl, ⟨rfl, rfl, rfl⟩, rfl, by decide, rfl⟩
  obtain ⟨t, ran, quiet, starved⟩ := ran
  exact ⟨t, ran, quiet, starved, fun always => (always.last ran) quiet 5 starved⟩

end TokioLoop.Io.Readers
