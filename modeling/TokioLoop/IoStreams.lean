import TokioLoop.IoDispatch

/-!
What the transports' calls keep of a descriptor's interest: `tcp_stream_add`,
`tcp_stream_rem`, `udp_socket_add` and `udp_socket_rem`, each with a single direction. The
registry calls succeed.

`none` is a panic: the `unwrap` of an empty interest or an `unreachable!()`.
-/
namespace TokioLoop.Io.Streams

open Runs Tcp Dispatch

variable {κ : Type}

inductive Kind where
  | tcp
  | udp
  deriving DecidableEq

/-- The entry a transport of this kind stores. -/
def Kind.entry : Kind → Interest → IOHandle κ
  | .tcp => .tcpStream
  | .udp => .udpSocket

/-- The entries the closures of this kind match. -/
def Kind.own : Kind → IOHandle κ → Option Interest
  | .tcp => IOHandle.tcp
  | .udp => IOHandle.udp

/-- `remove_if` takes an entry away where its interest is the one to remove. An entry
that stays goes through `update`, which takes the direction off it. -/
def condRem (mk : Interest → IOHandle κ) (own : IOHandle κ → Option Interest) (t : Table κ)
    (fd : Nat) (d : Dir) : Option (Table κ) :=
  match t.handlesIo fd with
  | none => some t
  | some entry =>
      if own entry = some (.only d) then some (t.set fd none none)
      else
        match own entry with
        | some interestEx =>
            (interestEx.remove d).map fun new => t.set fd (some (mk new)) (some new)
        | none => none

inductive Op where
  | add
  | rem
  deriving DecidableEq

structure Call where
  kind : Kind
  op : Op
  fd : Nat
  dir : Dir
  deriving DecidableEq

def step (t : Table κ) (call : Call) : Option (Table κ) :=
  match call.op with
  | .add => streamAdd call.kind.entry call.kind.own t call.fd call.dir
  | .rem => condRem call.kind.entry call.kind.own t call.fd call.dir

/-- The interest stored for a transport. -/
def stored (t : Table κ) (fd : Nat) : Option Interest :=
  match t.handlesIo fd with
  | some (.tcpStream interest) | some (.udpSocket interest) => some interest
  | _ => none

/-- The call finds no entry or one of its kind. -/
def Fits (t : Table κ) (call : Call) : Prop :=
  t.handlesIo call.fd = none ∨ ∃ interest, t.handlesIo call.fd = some (call.kind.entry interest)

/-- The direction is in a stored interest. -/
def Wanted (interest : Option Interest) (d : Dir) : Prop := ∃ i, interest = some i ∧ i.has d = true

def Removed (calls : List Call) (fd : Nat) (d : Dir) : Prop := ∃ k, ⟨k, .rem, fd, d⟩ ∈ calls

/-- The direction was there or has been added, and has not been removed since. -/
def Kept (s : Table κ) (calls : List Call) (fd : Nat) (d : Dir) : Prop :=
  (Wanted (stored s fd) d ∧ ¬ Removed calls fd d) ∨
    ∃ before k after, calls = before ++ ⟨k, .add, fd, d⟩ :: after ∧ ¬ Removed after fd d

/-- What a call leaves of an interest. -/
def Call.left (call : Call) (interest : Option Interest) : Option Interest :=
  match call.op with
  | .add => some (interest.elim (.only call.dir) (Interest.add call.dir))
  | .rem => interest.bind (Interest.remove call.dir)

@[simp] theorem own_entry (k : Kind) (interest : Interest) :
    k.own (k.entry interest : IOHandle κ) = some interest := by
  cases k <;> rfl

/-- Only the interest that `remove_if` has dealt with leaves `remove` with nothing. -/
theorem remove_eq_none_iff (d : Dir) (interest : Interest) : interest.remove d = none ↔
    interest = .only d := by
  cases interest with
  | only e => simp [Interest.remove]
  | both => simp [Interest.remove]

theorem has_remove {d e : Dir} {interest left : Interest} (h : interest.remove d = some left) :
    left.has e = true ↔ e ≠ d ∧ interest.has e = true := by
  cases interest with
  | only f =>
      obtain ⟨apart, rfl⟩ : f ≠ d ∧ .only f = left := by simpa [Interest.remove] using h
      rw [has_only, decide_eq_true_iff]
      constructor
      · rintro rfl
        exact ⟨apart, rfl⟩
      · exact fun both => both.2
  | both =>
      obtain rfl := Option.some.inj h
      cases d <;> cases e <;> decide

theorem has_add {d e : Dir} {interest : Interest} :
    (interest.add d).has e = true ↔ e = d ∨ interest.has e = true := by
  obtain rfl | rfl := eq_or_eq_other d e
  · simp
  · simp [other_ne]

@[simp] theorem wanted_some {i : Interest} {d : Dir} : Wanted (some i) d ↔ i.has d = true := by
  simp [Wanted]

@[simp] theorem not_wanted_none {d : Dir} : ¬ Wanted none d := by
  simp [Wanted]

/-- A call puts its direction in or takes it off, and leaves the other one. -/
theorem wanted_left {call : Call} {interest : Option Interest} {d : Dir} :
    Wanted (call.left interest) d ↔
      (call.op = .add ∧ call.dir = d) ∨
      (Wanted interest d ∧ ¬ (call.op = .rem ∧ call.dir = d)) := by
  cases hop : call.op with
  | add =>
      cases interest with
      | none => simp [Call.left, hop]
      | some i => simp [Call.left, hop, has_add, @eq_comm _ d]
  | rem =>
      cases interest with
      | none => simp [Call.left, hop]
      | some i =>
          simp only [Call.left, hop, Option.bind_some, wanted_some, reduceCtorEq, false_and,
            true_and, false_or]
          cases hr : i.remove call.dir with
          | none =>
              rw [(remove_eq_none_iff _ _).mp hr]
              simp
          | some left =>
              rw [wanted_some, has_remove hr, and_comm, ne_comm]

/-- What is wanted of a descriptor that has an entry of a transport or none. -/
theorem eq_none_iff_not_wanted {interest : Option Interest} : interest = none ↔
    ∀ d, ¬ Wanted interest d := by
  cases interest with
  | none => simp
  | some i =>
      refine iff_of_false (Option.some_ne_none i) fun nothing => ?_
      cases i with
      | only d => exact nothing d (wanted_some.mpr (by simp))
      | both => exact nothing .readable (wanted_some.mpr rfl)

theorem stored_entry {t : Table κ} {fd : Nat} {k : Kind} {interest : Option Interest}
    (h : t.handlesIo fd = interest.map k.entry) : stored t fd = interest := by
  unfold stored
  rw [h]
  cases interest with
  | none => rfl
  | some i => cases k <;> rfl

/-- The call has left `new` of its descriptor's interest and the others alone. -/
structure Leaves (t u : Table κ) (call : Call) (new : Option Interest) : Prop where
  entry : u.handlesIo call.fd = new.map call.kind.entry
  registered : u.registered call.fd = new
  apart : ∀ fd, fd ≠ call.fd → u.handlesIo fd = t.handlesIo fd ∧ u.registered fd = t.registered fd

theorem leaves_set {t : Table κ} {call : Call} {new : Option Interest} {entry : Option (IOHandle κ)}
    (h : entry = new.map call.kind.entry) : Leaves t (t.set call.fd entry new) call new := by
  constructor
  · rw [handlesIo_set, if_pos rfl, h]
  · rw [registered_set, if_pos rfl]
  · intro fd away
    rw [handlesIo_set, registered_set, if_neg away, if_neg away]
    exact ⟨rfl, rfl⟩

theorem leaves_self {t : Table κ} {call : Call} {new : Option Interest}
    (entry : t.handlesIo call.fd = new.map call.kind.entry)
    (registered : t.registered call.fd = new) : Leaves t t call new :=
  ⟨entry, registered, fun _ _ => ⟨rfl, rfl⟩⟩

/-- A call that fits returns. -/
theorem step_leaves {t : Table κ} {call : Call} (fits : Fits t call)
    (agrees : t.registered call.fd = stored t call.fd) :
    ∃ u, step t call = some u ∧ Leaves t u call (call.left (stored t call.fd)) := by
  obtain missing | ⟨interest, there⟩ := fits
  · have nothing : stored t call.fd = none := stored_entry (k := call.kind) missing
    rw [nothing] at agrees ⊢
    cases hop : call.op with
    | add =>
        refine ⟨_, by simp only [step, hop, streamAdd, missing]; rfl, ?_⟩
        simp only [Call.left, hop, Option.elim_none]
        exact leaves_set rfl
    | rem =>
        refine ⟨t, by simp only [step, hop, condRem, missing], ?_⟩
        simp only [Call.left, hop, Option.bind_none]
        exact leaves_self missing agrees
  · have kept : stored t call.fd = some interest := stored_entry (k := call.kind) there
    rw [kept] at agrees ⊢
    cases hop : call.op with
    | add =>
        simp only [step, hop, streamAdd, there, own_entry, Option.map_some, Call.left,
          Option.elim_some]
        by_cases alone : interest = .only call.dir
        · refine ⟨t, by rw [if_pos alone], ?_⟩
          rw [(add_eq_self_iff _ _).mpr (by rw [alone]; simp)]
          exact leaves_self there agrees
        · exact ⟨_, by rw [if_neg alone]; rfl, leaves_set rfl⟩
    | rem =>
        simp only [step, hop, condRem, there, own_entry, Call.left, Option.bind_some,
          Option.some.injEq]
        by_cases alone : interest = .only call.dir
        · refine ⟨_, by rw [if_pos alone], ?_⟩
          rw [(remove_eq_none_iff _ _).mpr alone]
          exact leaves_set rfl
        · -- the `unwrap` finds the other direction
          cases hr : interest.remove call.dir with
          | none => exact absurd ((remove_eq_none_iff _ _).mp hr) alone
          | some new => exact ⟨_, by rw [if_neg alone]; rfl, leaves_set rfl⟩

/-- The registration is the stored interest, and what is stored is a transport's entry
or none. -/
def Settled (t : Table κ) (fd : Nat) : Prop :=
  t.registered fd = stored t fd ∧ (t.handlesIo fd = none ↔ stored t fd = none)

theorem stored_congr {t u : Table κ} {fd : Nat} (h : u.handlesIo fd = t.handlesIo fd) :
    stored u fd = stored t fd := by
  unfold stored
  rw [h]

theorem settled_congr {t u : Table κ} {fd : Nat}
    (h : u.handlesIo fd = t.handlesIo fd ∧ u.registered fd = t.registered fd)
    (settled : Settled t fd) : Settled u fd := by
  unfold Settled
  rw [stored_congr h.1, h.1, h.2]
  exact settled

theorem Leaves.settled {t u : Table κ} {call : Call} {new : Option Interest}
    (h : Leaves t u call new) : Settled u call.fd := by
  unfold Settled
  rw [stored_entry h.entry, h.entry]
  exact ⟨h.registered, Option.map_eq_none_iff⟩

theorem Leaves.wanted {t u : Table κ} {call : Call}
    (h : Leaves t u call (call.left (stored t call.fd))) (fd : Nat)
    (d : Dir) :
    Wanted (stored u fd) d ↔
      call = ⟨call.kind, .add, fd, d⟩ ∨
      (Wanted (stored t fd) d ∧ call ≠ ⟨call.kind, .rem, fd, d⟩) := by
  obtain ⟨kind, op, gd, e⟩ := call
  simp only [ne_eq, Call.mk.injEq, true_and]
  by_cases same : gd = fd
  · subst same
    rw [stored_entry h.entry, wanted_left]
    simp only [true_and]
  · rw [stored_congr (h.apart fd (Ne.symm same)).1]
    simp [same]

theorem not_removed_cons {c : Call} {calls : List Call} {fd : Nat} {d : Dir} :
    ¬ Removed (c :: calls) fd d ↔ c ≠ ⟨c.kind, .rem, fd, d⟩ ∧ ¬ Removed calls fd d := by
  simp only [Removed, List.mem_cons, not_exists, not_or, forall_and, ne_eq]
  refine and_congr_left fun _ => ⟨fun h same => h c.kind same.symm, fun h k same => h ?_⟩
  rw [← same]

/-- The first call of a sequence goes into what is wanted at its start. -/
theorem kept_cons {s t : Table κ} {c : Call} {calls : List Call} {fd : Nat} {d : Dir}
    (h : Wanted (stored t fd) d ↔
      c = ⟨c.kind, .add, fd, d⟩ ∨ (Wanted (stored s fd) d ∧ c ≠ ⟨c.kind, .rem, fd, d⟩)) :
    Kept t calls fd d ↔ Kept s (c :: calls) fd d := by
  constructor
  · rintro (⟨wanted, still⟩ | ⟨before, k, after, rfl, still⟩)
    · obtain adds | ⟨wanted, other⟩ := h.mp wanted
      · exact .inr ⟨[], c.kind, calls, by rw [List.nil_append, ← adds], still⟩
      · exact .inl ⟨wanted, not_removed_cons.mpr ⟨other, still⟩⟩
    · exact .inr ⟨c :: before, k, after, rfl, still⟩
  · rintro (⟨wanted, still⟩ | ⟨before, k, after, parts, still⟩)
    · obtain ⟨other, still⟩ := not_removed_cons.mp still
      exact .inl ⟨h.mpr (.inr ⟨wanted, other⟩), still⟩
    · cases before with
      | nil =>
          obtain ⟨rfl, rfl⟩ := List.cons.inj parts
          exact .inl ⟨h.mpr (.inl rfl), still⟩
      | cons b before =>
          obtain ⟨-, rfl⟩ := List.cons.inj parts
          exact .inr ⟨before, k, after, rfl, still⟩

/-- What a sequence of calls has done to a table. -/
structure Outcome (s t : Table κ) (calls : List Call) : Prop where
  settles : ∀ call ∈ calls, Settled t call.fd
  stays : ∀ fd, Settled s fd → Settled t fd
  apart : ∀ fd, (∀ call ∈ calls, call.fd ≠ fd) →
    t.handlesIo fd = s.handlesIo fd ∧ t.registered fd = s.registered fd
  wanted : ∀ fd d, Wanted (stored t fd) d ↔ Kept s calls fd d

theorem run_outcome {s : Table κ} {calls : List Call} (fits : Guarded step Fits s calls)
    (agrees : ∀ call ∈ calls, s.registered call.fd = stored s call.fd) :
    ∃ t, run step s calls = some t ∧ Outcome s t calls := by
  induction calls generalizing s with
  | nil =>
      refine ⟨s, rfl, by simp, fun _ settled => settled, fun _ _ => ⟨rfl, rfl⟩, fun fd d => ?_⟩
      simp [Kept, Removed]
  | cons c calls ih =>
      obtain ⟨u, first, leaves⟩ := step_leaves fits.1 (agrees c (by simp))
      have stays : ∀ fd, Settled s fd → Settled u fd := by
        intro fd settled
        by_cases same : fd = c.fd
        · exact same ▸ leaves.settled
        · exact settled_congr (leaves.apart fd same) settled
      have after : ∀ call ∈ calls, u.registered call.fd = stored u call.fd := by
        intro call member
        by_cases same : call.fd = c.fd
        · rw [same]
          exact leaves.settled.1
        · obtain ⟨entry, registered⟩ := leaves.apart _ same
          rw [registered, stored_congr entry]
          exact agrees call (List.mem_cons_of_mem c member)
      obtain ⟨t, rest, out⟩ := ih (fits.2 u first) after
      refine ⟨t, run_cons_iff.mpr ⟨u, first, rest⟩, ?_, fun fd => out.stays fd ∘ stays fd, ?_, ?_⟩
      · intro call member
        obtain rfl | member := List.mem_cons.mp member
        · exact out.stays _ leaves.settled
        · exact out.settles call member
      · intro fd away
        obtain ⟨entry, registered⟩ :=
          out.apart fd fun call member => away call (List.mem_cons_of_mem c member)
        obtain ⟨entry', registered'⟩ := leaves.apart fd (away c (by simp)).symm
        exact ⟨entry.trans entry', registered.trans registered'⟩
      · intro fd d
        rw [out.wanted, kept_cons (leaves.wanted fd d)]

/-- Where each descriptor has calls of one kind only, it is enough that they fit at the
start. -/
theorem guarded_fits {s : Table κ} {calls : List Call} {k : Nat → Kind}
    (kinds : ∀ call ∈ calls, call.kind = k call.fd) (fits : ∀ call ∈ calls, Fits s call)
    (agrees : ∀ call ∈ calls, s.registered call.fd = stored s call.fd) :
    Guarded step Fits s calls := by
  induction calls generalizing s with
  | nil => trivial
  | cons c calls ih =>
      obtain ⟨u, first, leaves⟩ := step_leaves (fits c (by simp)) (agrees c (by simp))
      refine guarded_cons first (fits c (by simp))
        (ih (fun call member => kinds call (by simp [member])) ?_ ?_)
      · intro call member
        by_cases same : call.fd = c.fd
        · have entry := leaves.entry
          rw [kinds c (by simp), ← same, ← kinds call (by simp [member])] at entry
          unfold Fits
          rw [entry]
          cases c.left (stored s call.fd) with
          | none => exact .inl rfl
          | some i => exact .inr ⟨i, rfl⟩
        · unfold Fits
          rw [(leaves.apart _ same).1]
          exact fits call (by simp [member])
      · intro call member
        by_cases same : call.fd = c.fd
        · rw [same]
          exact leaves.settled.1
        · obtain ⟨entry, registered⟩ := leaves.apart _ same
          rw [registered, stored_congr entry]
          exact agrees call (by simp [member])

/-- Every sequence of calls on descriptors without an entry or with one of the call's kind
returns. Then, so after each call of a longer sequence, the interest of a descriptor that
was called for is what has been added and not removed since, its entry is there as long as
that is something, the poller has it registered, and the other descriptors are as before. -/
theorem streams_kept {s : Table κ} {calls : List Call} (fits : Guarded step Fits s calls)
    (agrees : ∀ call ∈ calls, s.registered call.fd = stored s call.fd) :
    ∃ t, run step s calls = some t ∧
      (∀ call ∈ calls, (∀ d, Wanted (stored t call.fd) d ↔ Kept s calls call.fd d) ∧
        (t.handlesIo call.fd = none ↔ ∀ d, ¬ Kept s calls call.fd d) ∧
        t.registered call.fd = stored t call.fd) ∧
      ∀ fd, (∀ call ∈ calls, call.fd ≠ fd) → t.handlesIo fd = s.handlesIo fd ∧
      t.registered fd = s.registered fd := by
  obtain ⟨t, whole, out⟩ := run_outcome fits agrees
  refine ⟨t, whole, fun call member => ⟨out.wanted call.fd, ?_, (out.settles call member).1⟩,
    out.apart⟩
  rw [(out.settles call member).2, eq_none_iff_not_wanted]
  simp only [out.wanted]

/-- Both directions of a stream come and go next to a datagram socket. -/
theorem streams_kept_two : ∃ t, run step (Table.empty : Table Nat)
      [⟨.tcp, .add, 5, .readable⟩, ⟨.tcp, .add, 5, .writable⟩, ⟨.udp, .add, 6, .readable⟩,
        ⟨.tcp, .rem, 5, .readable⟩, ⟨.tcp, .rem, 5, .readable⟩, ⟨.udp, .rem, 6, .readable⟩] =
        some t ∧
    t.registered 5 = some (.only .writable) ∧ t.handlesIo 6 = none := by
  have fits : Guarded step Fits (Table.empty : Table Nat)
      [⟨.tcp, .add, 5, .readable⟩, ⟨.tcp, .add, 5, .writable⟩, ⟨.udp, .add, 6, .readable⟩,
        ⟨.tcp, .rem, 5, .readable⟩, ⟨.tcp, .rem, 5, .readable⟩, ⟨.udp, .rem, 6, .readable⟩] :=
    guarded_fits (k := fun fd => if fd = 5 then .tcp else .udp) (by decide)
      (fun _ _ => .inl rfl) fun _ _ => rfl
  obtain ⟨t, whole, called, -⟩ := streams_kept fits fun _ _ => rfl
  refine ⟨t, whole, ?_, ?_⟩
  · rw [(called _ (List.mem_cons_self ..)).2.2]
    cases whole
    rfl
  · cases whole
    rfl

end TokioLoop.Io.Streams
