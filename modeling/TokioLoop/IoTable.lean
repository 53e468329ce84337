import Mathlib.Logic.Function.Basic
import TokioLoop.TcpTransport

/-!
RLoop's `handles_io` table with the poller registrations behind it, and the calls
`add_reader`, `add_writer`, `remove_reader` and `remove_writer` that keep them. A
descriptor is a C `int`, on which the casts of the source are the identity; the registry
calls succeed, so that the last one decides what the poller reports.

`none` is a panic: an `unwrap` of a missing callback or an `unreachable!()`.
-/
namespace TokioLoop.Io

open Runs Tcp

/-- `PyHandleData`; `κ` is the type of the callback handles. -/
structure PyHandleData (κ : Type) where
  interest : Interest
  cbr : Option κ
  cbw : Option κ
  deriving DecidableEq

/-- `IOHandle`: the entries other than `py` belong to the loop and its transports. -/
inductive IOHandle (κ : Type) where
  | py (data : PyHandleData κ)
  | signals
  | tcpListener
  | tcpStream (interest : Interest)
  | udpSocket (interest : Interest)
  deriving DecidableEq

structure Table (κ : Type) where
  handlesIo : Nat → Option (IOHandle κ)
  registered : Nat → Option Interest

variable {κ : Type}

def Table.empty : Table κ := ⟨fun _ => none, fun _ => none⟩

/-- An entry is stored and its descriptor registered in one go. -/
def Table.set (t : Table κ) (fd : Nat) (entry : Option (IOHandle κ)) (interest : Option Interest) :
    Table κ :=
  ⟨Function.update t.handlesIo fd entry, Function.update t.registered fd interest⟩

def other : Dir → Dir
  | .readable => .writable
  | .writable => .readable

/-- The callback of one direction. -/
def PyHandleData.slot (data : PyHandleData κ) : Dir → Option κ
  | .readable => data.cbr
  | .writable => data.cbw

/-- The entry with `mine` in the slot of `d` and `theirs` in the other one. -/
def PyHandleData.of (interest : Interest) (d : Dir) (mine theirs : Option κ) : PyHandleData κ :=
  match d with
  | .readable => ⟨interest, mine, theirs⟩
  | .writable => ⟨interest, theirs, mine⟩

/-- `add_reader` and `add_writer`. On an entry that is there, the new interest is stored
but the old one goes to `reregister`, and the other callback is unwrapped. -/
def addIo (d : Dir) (t : Table κ) (fd : Nat) (handle : κ) : Option (Table κ) :=
  match t.handlesIo fd with
  | some (.py data) =>
      (data.slot (other d)).map fun kept =>
        t.set fd (some (.py (.of (data.interest.add d) d (some handle) (some kept))))
          (some data.interest)
  | some _ => none
  | none => some (t.set fd (some (.py (.of (.only d) d (some handle) none))) (some (.only d)))

def addReader (t : Table κ) (fd : Nat) (handle : κ) : Option (Table κ) :=
  addIo .readable t fd handle

def addWriter (t : Table κ) (fd : Nat) (handle : κ) : Option (Table κ) :=
  addIo .writable t fd handle

/-- `remove_reader` and `remove_writer`: an entry with just this interest goes away,
any other one is updated to the other direction, and both answer `true`. -/
def removeIo (d : Dir) (t : Table κ) (fd : Nat) : Option (Table κ × Bool) :=
  match t.handlesIo fd with
  | none => some (t, false)
  | some (.py data) =>
      if data.interest = .only d then some (t.set fd none none, true)
      else
        (data.slot (other d)).map fun kept =>
          let interest := Interest.only (other d)
          (t.set fd (some (.py (.of interest d none (some kept)))) (some interest), true)
  | some _ => none

def removeReader (t : Table κ) (fd : Nat) : Option (Table κ × Bool) := removeIo .readable t fd

def removeWriter (t : Table κ) (fd : Nat) : Option (Table κ × Bool) := removeIo .writable t fd

inductive Call (κ : Type) where
  | addReader (fd : Nat) (handle : κ)
  | addWriter (fd : Nat) (handle : κ)
  | removeReader (fd : Nat)
  | removeWriter (fd : Nat)
  deriving DecidableEq

/-- One call, with what a removal answers. -/
def exec (t : Table κ) : Call κ → Option (Table κ × Option Bool)
  | .addReader fd handle => (Io.addReader t fd handle).map (·, none)
  | .addWriter fd handle => (Io.addWriter t fd handle).map (·, none)
  | .removeReader fd => (Io.removeReader t fd).map fun r => (r.1, some r.2)
  | .removeWriter fd => (Io.removeWriter t fd).map fun r => (r.1, some r.2)

/-- A call that does not panic. -/
def step (t : Table κ) (call : Call κ) : Option (Table κ) := (exec t call).map Prod.fst

/-- The direction of a call. -/
def Call.dir : Call κ → Dir
  | .addReader _ _ | .removeReader _ => .readable
  | .addWriter _ _ | .removeWriter _ => .writable

def Call.fd : Call κ → Nat
  | .addReader fd _ | .addWriter fd _ | .removeReader fd | .removeWriter fd => fd

/-- The callback a call puts into its slot. -/
def Call.puts : Call κ → Option κ
  | .addReader _ handle | .addWriter _ handle => some handle
  | .removeReader _ | .removeWriter _ => none

/-- The two shapes of a call. -/
theorem exec_eq (t : Table κ) (call : Call κ) :
    exec t call = match call.puts with
      | some handle => (addIo call.dir t call.fd handle).map (·, none)
      | none => (removeIo call.dir t call.fd).map fun r => (r.1, some r.2) := by
  cases call <;> rfl

theorem other_ne (d : Dir) : other d ≠ d := by cases d <;> decide

theorem eq_or_eq_other (d e : Dir) : e = d ∨ e = other d := by
  cases d <;> cases e <;> decide

@[simp] theorem slot_of_same (interest : Interest) (d : Dir) (mine theirs : Option κ) :
    (PyHandleData.of interest d mine theirs).slot d = mine := by
  cases d <;> rfl

@[simp] theorem slot_of_other (interest : Interest) (d : Dir) (mine theirs : Option κ) :
    (PyHandleData.of interest d mine theirs).slot (other d) = theirs := by
  cases d <;> rfl

@[simp] theorem interest_of (interest : Interest) (d : Dir) (mine theirs : Option κ) :
    (PyHandleData.of interest d mine theirs).interest = interest := by
  cases d <;> rfl

@[simp] theorem has_only (d e : Dir) : (Interest.only e).has d = decide (e = d) := rfl

@[simp] theorem has_add_same (d : Dir) (interest : Interest) : (interest.add d).has d = true := by
  cases interest with
  | only e => cases d <;> cases e <;> rfl
  | both => rfl

@[simp] theorem has_add_other (d : Dir) (interest : Interest) :
    (interest.add d).has (other d) = interest.has (other d) := by
  cases interest with
  | only e => cases d <;> cases e <;> rfl
  | both => rfl

theorem add_eq_self_iff (d : Dir) (interest : Interest) : interest.add d = interest ↔
    interest.has d = true := by
  cases interest with
  | only e => cases d <;> cases e <;> decide
  | both => exact iff_of_true rfl rfl

theorem eq_only_iff (d : Dir) (interest : Interest) :
    interest = .only d ↔ interest.has (other d) = false := by
  cases interest with
  | only e => cases d <;> cases e <;> decide
  | both => exact iff_of_false Interest.noConfusion Bool.noConfusion

@[simp] theorem handlesIo_set (t : Table κ) (fd gd : Nat) (entry : Option (IOHandle κ))
    (interest : Option Interest) : (t.set fd entry interest).handlesIo gd = if gd = fd then entry
    else t.handlesIo gd := by
  simp only [Table.set, Function.update_apply]

@[simp] theorem registered_set (t : Table κ) (fd gd : Nat) (entry : Option (IOHandle κ))
    (interest : Option Interest) : (t.set fd entry interest).registered gd = if gd = fd
    then interest else t.registered gd := by
  simp only [Table.set, Function.update_apply]

/-- An entry's interest names the directions that have a callback. -/
def PyHandleData.Matches (data : PyHandleData κ) : Prop :=
  ∀ d, data.interest.has d = true ↔ (data.slot d).isSome = true

/-- Every entry of the user's matches its callbacks. -/
def Table.Matches (t : Table κ) : Prop :=
  ∀ fd data, t.handlesIo fd = some (.py data) → data.Matches

theorem matches_of_slots {data : PyHandleData κ} (d : Dir)
    (mine : data.interest.has d = (data.slot d).isSome)
    (theirs : data.interest.has (other d) = (data.slot (other d)).isSome) : data.Matches := by
  intro e
  obtain rfl | rfl := eq_or_eq_other d e
  · rw [mine]
  · rw [theirs]

/-- Every way a call can return. -/
inductive Executed (t : Table κ) (call : Call κ) : Table κ → Option Bool → Prop where
  | insert (handle : κ) : call.puts = some handle → t.handlesIo call.fd = none →
      Executed t call (t.set call.fd (some (.py (.of (.only call.dir) call.dir (some handle) none)))
        (some (.only call.dir))) none
  | replace (handle kept : κ) (data : PyHandleData κ) : call.puts = some handle →
      t.handlesIo call.fd = some (.py data) → data.slot (other call.dir) = some kept →
      Executed t call (t.set call.fd
        (some (.py (.of (data.interest.add call.dir) call.dir (some handle) (some kept))))
        (some data.interest)) none
  | absent : call.puts = none → t.handlesIo call.fd = none → Executed t call t (some false)
  | drop (data : PyHandleData κ) : call.puts = none → t.handlesIo call.fd = some (.py data) →
      data.interest = .only call.dir → Executed t call (t.set call.fd none none) (some true)
  | keep (kept : κ) (data : PyHandleData κ) : call.puts = none →
      t.handlesIo call.fd = some (.py data) → data.interest ≠ .only call.dir →
      data.slot (other call.dir) = some kept → Executed t call (t.set call.fd
        (some (.py (.of (.only (other call.dir)) call.dir none (some kept))))
        (some (.only (other call.dir))))
          (some true)

theorem exec_executed {t u : Table κ} {call : Call κ} {r : Option Bool}
    (h : exec t call = some (u, r)) :
    Executed t call u r := by
  rw [exec_eq] at h
  cases hp : call.puts with
  | some handle =>
      simp only [hp, addIo, Option.map_eq_some_iff] at h
      obtain ⟨v, hv, hu⟩ := h
      cases hu
      split at hv
      next data there =>
        obtain ⟨kept, hk, rfl⟩ := Option.map_eq_some_iff.mp hv
        exact .replace handle kept data hp there hk
      next => cases hv
      next missing =>
        cases hv
        exact .insert handle hp missing
  | none =>
      simp only [hp, removeIo, Option.map_eq_some_iff] at h
      obtain ⟨v, hv, hu⟩ := h
      cases hu
      split at hv
      next missing =>
        cases hv
        exact .absent hp missing
      next data there =>
        split at hv
        next alone =>
          cases hv
          exact .drop data hp there alone
        next more =>
          obtain ⟨kept, hk, rfl⟩ := Option.map_eq_some_iff.mp hv
          exact .keep kept data hp there more hk
      next => cases hv

theorem step_executed {t u : Table κ} {call : Call κ} (h : step t call = some u) :
    ∃ r, Executed t call u r := by
  obtain ⟨⟨v, r⟩, hv, rfl⟩ := Option.map_eq_some_iff.mp h
  exact ⟨r, exec_executed hv⟩

theorem matches_set {t : Table κ} {fd : Nat} {entry : Option (IOHandle κ)}
    {interest : Option Interest} (h : t.Matches)
    (new : ∀ data, entry = some (.py data) → data.Matches) : (t.set fd entry interest).Matches := by
  intro gd data hd
  rw [handlesIo_set] at hd
  by_cases same : gd = fd
  · rw [if_pos same] at hd
    exact new data hd
  · rw [if_neg same] at hd
    exact h gd data hd

theorem executed_matches {t u : Table κ} {call : Call κ} {r : Option Bool} (h : Executed t call u r)
    (ht : t.Matches) : u.Matches := by
  cases h with
  | insert handle puts missing =>
      refine matches_set ht fun data hd => ?_
      cases hd
      exact matches_of_slots call.dir (by simp) (by simp [(other_ne call.dir).symm])
  | replace handle kept data puts there hk =>
      refine matches_set ht fun new hn => ?_
      cases hn
      have theirs := (ht _ data there (other call.dir)).mpr (by rw [hk]; rfl)
      exact matches_of_slots call.dir (by simp) (by simp [theirs])
  | absent puts missing => exact ht
  | drop data puts there alone => exact matches_set ht fun new hn => by cases hn
  | keep kept data puts there more hk =>
      refine matches_set ht fun new hn => ?_
      cases hn
      exact matches_of_slots call.dir (by simp [other_ne]) (by simp)

theorem step_matches (t : Table κ) (call : Call κ) (u : Table κ) (ht : t.Matches)
    (h : step t call = some u) :
    u.Matches := by
  obtain ⟨r, hr⟩ := step_executed h
  exact executed_matches hr ht

/-- An entry and what the poller has registered for its descriptor. -/
def EntryAgrees : Option (IOHandle κ) → Option Interest → Prop
  | none, registered => registered = none
  | some (.py data), registered => registered = some data.interest ∧ data.Matches
  | some _, registered => registered ≠ none

def Table.Agrees (t : Table κ) : Prop := ∀ fd, EntryAgrees (t.handlesIo fd) (t.registered fd)

/-- The call does not put a second callback next to one of the other direction: where
there is an entry, it already has a callback of this direction. -/
def NotSecond (t : Table κ) (call : Call κ) : Prop :=
  call.puts.isSome = true → ∀ data, t.handlesIo call.fd = some (.py data) →
    (data.slot call.dir).isSome = true

theorem Table.Agrees.matches {t : Table κ} (h : t.Agrees) : t.Matches := by
  intro fd data hd
  have entry := h fd
  rw [hd] at entry
  exact entry.2

/-- Agreement is lost or kept at the one descriptor that was touched. -/
theorem agrees_set_iff {t : Table κ} {fd : Nat} {entry : Option (IOHandle κ)}
    {interest : Option Interest} (h : t.Agrees) : (t.set fd entry interest).Agrees ↔
    EntryAgrees entry interest := by
  constructor
  · intro after
    simpa using after fd
  · intro here gd
    rw [handlesIo_set, registered_set]
    by_cases same : gd = fd
    · rw [if_pos same, if_pos same]
      exact here
    · rw [if_neg same, if_neg same]
      exact h gd

theorem executed_agrees_iff {t u : Table κ} {call : Call κ} {r : Option Bool}
    (h : Executed t call u r) (ht : t.Agrees) : u.Agrees ↔ NotSecond t call := by
  have matched := executed_matches h ht.matches
  have here : ∀ data, u.handlesIo call.fd = some (.py data) → data.Matches := matched call.fd
  cases h with
  | insert handle puts missing =>
      rw [agrees_set_iff ht]
      refine iff_of_true ⟨by rw [interest_of], here _ (by simp)⟩ fun _ data hd => ?_
      rw [missing] at hd
      cases hd
  | replace handle kept data puts there hk =>
      rw [agrees_set_iff ht]
      have mine := ht.matches _ data there call.dir
      constructor
      · rintro ⟨same, -⟩ - found hf
        rw [interest_of, Option.some.injEq] at same
        cases there.symm.trans hf
        exact mine.mp ((add_eq_self_iff _ _).mp same.symm)
      · intro good
        have has := mine.mpr (good (by rw [puts]; rfl) data there)
        refine ⟨?_, here _ (by simp)⟩
        rw [interest_of, (add_eq_self_iff _ _).mpr has]
  | absent puts missing => exact iff_of_true ht fun adds => by rw [puts] at adds; cases adds
  | drop data puts there alone =>
      rw [agrees_set_iff ht]
      exact iff_of_true rfl fun adds => by rw [puts] at adds; cases adds
  | keep kept data puts there more hk =>
      rw [agrees_set_iff ht]
      refine iff_of_true ⟨by rw [interest_of], here _ (by simp)⟩ fun adds => ?_
      rw [puts] at adds
      cases adds

/-- The poller's registrations agree with the table after every call of a sequence
exactly when no call puts a second callback next to one of the other direction. -/
theorem registration_agrees_iff {s t : Table κ} {calls : List (Call κ)} (start : s.Agrees)
    (h : run step s calls = some t) : Always step Table.Agrees s calls ↔
    Guarded step NotSecond s calls := by
  refine always_iff_guarded (I := fun _ => True) (fun _ _ _ _ _ => trivial) ?_ h trivial start
  intro u call v _ agrees one
  obtain ⟨r, executed⟩ := step_executed one
  exact executed_agrees_iff executed agrees

theorem empty_agrees : (Table.empty : Table κ).Agrees := fun _ => rfl

/-- A reader alone, a writer alone on another descriptor, and their removal. -/
theorem registration_agrees_separate :
    Always step Table.Agrees (Table.empty : Table Nat)
      [.addReader 3 0, .addWriter 4 1, .removeReader 3, .removeWriter 4] := by
  refine (registration_agrees_iff (t := (((Table.empty.set 3 _ _).set 4 _ _).set 3 none none).set 4
    none none) empty_agrees rfl).mpr ?_
  refine guarded_cons rfl ?_ (guarded_cons rfl ?_
    (guarded_cons rfl ?_ (guarded_cons rfl ?_ trivial)))
  · intro _ data hd
    cases hd
  · intro _ data hd
    cases hd
  · exact fun adds => by cases adds
  · exact fun adds => by cases adds

/-- A writer and then a reader on one descriptor: the entry has both directions and the
poller only `WRITABLE`. -/
theorem registration_misses_reader :
    ¬ ∀ (calls : List (Call Nat)) (t : Table Nat), run step Table.empty calls = some t →
      Always step Table.Agrees Table.empty calls := by
  intro claim
  have always := claim [.addWriter 3 0, .addReader 3 1] _ rfl
  have last := (always.last rfl) 3
  have same : some (Interest.only .writable) = some Interest.both := last.1
  cases same

/-- What the calls are for: a map from descriptors to an optional reader and an optional
writer, next to which the entries of the transports stand untouched. -/
abbrev Slots (κ : Type) := Nat → Dir → Option κ

/-- Set or clear one slot; a removal answers whether the slot was occupied. -/
def Call.spec (call : Call κ) (m : Slots κ) : Slots κ × Option Bool :=
  (fun fd d => if fd = call.fd ∧ d = call.dir then call.puts else m fd d,
    if call.puts.isSome then none else some (m call.fd call.dir).isSome)

def IOHandle.slot : IOHandle κ → Dir → Option κ
  | .py data, d => data.slot d
  | _, _ => none

def Table.slots (t : Table κ) : Slots κ := fun fd d => (t.handlesIo fd).bind fun entry =>
    entry.slot d

/-- The entry is not one of the user's. -/
def Table.Foreign (t : Table κ) (fd : Nat) : Prop :=
  ∃ entry, t.handlesIo fd = some entry ∧ ∀ data, entry ≠ .py data

/-- The call returns, does to the slots what the abstract map does, gives its answer
and leaves the entries of the transports alone. -/
def Refines (t : Table κ) (call : Call κ) : Prop :=
  ∃ u r, exec t call = some (u, r) ∧ (u.slots, r) = call.spec t.slots ∧
    ∀ fd, t.Foreign fd → u.handlesIo fd = t.handlesIo fd

/-- The descriptor has no entry, or one of the user's: for an addition with a callback
of the other direction, for a removal with one of this direction. -/
def Fits (t : Table κ) (call : Call κ) : Prop :=
  ∀ entry, t.handlesIo call.fd = some entry →
    ∃ data, entry = .py data ∧
      (data.slot (if call.puts.isSome then other call.dir else call.dir)).isSome = true

theorem slots_of_entry {t : Table κ} {fd : Nat} {data : PyHandleData κ}
    (h : t.handlesIo fd = some (.py data)) (d : Dir) : t.slots fd d = data.slot d := by
  simp only [Table.slots, h, Option.bind_some, IOHandle.slot]

theorem slots_of_none {t : Table κ} {fd : Nat} (h : t.handlesIo fd = none)
    (d : Dir) : t.slots fd d = none := by
  simp only [Table.slots, h, Option.bind_none]

/-- An update of one entry seen as an update of one slot. -/
theorem slots_set_eq {t : Table κ} {call : Call κ} {entry : Option (IOHandle κ)}
    {interest : Option Interest} (mine : (entry.bind fun e => e.slot call.dir) = call.puts)
    (theirs : (entry.bind fun e => e.slot (other call.dir)) = t.slots call.fd (other call.dir)) :
    (t.set call.fd entry interest).slots = (call.spec t.slots).1 := by
  funext fd d
  simp only [Table.slots, handlesIo_set, Call.spec]
  by_cases same : fd = call.fd
  · subst same
    rw [if_pos rfl]
    obtain rfl | rfl := eq_or_eq_other call.dir d
    · rw [if_pos ⟨rfl, rfl⟩]
      exact mine
    · rw [if_neg fun h => other_ne _ h.2]
      exact theirs
  · rw [if_neg same, if_neg fun h => same h.1]

/-- Whatever a call answers, it does to the slots what the abstract map does. -/
theorem executed_slots {t u : Table κ} {call : Call κ} {r : Option Bool} (h : Executed t call u r)
    (ht : t.Matches) : u.slots = (call.spec t.slots).1 := by
  cases h with
  | insert handle puts missing =>
      refine slots_set_eq ?_ ?_
      · simp [IOHandle.slot, puts]
      · simp [IOHandle.slot, slots_of_none missing]
  | replace handle kept data puts there hk =>
      refine slots_set_eq ?_ ?_
      · simp [IOHandle.slot, puts]
      · simp [IOHandle.slot, slots_of_entry there, hk]
  | absent puts missing =>
      funext fd d
      simp only [Call.spec, puts]
      split
      next same => rw [same.1, slots_of_none missing]
      next => rfl
  | drop data puts there alone =>
      refine slots_set_eq puts.symm ?_
      have theirs := ht _ data there (other call.dir)
      rw [(eq_only_iff _ _).mp alone] at theirs
      rw [slots_of_entry there, Option.bind_none]
      cases hs : data.slot (other call.dir) with
      | none => rfl
      | some kept =>
          rw [hs] at theirs
          exact absurd (theirs.mpr rfl) Bool.false_ne_true
  | keep kept data puts there more hk =>
      refine slots_set_eq ?_ ?_
      · simp [IOHandle.slot, puts]
      · simp [IOHandle.slot, slots_of_entry there, hk]

theorem executed_foreign {t u : Table κ} {call : Call κ} {r : Option Bool} (h : Executed t call u r)
    {fd : Nat} (foreign : t.Foreign fd) : u.handlesIo fd = t.handlesIo fd := by
  obtain ⟨entry, there, notPy⟩ := foreign
  have apart : ∀ e, t.handlesIo call.fd = e → e = none ∨ (∃ data, e = some (.py data)) →
      fd ≠ call.fd := by
    rintro e he shape rfl
    rw [there] at he
    obtain rfl | ⟨data, rfl⟩ := shape
    · cases he
    · exact notPy data (Option.some.inj he)
  cases h with
  | insert handle puts missing => rw [handlesIo_set, if_neg (apart _ missing (.inl rfl))]
  | replace handle kept data puts found hk =>
      rw [handlesIo_set, if_neg (apart _ found (.inr ⟨data, rfl⟩))]
  | absent puts missing => rfl
  | drop data puts found alone => rw [handlesIo_set, if_neg (apart _ found (.inr ⟨data, rfl⟩))]
  | keep kept data puts found more hk =>
      rw [handlesIo_set, if_neg (apart _ found (.inr ⟨data, rfl⟩))]

/-- A call that returns gives the right answer exactly when it fits. -/
theorem executed_answer_iff {t u : Table κ} {call : Call κ} {r : Option Bool}
    (h : Executed t call u r) (ht : t.Matches) : r = (call.spec t.slots).2 ↔ Fits t call := by
  cases h with
  | insert handle puts missing =>
      refine iff_of_true (by simp [Call.spec, puts]) fun entry he => ?_
      rw [missing] at he
      cases he
  | replace handle kept data puts there hk =>
      refine iff_of_true (by simp [Call.spec, puts]) fun entry he => ?_
      rw [there] at he
      cases he
      exact ⟨data, rfl, by simp [puts, hk]⟩
  | absent puts missing =>
      refine iff_of_true (by simp [Call.spec, puts, slots_of_none missing]) fun entry he => ?_
      rw [missing] at he
      cases he
  | drop data puts there alone =>
      have mine : (data.slot call.dir).isSome = true :=
        (ht _ data there call.dir).mp (by rw [alone]; simp)
      refine iff_of_true (by simp [Call.spec, puts, slots_of_entry there, mine]) fun entry he => ?_
      rw [there] at he
      cases he
      exact ⟨data, rfl, by simp [puts, mine]⟩
  | keep kept data puts there more hk =>
      simp only [Call.spec, puts, slots_of_entry there, Option.isSome_none, Bool.false_eq_true,
        if_false, Option.some.injEq]
      constructor
      · intro occupied entry he
        rw [there] at he
        cases he
        exact ⟨data, rfl, by simp [puts, occupied.symm]⟩
      · intro fits
        obtain ⟨found, hf, occupied⟩ := fits _ there
        cases hf
        simpa [puts] using occupied.symm

/-- A call that fits does not panic. -/
theorem exec_of_fits {t : Table κ} {call : Call κ} (ht : t.Matches) (fits : Fits t call) :
    ∃ u r, exec t call = some (u, r) := by
  rw [exec_eq]
  cases he : t.handlesIo call.fd with
  | none =>
      cases hp : call.puts with
      | some handle => simp [addIo, he]
      | none => simp [removeIo, he]
  | some entry =>
      obtain ⟨data, rfl, occupied⟩ := fits entry he
      cases hp : call.puts with
      | some handle =>
          rw [hp] at occupied
          obtain ⟨kept, hk⟩ := Option.isSome_iff_exists.mp occupied
          simp only [Option.isSome_some, if_true] at hk
          simp [addIo, he, hk]
      | none =>
          by_cases alone : data.interest = .only call.dir
          · simp [removeIo, he, alone]
          · rw [eq_only_iff, Bool.not_eq_false] at alone
            obtain ⟨kept, hk⟩ := Option.isSome_iff_exists.mp ((ht _ data he _).mp alone)
            have more : data.interest ≠ .only call.dir := fun h => by
              rw [(eq_only_iff _ _).mp h] at alone
              cases alone
            simp [removeIo, he, more, hk]

theorem refines_iff_fits {t : Table κ} (ht : t.Matches) (call : Call κ) : Refines t call ↔
    Fits t call := by
  constructor
  · rintro ⟨u, r, h, meets, -⟩
    exact (executed_answer_iff (exec_executed h) ht).mp (Prod.ext_iff.mp meets).2
  · intro fits
    obtain ⟨u, r, h⟩ := exec_of_fits ht fits
    have executed := exec_executed h
    refine ⟨u, r, h, Prod.ext ?_ ?_, fun fd => executed_foreign executed⟩
    · exact executed_slots executed ht
    · exact (executed_answer_iff executed ht).mpr fits

/-- Every call of a sequence refines the abstract map exactly when every call fits the
entry it finds. -/
theorem calls_refine_iff {s : Table κ} {calls : List (Call κ)} (start : s.Matches) :
    Guarded step Refines s calls ↔ Guarded step Fits s calls :=
  guarded_congr (I := Table.Matches) step_matches (fun _ call ht => refines_iff_fits ht call) start

theorem empty_matches : (Table.empty : Table κ).Matches := empty_agrees.matches

/-- A writer, a reader, another reader and the removal of all of them. -/
theorem calls_refine_replaced :
    Guarded step Refines (Table.empty : Table Nat)
      [.addWriter 5 0, .addReader 5 1, .addReader 5 2, .removeWriter 5, .removeReader 5,
        .removeReader 5] := by
  refine (calls_refine_iff empty_matches).mpr ?_
  refine guarded_cons rfl ?_ (guarded_cons rfl ?_
    (guarded_cons rfl ?_ (guarded_cons rfl ?_ (guarded_cons rfl ?_
    (guarded_cons rfl ?_ trivial)))))
  · exact fun entry he => by cases he
  · exact fun entry he => ⟨_, (Option.some.inj he).symm, rfl⟩
  · exact fun entry he => ⟨_, (Option.some.inj he).symm, rfl⟩
  · exact fun entry he => ⟨_, (Option.some.inj he).symm, rfl⟩
  · exact fun entry he => ⟨_, (Option.some.inj he).symm, rfl⟩
  · exact fun entry he => by cases he

/-- The second `add_reader` on a descriptor without a writer panics. -/
theorem calls_panic_on_second_reader :
    ¬ ∀ calls : List (Call Nat), Guarded step Refines Table.empty calls := by
  intro claim
  obtain ⟨u, r, h, -⟩ := ((claim [.addReader 3 0, .addReader 3 1]).2 _ rfl).1
  cases h

end TokioLoop.Io
