import TokioLoop.Lib.Numbered
import TokioLoop.Lib.Runs

/-!
The life of a `Server` of RLoop: `start_serving`, `serve_forever` and `close` of the Python
object, the two flags of the Rust one and the descriptors of its listeners. `listen` makes
an object that owns the descriptor. It goes into `handles_io`, and some time after it was
replaced or removed there it is dropped, which closes the descriptor.

`handles_io` knows numbers only. A number that was closed by a failed `listen` or with its
object may be given to other code, which puts its own entry there.
-/
namespace TokioLoop.ServerLifecycle

open Runs Numbered

/-- What the number of a listener stands for: its own socket, nothing, or a descriptor
that other code has opened since. -/
inductive Fd where
  | own
  | closed
  | stranger
  deriving DecidableEq, Repr

/-- What `handles_io` has under the number: an object of the listener, or of other code a
listener or something else. -/
inductive Entry where
  | mine
  | listener
  | other
  deriving DecidableEq, Repr

/-- `retired` counts the objects that are out of `handles_io` and not dropped. `harmed`
records that the server closed a descriptor of other code or took its entry out. -/
structure Listener where
  fd : Fd
  entry : Option Entry
  retired : Nat
  harmed : Bool
  deriving DecidableEq, Repr

def Listener.mine (l : Listener) : Bool := l.entry == some .mine

def Listener.foreign (l : Listener) : Bool := l.entry == some .listener || l.entry == some .other

/-- The objects that will close the descriptor. -/
def Listener.owners (l : Listener) : Nat := l.retired + l.mine.toNat

def Listener.closeFd (l : Listener) : Listener :=
  match l.fd with
  | .own | .closed => { l with fd := .closed }
  | .stranger => { l with fd := .closed, harmed := true }

/-- `tcp_listener_add`, where `handles_io.insert` replaces what was there. -/
def Listener.add (l : Listener) : Listener :=
  { l with entry := some .mine, retired := l.owners, harmed := l.harmed || l.foreign }

/-- `tcp_listener_rem`, which removes what is there and is unreachable behind that if it is
no listener. -/
def Listener.rem (l : Listener) : Listener :=
  { l with entry := none, retired := l.owners, harmed := l.harmed || l.foreign }

def Listener.drop (l : Listener) : Listener := Listener.closeFd { l with retired := l.retired - 1 }

/-- Other code opens a descriptor that gets the number, or closes it again. -/
def Listener.other (l : Listener) : Option Listener :=
  match l.fd with
  | .own => none
  | .closed => some { l with fd := .stranger }
  | .stranger => some { l with fd := .closed }

/-- Other code puts an entry there for its descriptor. -/
def Listener.register (l : Listener) (listener : Bool) : Option Listener :=
  if l.fd = .stranger then some { l with
    entry := some (if listener then .listener else .other), retired := l.owners }
  else none

def Listener.unregister (l : Listener) : Option Listener :=
  if l.foreign then some { l with entry := none } else none

/-- `TCPServer::listen` for one listener after the other, of which `ok` succeed. The next
one fails, and the `Socket` made from its number closes it. -/
def listenAll : Nat → List Listener → List Listener
  | _, [] => []
  | 0, l :: ls => l.closeFd :: ls
  | ok + 1, l :: ls => l.add :: listenAll ok ls

/-- A `serve_forever` at its `await`, cancelled there and not resumed, and at its end. -/
inductive Stage where
  | awaiting
  | cancelled
  | ended
  deriving DecidableEq, Repr

/-- `active` and `sff` are `_active` and `_sff`, the latter by the `serve_forever` whose
future it is, and `forever` are the calls of `serve_forever` that got to their `await`.
`aborted` says that a panic has ended the process, as it does in a release build. -/
structure Server where
  listeners : List Listener
  aborted : Bool
  closed : Bool
  serving : Bool
  active : Bool
  sff : Option Nat
  forever : List Stage
  deriving DecidableEq, Repr

/-- `create_server` with `start_serving=False` and `n` sockets, whose numbers are new to the
loop. -/
def initial (n : Nat) : Server where
  listeners := List.replicate n ⟨.own, none, 0, false⟩
  aborted := false
  closed := false
  serving := false
  active := false
  sff := none
  forever := []

/-- `Server._start_serving` of the Rust object. -/
def Server.innerStart (s : Server) (ok : Nat) : Server :=
  { s with
    listeners := listenAll ok s.listeners
    serving := s.serving || ok == s.listeners.length }

/-- `TCPServer::close` for one listener after the other, and whether it panics. -/
def closeAll : List Listener → List Listener × Bool
  | [] => ([], false)
  | l :: ls =>
      if l.entry = some .other then (l.rem :: ls, true)
      else (l.rem :: (closeAll ls).1, (closeAll ls).2)

/-- `Server._close` of the Rust object. -/
def Server.innerClose (s : Server) : Server :=
  if s.closed then { s with serving := false }
  else
    let r := closeAll s.listeners
    { s with closed := true, listeners := r.1, aborted := r.2, serving := r.2 && s.serving }

/-- `start_serving` -/
def Server.startServing (s : Server) (ok : Nat) : Server :=
  if s.active then s else { s.innerStart ok with active := ok == s.listeners.length }

/-- `close` -/
def Server.close (s : Server) : Server :=
  let s := s.innerClose
  if s.aborted then s
  else
    match s.sff with
    | none => s
    | some i =>
        if s.forever[i]? = some .awaiting
          then { s with forever := s.forever.set i .cancelled, sff := none } else s

/-- `serve_forever` up to its `await`, or to the `RuntimeError` where `_sff` is set. -/
def Server.serveForever (s : Server) (ok : Nat) : Server :=
  match s.sff with
  | some _ => s
  | none =>
      let started := s.innerStart ok
      if ok = s.listeners.length then
        { started with sff := some s.forever.length, forever := s.forever ++ [.awaiting] }
      else started

/-- The rest of `serve_forever` from a cancelled `await`. -/
def Server.resume (s : Server) (i : Nat) : Server :=
  let s := s.close
  if s.aborted then s else { s with sff := none, forever := s.forever.set i .ended }

/-- `cancel` is of the task of a `serve_forever`, and `drop` the end of an object that is out
of `handles_io`. The last three are of other code; what the connections that a `close` aborts
do comes here before it. -/
inductive Action where
  | startServing (ok : Nat)
  | serveForever (ok : Nat)
  | cancel (i : Nat)
  | resume (i : Nat)
  | close
  | drop (i : Nat)
  | other (i : Nat)
  | register (i : Nat) (listener : Bool)
  | unregister (i : Nat)
  deriving DecidableEq, Repr

/-- No `listen` succeeds on a number that stands for nothing. -/
def Server.Answers (s : Server) (ok : Nat) : Prop :=
  ok ≤ s.listeners.length ∧ ∀ l ∈ s.listeners.take ok, l.fd ≠ .closed

instance (s : Server) (ok : Nat) : Decidable (s.Answers ok) := inferInstanceAs (Decidable (_ ∧ _))

/-- Something happens to one listener. -/
def Server.change (s : Server) (i : Nat) (f : Listener → Option Listener) : Option Server :=
  match s.listeners[i]? with
  | some l => (f l).map fun m => { s with listeners := s.listeners.set i m }
  | none => none

def Server.act (s : Server) : Action → Option Server
  | .startServing ok => if s.Answers ok then some (s.startServing ok) else none
  | .serveForever ok => if s.Answers ok then some (s.serveForever ok) else none
  | .cancel i =>
      match s.forever[i]? with
      | some .awaiting => some { s with forever := s.forever.set i .cancelled }
      | _ => none
  | .resume i =>
      match s.forever[i]? with
      | some .cancelled => some (s.resume i)
      | _ => none
  | .close => some s.close
  | .drop i => s.change i fun l => if l.retired = 0 then none else some l.drop
  | .other i => s.change i Listener.other
  | .register i listener => s.change i fun l => l.register listener
  | .unregister i => s.change i Listener.unregister

def step (s : Server) (a : Action) : Option Server := if s.aborted then none else s.act a

/-- Nothing of other code was closed or taken out, the own descriptor has at most one owner
while it is open and `handles_io` has nothing of others there, and no object is left that
would close the number after that. -/
structure Listener.Owned (l : Listener) : Prop where
  harmless : l.harmed = false
  once : l.fd = .own → l.owners ≤ 1
  place : l.fd = .own → l.foreign = false
  gone : l.fd ≠ .own → l.owners = 0

/-- The listener accepts, and one object owns it. -/
structure Listener.Listens (l : Listener) : Prop where
  fd : l.fd = .own
  entry : l.entry = some .mine
  retired : l.retired = 0

structure Server.Safe (s : Server) : Prop where
  owned : ∀ l ∈ s.listeners, l.Owned
  serving : s.serving = true → ∀ l ∈ s.listeners, l.Listens
  closed : s.closed = true → s.serving = false ∧ ∀ l ∈ s.listeners, l.mine = false

/-- What `serve_forever` answers for: at most one of them waits, with its future in `_sff`,
while the server serves, and the server is closed when one comes back. -/
structure Server.Attended (s : Server) : Prop where
  awaiting : ∀ i, s.forever[i]? = some .awaiting → s.sff = some i ∧ s.serving = true
  pending : ∀ i, s.sff = some i → i < s.forever.length
  ended : ∀ i : Nat, s.forever[i]? = some .ended → s.closed = true

/-- No object owns the listener, and its number does not stand for a descriptor of other
code. -/
def Listener.Free (l : Listener) : Prop := l.owners = 0 ∧ l.fd ≠ .stranger

instance (l : Listener) : Decidable l.Free := inferInstanceAs (Decidable (_ ∧ _))

/-- Each `listen` is of a listener that is free, and once the server is closed the first
of them fails. -/
def Server.Fresh (s : Server) (ok : Nat) : Prop :=
  (∀ l ∈ s.listeners.take (ok + 1), l.Free) ∧ (s.closed = true → ok = 0 ∧ s.listeners ≠ [])

instance (s : Server) (ok : Nat) : Decidable (s.Fresh ok) := inferInstanceAs (Decidable (_ ∧ _))

/-- The first `close` finds no entry of other code under the numbers. -/
def Server.Alone (s : Server) : Prop := s.closed = false → ∀ l ∈ s.listeners, l.foreign = false

instance (s : Server) : Decidable s.Alone := inferInstanceAs (Decidable (_ → _))

/-- The calls that get to `_start_serving` make fresh listeners, and those that get to
`_close` find the numbers free. -/
def Minded (s : Server) : Action → Prop
  | .startServing ok => s.active = false → s.Fresh ok
  | .serveForever ok => s.sff = none → s.Fresh ok
  | .resume _ | .close => s.Alone
  | .cancel _ | .drop _ | .other _ | .register _ _ | .unregister _ => True

instance (s : Server) (a : Action) : Decidable (Minded s a) := by
  cases a <;> unfold Minded <;> infer_instance

variable {s t : Server} {l : Listener} {ls : List Listener} {ok n : Nat} {actions : List Action}

theorem closeFd_kept : l.closeFd.entry = l.entry ∧ l.closeFd.retired = l.retired := by
  cases l with
  | mk fd entry retired harmed => cases fd <;> exact ⟨rfl, rfl⟩

theorem mine_closeFd : l.closeFd.mine = l.mine := by
  rw [Listener.mine, Listener.mine, closeFd_kept.1]

theorem owners_closeFd : l.closeFd.owners = l.owners := by
  rw [Listener.owners, Listener.owners, mine_closeFd, closeFd_kept.2]

theorem fd_closeFd : l.closeFd.fd = .closed := by
  cases l with
  | mk fd entry retired harmed => cases fd <;> rfl

theorem owners_add : l.add.owners = l.owners + 1 := rfl

theorem owners_drop : l.drop.owners = l.retired - 1 + l.mine.toNat := owners_closeFd

/-- An owned listener that is free, in terms of its number alone. -/
theorem Listener.Owned.free_iff (h : l.Owned) : l.Free ↔ l.fd = .closed ∨ l.fd = .own ∧
    l.owners = 0 := by
  unfold Listener.Free
  cases hfd : l.fd with
  | own => simp
  | closed => simp [h.gone (by simp [hfd])]
  | stranger => simp

theorem owned_closeFd (h : l.Owned) : l.closeFd.Owned ↔ l.Free := by
  have harmless := h.harmless
  rw [h.free_iff]
  constructor
  · intro owned
    have none := owners_closeFd ▸ owned.gone (by simp [fd_closeFd])
    cases hfd : l.fd with
    | own => exact .inr ⟨rfl, none⟩
    | closed => exact .inl rfl
    | stranger =>
        have harm := owned.harmless
        simp [Listener.closeFd, hfd] at harm
  · intro free
    have none : l.owners = 0 := by
      rcases free with closed | ⟨-, none⟩
      · exact h.gone (by simp [closed])
      · exact none
    constructor
    · rcases free with closed | ⟨own, -⟩
      · simp [Listener.closeFd, closed, harmless]
      · simp [Listener.closeFd, own, harmless]
    · intro own
      simp [fd_closeFd] at own
    · intro own
      simp [fd_closeFd] at own
    · intro _
      rw [owners_closeFd, none]

theorem owned_add (h : l.Owned) (live : l.fd ≠ .closed) : l.add.Owned ↔ l.Free := by
  rw [h.free_iff]
  constructor
  · intro owned
    by_cases own : l.fd = .own
    · have one := owned.once own
      rw [owners_add] at one
      exact .inr ⟨own, by omega⟩
    · have none := owned.gone own
      rw [owners_add] at none
      omega
  · intro free
    rcases free with closed | ⟨own, none⟩
    · exact absurd closed live
    · refine ⟨?_, fun _ => ?_, fun _ => rfl, fun other => absurd own other⟩
      · exact Bool.or_eq_false_iff.mpr ⟨h.harmless, h.place own⟩
      · rw [owners_add]
        omega

theorem listens_add (live : l.fd ≠ .closed) (free : l.Free) : l.add.Listens := by
  obtain ⟨none, other⟩ := free
  refine ⟨?_, rfl, none⟩
  cases hfd : l.fd with
  | own => exact hfd
  | closed => exact absurd hfd live
  | stranger => exact absurd hfd other

theorem Listener.Listens.of_owned (h : l.Owned) (entry : l.mine = true) : l.Listens := by
  have owners : l.owners = l.retired + 1 := by rw [Listener.owners, entry, Bool.toNat_true]
  have own : l.fd = .own := by
    by_contra other
    have none := h.gone other
    omega
  have once := h.once own
  exact ⟨own, beq_iff_eq.mp entry, by omega⟩

/-- What is removed was no entry of other code. -/
theorem owned_rem (h : l.Owned) : l.rem.Owned ↔ l.foreign = false := by
  constructor
  · intro owned
    exact (Bool.or_eq_false_iff.mp owned.harmless).2
  · intro free
    exact ⟨Bool.or_eq_false_iff.mpr ⟨h.harmless, free⟩, h.once, fun _ => rfl, h.gone⟩

/-- The object that is dropped was the only one. -/
theorem owned_drop (h : l.Owned) (there : l.retired ≠ 0) : l.drop.Owned := by
  have own : l.fd = .own := by
    by_contra other
    have none := h.gone other
    unfold Listener.owners at none
    omega
  have once := h.once own
  unfold Listener.owners at once
  constructor
  · simp [Listener.drop, Listener.closeFd, own, h.harmless]
  · intro live
    rw [Listener.drop, fd_closeFd] at live
    cases live
  · intro live
    rw [Listener.drop, fd_closeFd] at live
    cases live
  · intro _
    rw [owners_drop]
    omega

/-- A change of a listener that other code makes: the number is not the listener's own and
is not made so, and no object of the listener's appears. -/
structure Listener.Elsewhere (l m : Listener) : Prop where
  was : l.fd ≠ .own
  here : m.fd ≠ .own
  owners : m.owners = l.owners
  harmed : m.harmed = l.harmed
  mine : l.mine = false → m.mine = false

theorem other_elsewhere {m : Listener} (other : l.other = some m) : l.Elsewhere m := by
  unfold Listener.other at other
  cases hfd : l.fd with
  | own => simp [hfd] at other
  | closed | stranger =>
      simp only [hfd, Option.some.injEq] at other
      cases other
      exact ⟨by simp [hfd], by simp, rfl, rfl, id⟩

theorem register_elsewhere {m : Listener} {listener : Bool}
    (register : l.register listener = some m) :
    l.Elsewhere m := by
  obtain ⟨stranger, same⟩ := Option.ite_none_right_eq_some.mp register
  cases same
  have apart : l.fd ≠ .own := by simp [stranger]
  cases listener <;> exact ⟨apart, apart, rfl, rfl, fun _ => rfl⟩

theorem Listener.Elsewhere.owned {m : Listener} (elsewhere : l.Elsewhere m)
    (h : l.Owned) : m.Owned where
  harmless := elsewhere.harmed.trans h.harmless
  once := fun own => absurd own elsewhere.here
  place := fun own => absurd own elsewhere.here
  gone := fun _ => elsewhere.owners.trans (h.gone elsewhere.was)

theorem unregister_eq {m : Listener} (unregister : l.unregister = some m) :
    l.foreign = true ∧ m = { l with entry := none } := by
  obtain ⟨foreign, same⟩ := Option.ite_none_right_eq_some.mp unregister
  exact ⟨foreign, (Option.some.inj same).symm⟩

theorem mine_of_foreign (foreign : l.foreign = true) : l.mine = false := by
  unfold Listener.mine
  rcases Bool.or_eq_true_iff.mp foreign with listener | other
  · rw [beq_iff_eq.mp listener]
    rfl
  · rw [beq_iff_eq.mp other]
    rfl

theorem unregister_elsewhere {m : Listener} (h : l.Owned) (unregister : l.unregister = some m) :
    l.Elsewhere m := by
  obtain ⟨foreign, rfl⟩ := unregister_eq unregister
  have apart : l.fd ≠ .own := fun own => by
    rw [h.place own] at foreign
    cases foreign
  refine ⟨apart, apart, ?_, rfl, fun _ => rfl⟩
  simp only [Listener.owners, mine_of_foreign foreign]
  rfl

theorem owned_listenAll (owned : ∀ l ∈ ls, l.Owned) (answers : ∀ l ∈ ls.take ok, l.fd ≠ .closed) :
    (∀ l ∈ listenAll ok ls, l.Owned) ↔ ∀ l ∈ ls.take (ok + 1), l.Free := by
  induction ls generalizing ok with
  | nil => simp [listenAll]
  | cons l ls ih =>
      have here := owned l List.mem_cons_self
      have later : ∀ l ∈ ls, l.Owned := fun m there => owned m (List.mem_cons_of_mem l there)
      cases ok with
      | zero =>
          simp only [listenAll, List.forall_mem_cons, Nat.zero_add, List.take_succ_cons,
            List.take_zero, owned_closeFd here]
          exact and_congr_right fun _ => iff_of_true later (by simp)
      | succ ok =>
          rw [List.take_succ_cons, List.forall_mem_cons] at answers
          rw [listenAll, List.take_succ_cons, List.forall_mem_cons, List.forall_mem_cons,
            owned_add here answers.1, ih later answers.2]

theorem listens_listenAll (answers : ∀ l ∈ ls, l.fd ≠ .closed) (free : ∀ l ∈ ls, l.Free) :
    ∀ l ∈ listenAll ls.length ls, l.Listens := by
  induction ls with
  | nil => simp [listenAll]
  | cons l ls ih =>
      rw [List.forall_mem_cons] at answers free
      rw [List.length_cons, listenAll, List.forall_mem_cons]
      exact ⟨listens_add answers.1 free.1, ih answers.2 free.2⟩

/-- The objects of a start that fails are there all the same. -/
theorem mine_listenAll (bound : ok ≤ ls.length) (out : ∀ l ∈ ls, l.mine = false) :
    (∀ l ∈ listenAll ok ls, l.mine = false) ↔ ok = 0 := by
  cases ls with
  | nil =>
      have none : ok = 0 := Nat.le_zero.mp bound
      simp [listenAll, none]
  | cons l ls =>
      rw [List.forall_mem_cons] at out
      cases ok with
      | zero => simpa [listenAll, mine_closeFd] using out
      | succ ok =>
          refine iff_of_false (fun all => ?_) (Nat.succ_ne_zero ok)
          have added := all l.add List.mem_cons_self
          cases added

theorem kept_listenAll (inside : ∀ l ∈ ls, l.mine = true) :
    ∀ l ∈ listenAll ok ls, l.mine = true := by
  induction ls generalizing ok with
  | nil => simp [listenAll]
  | cons l ls ih =>
      rw [List.forall_mem_cons] at inside
      cases ok with
      | zero => simpa [listenAll, mine_closeFd] using inside
      | succ ok =>
          rw [listenAll, List.forall_mem_cons]
          exact ⟨rfl, ih inside.2⟩

theorem Listener.Listens.mine (listens : l.Listens) : l.mine = true := beq_iff_eq.mpr listens.entry

/-- `_start_serving` keeps the server safe exactly when its listeners are fresh. -/
theorem innerStart_safe (safe : s.Safe) (answers : s.Answers ok) : (s.innerStart ok).Safe ↔
    s.Fresh ok := by
  obtain ⟨bound, answers⟩ := answers
  have owned := owned_listenAll safe.owned answers
  have settled : s.closed = true → ((s.innerStart ok).serving = false ∧
      (∀ l ∈ (s.innerStart ok).listeners, l.mine = false) ↔ ok = 0 ∧ s.listeners ≠ []) := by
    intro closed
    obtain ⟨idle, out⟩ := safe.closed closed
    simp only [Server.innerStart, mine_listenAll bound out, idle, Bool.false_or,
      beq_eq_false_iff_ne]
    rw [and_comm]
    refine and_congr_right fun none => ?_
    rw [none, ne_comm, Ne, List.length_eq_zero_iff]
  constructor
  · intro kept
    exact ⟨owned.mp kept.owned, fun closed => (settled closed).mp (kept.closed closed)⟩
  · rintro ⟨free, shut⟩
    refine ⟨owned.mpr free, fun serving => ?_, fun closed => (settled closed).mpr (shut closed)⟩
    rcases Bool.or_eq_true_iff.mp serving with before | whole
    · intro l there
      exact Listener.Listens.of_owned (owned.mpr free l there)
        (kept_listenAll (fun m inside => (safe.serving before m inside).mine) l there)
    · have whole : ok = s.listeners.length := by simpa using whole
      rw [whole, List.take_length] at answers
      rw [whole, List.take_of_length_le (Nat.le_succ _)] at free
      simp only [Server.innerStart, whole]
      exact listens_listenAll answers free

/-- The listeners stay owned if none of the numbers has an entry of other code; the first
that has one is harmed, whether the close goes on from there or not. -/
theorem owned_closeAll (owned : ∀ l ∈ ls, l.Owned) :
    (∀ l ∈ (closeAll ls).1, l.Owned) ↔ ∀ l ∈ ls, l.foreign = false := by
  induction ls with
  | nil => simp [closeAll]
  | cons l ls ih =>
      rw [List.forall_mem_cons] at owned ⊢
      unfold closeAll
      split
      next other =>
        have foreign : l.foreign = true := by simp [Listener.foreign, other]
        refine iff_of_false (fun all => ?_) (by simp [foreign])
        rw [List.forall_mem_cons, owned_rem owned.1, foreign] at all
        cases all.1
      next =>
        rw [List.forall_mem_cons, owned_rem owned.1, ih owned.2]

theorem closeAll_alone (alone : ∀ l ∈ ls, l.foreign = false) :
    closeAll ls = (ls.map Listener.rem, false) := by
  induction ls with
  | nil => rfl
  | cons l ls ih =>
      rw [List.forall_mem_cons] at alone
      have apart : l.entry ≠ some .other := fun other => by simp [Listener.foreign, other] at alone
      rw [closeAll, if_neg apart, ih alone.2, List.map_cons]

theorem innerClose_safe (safe : s.Safe) : s.innerClose.Safe ↔ s.Alone := by
  unfold Server.innerClose Server.Alone
  cases shut : s.closed with
  | true =>
      refine iff_of_true ⟨safe.owned, fun serving => ?_, fun _ => ⟨rfl, (safe.closed shut).2⟩⟩
        fun no => ?_
      · cases serving
      · cases no
  | false =>
      rw [if_neg Bool.false_ne_true, imp_iff_right rfl, ← owned_closeAll safe.owned]
      constructor
      · intro kept
        exact kept.owned
      · intro owned
        have whole := closeAll_alone ((owned_closeAll safe.owned).mp owned)
        refine ⟨owned, fun serving => ?_, fun _ => ?_⟩
        · rw [whole] at serving
          cases serving
        · rw [whole]
          refine ⟨rfl, fun l there => ?_⟩
          obtain ⟨m, -, rfl⟩ := List.mem_map.mp there
          rfl

/-- The rest of `close` is about the futures of `serve_forever`. -/
theorem close_eq (s : Server) : s.close.listeners = s.innerClose.listeners ∧
    s.close.serving = s.innerClose.serving ∧ s.close.closed = s.innerClose.closed ∧
    s.close.aborted = s.innerClose.aborted ∧ s.close.forever.length = s.forever.length := by
  have inner : s.innerClose.forever = s.forever := by
    unfold Server.innerClose
    split <;> rfl
  rw [← inner]
  unfold Server.close
  dsimp only
  split
  · exact ⟨rfl, rfl, rfl, rfl, rfl⟩
  · split
    · exact ⟨rfl, rfl, rfl, rfl, rfl⟩
    · split
      · exact ⟨rfl, rfl, rfl, rfl, List.length_set⟩
      · exact ⟨rfl, rfl, rfl, rfl, rfl⟩

theorem Server.Safe.congr (safe : s.Safe) (listeners : t.listeners = s.listeners)
    (serving : t.serving = s.serving) (closed : t.closed = s.closed) : t.Safe := by
  constructor
  · rw [listeners]
    exact safe.owned
  · rw [listeners, serving]
    exact safe.serving
  · rw [listeners, serving, closed]
    exact safe.closed

theorem close_safe (safe : s.Safe) : s.close.Safe ↔ s.Alone := by
  obtain ⟨listeners, serving, closed, -⟩ := close_eq s
  rw [← innerClose_safe safe]
  exact ⟨fun kept => kept.congr listeners.symm serving.symm closed.symm, fun kept =>
    kept.congr listeners serving closed⟩

theorem resume_safe (safe : s.Safe) (i : Nat) : (s.resume i).Safe ↔ s.Alone := by
  rw [← close_safe safe]
  unfold Server.resume
  dsimp only
  split
  · exact Iff.rfl
  · exact ⟨fun kept => kept.congr rfl rfl rfl, fun kept => kept.congr rfl rfl rfl⟩

theorem change_eq {i : Nat} {f : Listener → Option Listener} (h : s.change i f = some t) :
    ∃ l m, s.listeners[i]? = some l ∧ f l = some m ∧
    t = { s with listeners := s.listeners.set i m } := by
  unfold Server.change at h
  split at h
  next l there =>
    obtain ⟨m, made, rfl⟩ := Option.map_eq_some_iff.mp h
    exact ⟨l, m, there, made, rfl⟩
  next => cases h

theorem set_safe {i : Nat} {m : Listener} (safe : s.Safe) (there : s.listeners[i]? = some l)
    (owned : m.Owned) (mine : l.mine = false → m.mine = false) (idle : ¬ l.Listens) :
    Server.Safe { s with listeners := s.listeners.set i m } := by
  have inside := List.mem_of_getElem? there
  constructor
  · intro k hk
    rcases List.mem_or_eq_of_mem_set hk with old | rfl
    · exact safe.owned k old
    · exact owned
  · intro serving
    exact absurd (safe.serving serving l inside) idle
  · intro closed
    obtain ⟨off, out⟩ := safe.closed closed
    refine ⟨off, fun k hk => ?_⟩
    rcases List.mem_or_eq_of_mem_set hk with old | rfl
    · exact out k old
    · exact mine (out l inside)

/-- What other code does keeps the server safe. -/
theorem elsewhere_safe {i : Nat} {m : Listener} (safe : s.Safe) (there : s.listeners[i]? = some l)
    (elsewhere : l.Elsewhere m) : Server.Safe { s with listeners := s.listeners.set i m } :=
  set_safe safe there (elsewhere.owned (safe.owned l (List.mem_of_getElem? there))) elsewhere.mine
    fun listens => elsewhere.was listens.fd

theorem startServing_safe (safe : s.Safe) (answers : s.Answers ok) :
    (s.startServing ok).Safe ↔ (s.active = false → s.Fresh ok) := by
  rw [← innerStart_safe safe answers]
  unfold Server.startServing
  cases s.active with
  | true => exact iff_of_true safe (fun no => by cases no)
  | false =>
      rw [if_neg Bool.false_ne_true]
      exact ⟨fun kept _ => kept.congr rfl rfl rfl, fun kept => (kept rfl).congr rfl rfl rfl⟩

theorem serveForever_safe (safe : s.Safe) (answers : s.Answers ok) :
    (s.serveForever ok).Safe ↔ (s.sff = none → s.Fresh ok) := by
  rw [← innerStart_safe safe answers]
  unfold Server.serveForever
  cases s.sff with
  | some i => exact iff_of_true safe (fun no => by cases no)
  | none =>
      dsimp only
      split
      · exact ⟨fun kept _ => kept.congr rfl rfl rfl, fun kept => (kept rfl).congr rfl rfl rfl⟩
      · exact ⟨fun kept _ => kept, fun kept => kept rfl⟩

/-- A step keeps the server safe exactly when it is minded. -/
theorem step_safe (s : Server) (a : Action) (t : Server) (safe : s.Safe) (h : step s a = some t) :
    t.Safe ↔ Minded s a := by
  obtain ⟨-, h⟩ := Option.ite_none_left_eq_some.mp h
  cases a with
  | startServing ok =>
      obtain ⟨answers, same⟩ := Option.ite_none_right_eq_some.mp h
      cases same
      exact startServing_safe safe answers
  | serveForever ok =>
      obtain ⟨answers, same⟩ := Option.ite_none_right_eq_some.mp h
      cases same
      exact serveForever_safe safe answers
  | cancel i =>
      refine iff_of_true ?_ trivial
      simp only [Server.act] at h
      split at h
      · cases h
        exact safe.congr rfl rfl rfl
      · cases h
  | resume i =>
      simp only [Server.act] at h
      split at h
      · cases h
        exact resume_safe safe i
      · cases h
  | close =>
      cases h
      exact close_safe safe
  | drop i =>
      obtain ⟨l, m, there, made, rfl⟩ := change_eq h
      obtain ⟨left, same⟩ := Option.ite_none_left_eq_some.mp made
      cases same
      refine iff_of_true (set_safe safe there ?_ ?_ fun listens => left listens.retired) trivial
      · exact owned_drop (safe.owned l (List.mem_of_getElem? there)) left
      · exact fun mine => mine_closeFd.trans mine
  | other i =>
      obtain ⟨l, m, there, made, rfl⟩ := change_eq h
      exact iff_of_true (elsewhere_safe safe there (other_elsewhere made)) trivial
  | register i listener =>
      obtain ⟨l, m, there, made, rfl⟩ := change_eq h
      exact iff_of_true (elsewhere_safe safe there (register_elsewhere made)) trivial
  | unregister i =>
      obtain ⟨l, m, there, made, rfl⟩ := change_eq h
      have owned := safe.owned l (List.mem_of_getElem? there)
      exact iff_of_true (elsewhere_safe safe there (unregister_elsewhere owned made)) trivial

/-- What `_close` does to the rest of the server; it panics before it clears the flag. -/
theorem innerClose_kept (alive : s.aborted = false) : s.innerClose.forever = s.forever ∧
    s.innerClose.sff = s.sff ∧ s.innerClose.closed = true ∧
    (s.innerClose.aborted = true → s.innerClose.serving = s.serving) := by
  unfold Server.innerClose
  split
  next shut =>
    refine ⟨rfl, rfl, shut, fun aborted => ?_⟩
    rw [alive] at aborted
    cases aborted
  next =>
    refine ⟨rfl, rfl, rfl, fun aborted => ?_⟩
    have panics : (closeAll s.listeners).2 = true := aborted
    simp [panics]

/-- A `close` that comes back leaves no `serve_forever` waiting. -/
theorem close_quiet (attended : s.Attended) (alive : s.aborted = false)
    (back : s.close.aborted = false) (i : Nat) : s.close.forever[i]? ≠ some .awaiting := by
  obtain ⟨forever, sff, -, -⟩ := innerClose_kept alive
  have only := attended.awaiting i
  rw [(close_eq s).2.2.2.1] at back
  unfold Server.close
  dsimp only
  rw [back, if_neg Bool.false_ne_true, sff, forever]
  split
  · next none =>
      intro awaiting
      rw [forever] at awaiting
      cases none.symm.trans (only awaiting).1
  · next j future =>
      split
      · intro awaiting
        obtain ⟨apart, before⟩ := look_of_set awaiting (by decide)
        exact apart (Option.some.inj ((only before).1.symm.trans future))
      · next other =>
          intro awaiting
          rw [forever] at awaiting
          rw [Option.some.inj (future.symm.trans (only awaiting).1)] at other
          exact other awaiting

theorem innerStart_attended (attended : s.Attended) : (s.innerStart ok).Attended where
  awaiting := fun i there => by
    obtain ⟨future, serving⟩ := attended.awaiting i there
    exact ⟨future, by simp [Server.innerStart, serving]⟩
  pending := attended.pending
  ended := attended.ended

theorem serveForever_attended (attended : s.Attended) : (s.serveForever ok).Attended := by
  unfold Server.serveForever
  cases future : s.sff with
  | some i => exact attended
  | none =>
      have started : (s.innerStart ok).Attended := innerStart_attended attended
      dsimp only
      split
      · next whole =>
          have before : ∀ i : Nat, s.forever[i]? ≠ some .awaiting := by
            intro i there
            cases future.symm.trans (attended.awaiting i there).1
          constructor
          · intro i there
            rcases look_concat.mp there with old | ⟨rfl, -⟩
            · exact absurd old (before i)
            · exact ⟨rfl, by simp [Server.innerStart, whole]⟩
          · intro i same
            obtain rfl := Option.some.inj same
            simp
          · intro i there
            rcases look_concat.mp there with old | ⟨-, new⟩
            · exact attended.ended i old
            · cases new
      · exact started

/-- A `close` that panics leaves the calls of `serve_forever` as they were. -/
theorem close_aborted (alive : s.aborted = false) (aborted : s.close.aborted = true) :
    s.close.forever = s.forever ∧ s.close.sff = s.sff ∧ s.close.serving = s.serving := by
  obtain ⟨forever, sff, -, serving⟩ := innerClose_kept alive
  rw [(close_eq s).2.2.2.1] at aborted
  have same : s.close = s.innerClose := by
    unfold Server.close
    dsimp only
    rw [if_pos aborted]
  rw [same]
  exact ⟨forever, sff, serving aborted⟩

theorem close_attended (attended : s.Attended) (alive : s.aborted = false) : s.close.Attended := by
  obtain ⟨-, -, closed, -, length⟩ := close_eq s
  obtain ⟨-, sff, shut, -⟩ := innerClose_kept alive
  constructor
  · intro i awaiting
    cases back : s.close.aborted with
    | false => exact absurd awaiting (close_quiet attended alive back i)
    | true =>
        obtain ⟨forever, future, serving⟩ := close_aborted alive back
        rw [forever] at awaiting
        rw [future, serving]
        exact attended.awaiting i awaiting
  · intro i future
    rw [length]
    apply attended.pending i
    rw [← sff]
    unfold Server.close at future
    dsimp only at future
    split at future
    · exact future
    · split at future
      · exact future
      · split at future
        · cases future
        · exact future
  · exact fun _ _ => closed.trans shut

theorem resume_attended (attended : s.Attended) (alive : s.aborted = false)
    (i : Nat) : (s.resume i).Attended := by
  have after := close_attended attended alive
  unfold Server.resume
  dsimp only
  cases back : s.close.aborted with
  | true => exact after
  | false =>
      rw [if_neg Bool.false_ne_true]
      constructor
      · intro j awaiting
        exact absurd (look_of_set awaiting (by decide)).2 (close_quiet attended alive back j)
      · intro j future
        cases future
      · intro j _
        exact (close_eq s).2.2.1.trans (innerClose_kept alive).2.2.1

theorem cancel_attended (attended : s.Attended) (i : Nat) :
    Server.Attended { s with forever := s.forever.set i .cancelled } where
  awaiting := fun j there => attended.awaiting j (look_of_set there (by decide)).2
  pending := fun j future => by
    rw [List.length_set]
    exact attended.pending j future
  ended := fun j there => attended.ended j (look_of_set there (by decide)).2

theorem change_attended {i : Nat} {f : Listener → Option Listener} (attended : s.Attended)
    (h : s.change i f = some t) : t.Attended := by
  obtain ⟨l, m, -, -, rfl⟩ := change_eq h
  exact ⟨attended.awaiting, attended.pending, attended.ended⟩

theorem step_attended (s : Server) (a : Action) (t : Server) (attended : s.Attended)
    (h : step s a = some t) :
    t.Attended := by
  obtain ⟨alive, h⟩ := Option.ite_none_left_eq_some.mp h
  have alive := (Bool.not_eq_true s.aborted).mp alive
  cases a with
  | startServing ok =>
      obtain ⟨-, same⟩ := Option.ite_none_right_eq_some.mp h
      cases same
      unfold Server.startServing
      split
      · exact attended
      · have started : (s.innerStart ok).Attended := innerStart_attended attended
        exact ⟨started.awaiting, started.pending, started.ended⟩
  | serveForever ok =>
      obtain ⟨-, same⟩ := Option.ite_none_right_eq_some.mp h
      cases same
      exact serveForever_attended attended
  | cancel i =>
      simp only [Server.act] at h
      split at h
      · cases h
        exact cancel_attended attended i
      · cases h
  | resume i =>
      simp only [Server.act] at h
      split at h
      · cases h
        exact resume_attended attended alive i
      · cases h
  | close =>
      cases h
      exact close_attended attended alive
  | drop _ | other _ | register _ _ | unregister _ => exact change_attended attended h

theorem initial_safe (n : Nat) : (initial n).Safe where
  owned := fun l there => by
    cases List.eq_of_mem_replicate there
    exact ⟨rfl, fun _ => Nat.zero_le _, fun _ => rfl, fun other => absurd rfl other⟩
  serving := fun serving => by cases serving
  closed := fun closed => by cases closed

theorem initial_attended (n : Nat) : (initial n).Attended where
  awaiting := fun i there => by cases there
  pending := fun i future => by cases future
  ended := fun i there => by cases there

/-- At most one `serve_forever` waits, and the server is closed when one comes back. Each
listener has one owner while the server serves and none once its number stands for
something else, nothing of other code is closed or taken out of the loop, and a closed
server is out of the loop, in every state of a run exactly if every `listen` of the run is
of a fresh listener and the first close finds no entry of other code. -/
theorem server_safe_iff (h : run step (initial n) actions = some t) :
    t.Attended ∧ (Always step Server.Safe (initial n) actions ↔
      Guarded step Minded (initial n) actions) :=
  ⟨run_invariant step_attended h (initial_attended n),
    always_iff_guarded (I := fun _ => True) (fun _ _ _ _ _ => trivial)
    (fun s a t _ => step_safe s a t) h trivial
      (initial_safe n)⟩

/-- `async with server: await server.serve_forever()` listens twice. -/
def withForever : List Action :=
  [.startServing 1, .serveForever 1, .cancel 0, .resume 0, .drop 0, .other 0, .drop 0]

theorem withForever_unsafe : ¬ Always step Server.Safe (initial 1) withForever := by
  intro always
  have once := (server_safe_iff
    (t := ⟨[⟨.closed, none, 0, true⟩], false, true, false, true, none, [.ended]⟩) rfl).2.mp always
  revert once
  decide

example : ¬ Guarded step Minded (initial 1) [.startServing 0, .other 0, .register 0 true,
    .close] := by decide

end TokioLoop.ServerLifecycle
