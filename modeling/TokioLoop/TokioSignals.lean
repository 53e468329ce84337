import Mathlib.Data.List.Basic
import Mathlib.Logic.Function.Basic
import TokioLoop.Lib.Runs

/-!
Signals on TokioLoop. Each `run_forever` makes a self-socket whose write end becomes the
wakeup descriptor, and `_ssock_set` spawns a task that duplicates both ends later and
forwards what it reads to a channel that all runs of the loop share; `_run` stops at
`SIGINT` and `SIGTERM`, and at any signal while `sig_listening` is down. The tasks run on
workers of the runtime, beside the thread of the loop and other code that opens and closes
descriptors; there `check_signals` does nothing.
-/
namespace TokioLoop.TokioSignals

open Runs

/-- What is open behind a descriptor: an end of the self-socket of a run, or a file of
other code. -/
inductive File where
  | reading (run : Nat)
  | writing (run : Nat)
  | other (id : Nat)
  deriving DecidableEq, Repr

def File.own : File → Bool
  | .reading _ | .writing _ => true
  | .other _ => false

/-- The two ends of one self-socket. -/
def File.faces : File → File → Bool
  | .reading j, .writing i | .writing j, .reading i => j == i
  | _, _ => false

/-- A byte, with the run in which a signal wrote it. -/
structure Byte where
  sig : UInt8
  run : Option Nat
  deriving DecidableEq, Repr

/-- `SIGINT` or `SIGTERM` -/
def Byte.terminates (b : Byte) : Bool := b.sig == 2 || b.sig == 15

/-- The task of `_ssock_set`: before each of its two calls of `dup`, before the conversion,
at `readable`, behind the test of `sig_listening`, and with bytes to send. It ends where the
first `dup` has failed, and the descriptor of the second one stays open then. -/
inductive Reader where
  | spawned
  | half (r : Option File)
  | leaked (w : File)
  | duplicated (r w : File)
  | waiting (r w : File)
  | admitted (r w : File)
  | sending (r w : File) (bytes : List Byte)
  | ended
  deriving DecidableEq, Repr

/-- The files of its own descriptors. -/
def Reader.holds : Reader → List File
  | .spawned | .ended => []
  | .half r => r.toList
  | .leaked w => [w]
  | .duplicated r w | .waiting r w | .admitted r w | .sending r w _ => [r, w]

/-- What it reads from, in its loop. -/
def Reader.source : Reader → Option File
  | .spawned | .half _ | .leaked _ | .duplicated _ _ | .ended => none
  | .waiting r _ | .admitted r _ | .sending r _ _ => some r

def Reader.bytes : Reader → List Byte
  | .sending _ _ bytes => bytes
  | _ => []

/-- What the two calls of `dup` leave of the task. -/
def Reader.paired : Option File → Option File → Reader
  | some r, some w => .duplicated r w
  | none, some w => .leaked w
  | _, none => .ended

/-- Where the thread of the loop is: between two runs, behind `_ssock_start`, in `_run`,
and before each part of `_run_forever_post`, from `_signals_pause` on. -/
inductive Phase where
  | idle
  | opened
  | running
  | broken
  | paused
  | deleted
  | halfClosed
  | closed
  deriving DecidableEq, Repr

/-- A run has its number, at `run` the current or next one. `numbers` are the descriptors
of its self-socket and `readers` its task; `main` says that the run is in the main thread.
`asked` says that the run has a reason to end, and `ends` whether each run that has ended
had one. -/
structure State where
  run : Nat
  phase : Phase
  main : Bool
  numbers : Nat → Nat × Nat
  readers : Nat → Reader
  fds : Nat → Option File
  unread : File → List Byte
  channel : List Byte
  listening : Bool
  stopping : Bool
  asked : Bool
  ends : List Bool

def initial : State where
  run := 0
  phase := .idle
  main := true
  numbers := fun _ => (0, 0)
  readers := fun _ => .ended
  fds := fun _ => none
  unread := fun _ => []
  channel := []
  listening := false
  stopping := false
  asked := false
  ends := []

/-- The break out of the loop of `_run`. -/
def State.break (s : State) : State := { s with phase := .broken, ends := s.ends ++ [s.asked] }

def State.setReader (s : State) (k : Nat) (r : Reader) : State :=
  { s with readers := Function.update s.readers k r }

def State.setFd (s : State) (n : Nat) (f : Option File) : State :=
  { s with fds := Function.update s.fds n f }

def State.setUnread (s : State) (f : File) (bytes : List Byte) : State :=
  { s with unread := Function.update s.unread f bytes }

/-- `_ssock_start` with the numbers the kernel chose; `_ssock_set` spawns the task. -/
def State.sockets (s : State) (r w : Nat) (main : Bool) : State :=
  { ((s.setFd r (some (.reading s.run))).setFd w (some (.writing s.run))).setReader s.run .spawned
      with
    phase := .opened
    main
    numbers := Function.update s.numbers s.run (r, w) }

/-- A signal from the channel in `_run`. -/
def State.received (s : State) (b : Byte) (rest : List Byte) : State :=
  let t := { s with channel := rest, stopping := s.stopping || b.terminates }
  if t.listening && !t.stopping then t else t.break

/-- `_run_forever_post`, part by part. -/
def State.post (s : State) : Option State :=
  match s.phase with
  | .broken => some { s with phase := .paused }
  | .paused => some { s with phase := .deleted, listening := false }
  | .deleted => some { s.setFd (s.numbers s.run).2 none with phase := .halfClosed }
  | .halfClosed => some { s.setFd (s.numbers s.run).1 none with phase := .closed }
  | .closed => some { s with phase := .idle, run := s.run + 1, stopping := false, asked := false }
  | .idle | .opened | .running => none

/-- `try_read` with what the socket gives of its bytes. -/
def State.tryRead (s : State) (k : Nat) (r w : File) (n : Nat) : State :=
  let got := (s.unread r).take (min n 1024)
  (s.setUnread r ((s.unread r).drop got.length)).setReader k (if got = [] then .waiting r w
    else .sending r w got)

/-- `turn` is any branch of `select!` but the signals; `take`, `release` and `data` are other
code. -/
inductive Action where
  | sockets (r w : Nat) (main : Bool)
  | resume
  | receive
  | turn
  | post
  | stop
  | signal (sig : UInt8)
  | dupR (k : Nat)
  | dupW (k : Nat)
  | convert (k : Nat) (ok : Bool)
  | check (k : Nat)
  | read (k n : Nat)
  | hangup (k : Nat)
  | send (k : Nat)
  | take (n id : Nat)
  | release (n : Nat)
  | data (id : Nat) (sig : UInt8)
  deriving DecidableEq, Repr

def step (s : State) : Action → Option State
  | .sockets r w main =>
      if s.phase = .idle ∧ r ≠ w ∧ s.fds r = none ∧ s.fds w = none then some (s.sockets r w main)
        else none
  | .resume => if s.phase = .opened then some { s with phase := .running } else none
  | .receive =>
      match s.channel with
      | [] => none
      | b :: rest => if s.phase = .running then some (s.received b rest) else none
  | .turn => if s.phase = .running then some (if s.stopping then s.break else s) else none
  | .post => s.post
  | .stop => some { s with stopping := true, asked := true }
  | .signal sig =>
      if (s.phase = .running ∨ s.phase = .broken) ∧ s.main = true then
        some { s.setUnread (.reading s.run) (s.unread (.reading s.run) ++ [⟨sig, some s.run⟩]) with
          asked := s.asked || Byte.terminates ⟨sig, some s.run⟩ }
      else none
  | .dupR k =>
      match s.readers k with
      | .spawned => some (s.setReader k (.half (s.fds (s.numbers k).1)))
      | _ => none
  | .dupW k =>
      match s.readers k with
      | .half r => some (s.setReader k (.paired r (s.fds (s.numbers k).2)))
      | _ => none
  | .convert k ok =>
      match s.readers k with
      | .duplicated r w =>
          some (if ok then { s.setReader k (.waiting r w) with listening := true }
            else s.setReader k .ended)
      | _ => none
  | .check k =>
      match s.readers k with
      | .waiting r w => some (s.setReader k (if s.listening then .admitted r w else .ended))
      | _ => none
  | .read k n =>
      match s.readers k with
      | .admitted r w => some (s.tryRead k r w n)
      | _ => none
  | .hangup k =>
      match s.readers k with
      | .admitted r w => if r.faces w then none else some (s.setReader k .ended)
      | _ => none
  | .send k =>
      match s.readers k with
      | .sending r w (b :: rest) =>
          some { s.setReader k (if rest = [] then .waiting r w else .sending r w rest) with
            channel := s.channel ++ [b] }
      | _ => none
  | .take n id => if s.fds n = none then some (s.setFd n (some (.other id))) else none
  | .release n =>
      match s.fds n with
      | some (.other _) => some (s.setFd n none)
      | _ => none
  | .data id sig => some (s.setUnread (.other id) (s.unread (.other id) ++ [⟨sig, none⟩]))

/-- The ways to take a step. -/
inductive Stepped (s : State) : Action → State → Prop where
  | sockets (r w : Nat) (main : Bool) : s.phase = .idle →
      Stepped s (.sockets r w main) (s.sockets r w main)
  | resume : s.phase = .opened → Stepped s .resume { s with phase := .running }
  | receive (b : Byte) (rest : List Byte) : s.channel = b :: rest → s.phase = .running →
      Stepped s .receive (s.received b rest)
  | turn : s.phase = .running → Stepped s .turn (if s.stopping then s.break else s)
  | pause : s.phase = .broken → Stepped s .post { s with phase := .paused }
  | delete : s.phase = .paused → Stepped s .post { s with phase := .deleted, listening := false }
  | closeW : s.phase = .deleted → Stepped s .post { s.setFd (s.numbers s.run).2 none with
      phase := .halfClosed }
  | closeR : s.phase = .halfClosed →
      Stepped s .post { s.setFd (s.numbers s.run).1 none with phase := .closed }
  | finish : s.phase = .closed →
      Stepped s .post { s with phase := .idle, run := s.run + 1, stopping := false, asked := false }
  | stop : Stepped s .stop { s with stopping := true, asked := true }
  | signal (sig : UInt8) : s.phase = .running ∨ s.phase = .broken →
      Stepped s (.signal sig)
        { s.setUnread (.reading s.run) (s.unread (.reading s.run) ++ [⟨sig, some s.run⟩]) with
          asked := s.asked || Byte.terminates ⟨sig, some s.run⟩ }
  | dupR (k : Nat) : s.readers k = .spawned →
      Stepped s (.dupR k) (s.setReader k (.half (s.fds (s.numbers k).1)))
  | dupW (k : Nat) (r : Option File) : s.readers k = .half r →
      Stepped s (.dupW k) (s.setReader k (.paired r (s.fds (s.numbers k).2)))
  | convert (k : Nat) (r w : File) : s.readers k = .duplicated r w →
      Stepped s (.convert k true) { s.setReader k (.waiting r w) with listening := true }
  | refuse (k : Nat) : Stepped s (.convert k false) (s.setReader k .ended)
  | check (k : Nat) (r w : File) : s.readers k = .waiting r w →
      Stepped s (.check k) (s.setReader k (if s.listening then .admitted r w else .ended))
  | read (k n : Nat) (r w : File) : s.readers k = .admitted r w →
      Stepped s (.read k n) (s.tryRead k r w n)
  | hangup (k : Nat) : Stepped s (.hangup k) (s.setReader k .ended)
  | send (k : Nat) (r w : File) (b : Byte) (rest : List Byte) :
      s.readers k = .sending r w (b :: rest) → Stepped s (.send k)
        { s.setReader k (if rest = [] then .waiting r w else .sending r w rest) with
          channel := s.channel ++ [b] }
  | take (n id : Nat) : Stepped s (.take n id) (s.setFd n (some (.other id)))
  | release (n : Nat) : Stepped s (.release n) (s.setFd n none)
  | data (id : Nat) (sig : UInt8) :
      Stepped s (.data id sig) (s.setUnread (.other id) (s.unread (.other id) ++ [⟨sig, none⟩]))

variable {s t : State}

theorem post_stepped (h : s.post = some t) : Stepped s .post t := by
  unfold State.post at h
  split at h <;> cases h
  · next phase => exact .pause phase
  · next phase => exact .delete phase
  · next phase => exact .closeW phase
  · next phase => exact .closeR phase
  · next phase => exact .finish phase

theorem step_stepped {a : Action} (h : step s a = some t) : Stepped s a t := by
  cases a with
  | sockets r w main =>
      obtain ⟨⟨idle, -⟩, one⟩ := Option.ite_none_right_eq_some.mp h
      cases one
      exact .sockets r w main idle
  | resume =>
      obtain ⟨opened, one⟩ := Option.ite_none_right_eq_some.mp h
      cases one
      exact .resume opened
  | receive =>
      simp only [step] at h
      split at h
      · cases h
      · next b rest there =>
          obtain ⟨running, one⟩ := Option.ite_none_right_eq_some.mp h
          cases one
          exact .receive b rest there running
  | turn =>
      obtain ⟨running, one⟩ := Option.ite_none_right_eq_some.mp h
      cases one
      exact .turn running
  | post => exact post_stepped h
  | stop =>
      cases h
      exact .stop
  | signal sig =>
      obtain ⟨⟨active, -⟩, one⟩ := Option.ite_none_right_eq_some.mp h
      cases one
      exact .signal sig active
  | dupR k =>
      simp only [step] at h
      split at h <;> cases h
      next there => exact .dupR k there
  | dupW k =>
      simp only [step] at h
      split at h <;> cases h
      next r there => exact .dupW k r there
  | convert k ok =>
      simp only [step] at h
      split at h <;> cases h
      next r w there =>
        cases ok with
        | true => exact .convert k r w there
        | false => exact .refuse k
  | check k =>
      simp only [step] at h
      split at h <;> cases h
      next r w there => exact .check k r w there
  | read k n =>
      simp only [step] at h
      split at h <;> cases h
      next r w there => exact .read k n r w there
  | hangup k =>
      simp only [step] at h
      split at h
      · obtain ⟨-, one⟩ := Option.ite_none_left_eq_some.mp h
        cases one
        exact .hangup k
      · cases h
  | send k =>
      simp only [step] at h
      split at h <;> cases h
      next r w b rest there => exact .send k r w b rest there
  | take n id =>
      obtain ⟨-, one⟩ := Option.ite_none_right_eq_some.mp h
      cases one
      exact .take n id
  | release n =>
      simp only [step] at h
      split at h <;> cases h
      exact .release n
  | data id sig =>
      cases h
      exact .data id sig

/-- Every run that has ended was asked to, by `stop` since the run before it was over or by
`SIGINT` or `SIGTERM` while it ran; and no task holds a descriptor of other code. -/
structure State.Orderly (s : State) : Prop where
  asked : ∀ asked ∈ s.ends, asked = true
  apart : ∀ k, ∀ f ∈ (s.readers k).holds, f.own = true

/-- A task duplicates a number that other code has not taken; and a signal that `_run`
gets from the channel is one of the run itself, or the run was asked to end already, or the
signal does not stop it. -/
def Fits (s : State) : Action → Prop
  | .dupR k => ∀ f ∈ s.fds (s.numbers k).1, f.own = true
  | .dupW k => ∀ f ∈ s.fds (s.numbers k).2, f.own = true
  | .receive => ∀ b ∈ s.channel.head?,
      b.run = some s.run ∨ s.asked = true ∨ b.terminates = false ∧ s.listening = true
  | _ => True

instance (s : State) (a : Action) : Decidable (Fits s a) := by
  cases a <;> unfold Fits <;> infer_instance

/-- The number of self-sockets made so far. -/
def State.made (s : State) : Nat := if s.phase = .idle then s.run else s.run + 1

/-- From `_ssock_start` to `_ssock_del`. -/
def Phase.up : Phase → Bool
  | .opened | .running | .broken | .paused => true
  | .idle | .deleted | .halfClosed | .closed => false

/-- Before the end of the run. -/
def Phase.early : Phase → Bool
  | .idle | .opened | .running => true
  | .broken | .paused | .deleted | .halfClosed | .closed => false

/-- The byte is somewhere between its signal and `_run`. -/
def State.Has (s : State) (b : Byte) : Prop :=
  (∃ f, b ∈ s.unread f) ∨ (∃ k, b ∈ (s.readers k).bytes) ∨ b ∈ s.channel

/-- While a self-socket is up, what is read from it goes to a loop that listens. -/
structure State.Sound (s : State) : Prop where
  opened : ∀ n j, s.fds n = some (.reading j) → j < s.made
  held : ∀ k j, .reading j ∈ (s.readers k).holds → j < s.made
  up : s.phase.up = true → ∀ k, (s.readers k).source = some (.reading s.run) → s.listening = true
  unread : ∀ f b j, b ∈ s.unread f → b.run = some j → f = .reading j ∧ j < s.made
  sending : ∀ k b j, b ∈ (s.readers k).bytes → b.run = some j → (s.readers k).source = some
      (.reading j)
  channel : ∀ b j, b ∈ s.channel → b.run = some j →
    j < s.made ∧ (s.phase.up = true → j = s.run → s.listening = true)
  asked : ∀ b, s.Has b → b.run = some s.run → b.terminates = true → s.asked = true
  stopped : s.phase.early = true → s.stopping = true → s.asked = true

theorem source_held {r : Reader} {f : File} (h : r.source = some f) : f ∈ r.holds := by
  cases r with
  | spawned | half | leaked | duplicated | ended => cases h
  | waiting r w | admitted r w | sending r w bytes =>
      cases h
      exact List.mem_cons_self

theorem State.Sound.made (h : s.Sound) {b : Byte} {j : Nat} (there : s.Has b)
    (of : b.run = some j) : j < s.made := by
  rcases there with ⟨f, there⟩ | ⟨k, there⟩ | there
  · exact (h.unread f b j there of).2
  · exact h.held k j (source_held (h.sending k b j there of))
  · exact (h.channel b j there of).1

/-- The state of one task changes, and it may begin to listen. -/
theorem State.Sound.reader (h : s.Sound) (k : Nat) {r : Reader} {listening : Bool}
    (held : ∀ j, .reading j ∈ r.holds → j < s.made) (kept : s.listening = true → listening = true)
    (up : s.phase.up = true → r.source = some (.reading s.run) → listening = true)
    (bytes : ∀ b ∈ r.bytes, s.Has b ∧ ∀ j, b.run = some j → r.source = some (.reading j)) :
    State.Sound { s.setReader k r with listening := listening } := by
  have has : ∀ i b, b ∈ (Function.update s.readers k r i).bytes →
      s.Has b ∧ ∀ j, b.run = some j → (Function.update s.readers k r i).source = some
      (.reading j) := by
    intro i b there
    by_cases same : i = k
    · subst same
      rw [Function.update_self] at there ⊢
      exact bytes b there
    · rw [Function.update_of_ne same] at there ⊢
      exact ⟨.inr (.inl ⟨i, there⟩), fun j => h.sending i b j there⟩
  refine ⟨h.opened, fun i j there => ?_, fun phase i there => ?_, h.unread, fun i b j there =>
    (has i b there).2 j, fun b j there of => ?_, fun b there => h.asked b ?_, h.stopped⟩
  · change .reading j ∈ (Function.update s.readers k r i).holds at there
    rw [Function.update_apply] at there
    split at there
    · exact held j there
    · exact h.held i j there
  · change (Function.update s.readers k r i).source = some (.reading s.run) at there
    rw [Function.update_apply] at there
    split at there
    · exact up phase there
    · exact kept (h.up phase i there)
  · obtain ⟨old, up⟩ := h.channel b j there of
    exact ⟨old, fun phase same => kept (up phase same)⟩
  · rcases there with unread | ⟨i, there⟩ | channel
    · exact .inl unread
    · exact (has i b there).1
    · exact .inr (.inr channel)

/-- A task that holds no other files than before, with no bytes to send. -/
theorem State.Sound.moves (h : s.Sound) (k : Nat) {r : Reader}
    (held : r.holds ⊆ (s.readers k).holds)
    (source : r.source ≠ none → r.source = (s.readers k).source) (bytes : r.bytes = []) :
    (s.setReader k r).Sound := by
  refine h.reader k (fun j there => h.held k j (held there)) id
    (fun phase there => ?_) fun b there => ?_
  · exact h.up phase k ((source (by simp [there])).symm.trans there)
  · rw [bytes] at there
    cases there

theorem State.Sound.setFd (h : s.Sound) (n : Nat) (f : Option File)
    (made : ∀ j, f = some (.reading j) → j < s.made) : (s.setFd n f).Sound := by
  refine ⟨fun i j there => ?_, h.held, h.up, h.unread, h.sending, h.channel, h.asked, h.stopped⟩
  change Function.update s.fds n f i = some (.reading j) at there
  rw [Function.update_apply] at there
  split at there
  · exact made j there
  · exact h.opened i j there

/-- The bytes that wait for a file change. -/
theorem State.Sound.setUnread (h : s.Sound) (f : File) {bytes : List Byte} {asked : Bool}
    (kept : s.asked = true → asked = true)
    (place : ∀ b ∈ bytes, ∀ j, b.run = some j → f = .reading j ∧ j < s.made)
    (reason : ∀ b ∈ bytes, b.run = some s.run → b.terminates = true → asked = true) :
    State.Sound { s.setUnread f bytes with asked := asked } := by
  have there : ∀ g b, b ∈ Function.update s.unread f bytes g → b ∈ bytes ∧ g = f ∨
      b ∈ s.unread g := by
    intro g b there
    rw [Function.update_apply] at there
    split at there
    · next same => exact .inl ⟨there, same⟩
    · exact .inr there
  refine ⟨h.opened, h.held, h.up, fun g b j waits of => ?_, h.sending, h.channel,
    fun b has of terminates => ?_, fun early stopping => kept (h.stopped early stopping)⟩
  · rcases there g b waits with ⟨new, rfl⟩ | old
    · exact place b new j of
    · exact h.unread g b j old of
  · have before : s.Has b → asked = true := fun has => kept (h.asked b has of terminates)
    rcases has with ⟨g, waits⟩ | elsewhere
    · rcases there g b waits with ⟨new, -⟩ | old
      · exact reason b new of terminates
      · exact before (.inl ⟨g, old⟩)
    · exact before (.inr elsewhere)

/-- The channel changes. -/
theorem State.Sound.setChannel (h : s.Sound) {channel : List Byte}
    (place : ∀ b ∈ channel, s.Has b ∧ (s.phase.up = true → b.run = some s.run →
      s.listening = true)) :
    State.Sound { s with channel := channel } := by
  refine ⟨h.opened, h.held, h.up, h.unread, h.sending, fun b j there of => ?_, fun b has =>
    h.asked b ?_, h.stopped⟩
  · obtain ⟨has, up⟩ := place b there
    exact ⟨h.made has of, fun phase same => up phase (same ▸ of)⟩
  · rcases has with unread | sending | there
    · exact .inl unread
    · exact .inr (.inl sending)
    · exact (place b there).1

/-- The thread of the loop goes on within its run. -/
theorem State.Sound.goes (h : s.Sound) (phase : Phase) {listening stopping : Bool}
    (busy : s.phase ≠ .idle) (going : phase ≠ .idle)
    (up : phase.up = true → s.phase.up = true ∧ listening = s.listening)
    (early : phase.early = true → stopping = true → s.asked = true) (ends : List Bool) :
    State.Sound { s with phase := phase, listening := listening, stopping := stopping, ends :=
      ends } := by
  have made : State.made { s with phase := phase, listening := listening, stopping := stopping, ends
    := ends } =
      s.made := by
    unfold State.made
    rw [if_neg busy, if_neg going]
  refine ⟨fun n j there => made ▸ h.opened n j there, fun k j there => made ▸ h.held k j there,
    fun there k source => ?_, fun f b j there of => made ▸ h.unread f b j there of, h.sending,
    fun b j there of => ?_, h.asked, early⟩
  · obtain ⟨before, same⟩ := up there
    exact same ▸ h.up before k source
  · obtain ⟨old, listens⟩ := h.channel b j there of
    refine ⟨made ▸ old, fun there same => ?_⟩
    obtain ⟨before, same'⟩ := up there
    exact same' ▸ listens before same

theorem State.Sound.sockets (h : s.Sound) (idle : s.phase = .idle) (r w : Nat) (main : Bool) :
    (s.sockets r w main).Sound := by
  have before : s.made = s.run := by
    unfold State.made
    rw [if_pos idle]
  have made : (s.sockets r w main).made = s.made + 1 := by
    rw [before]
    rfl
  have fresh : ∀ {j}, j < s.made → j ≠ s.run := fun inside => Nat.ne_of_lt (before ▸ inside)
  have later : ∀ {j}, j < s.made → j < (s.sockets r w main).made :=
    fun inside => made ▸ Nat.lt_succ_of_lt inside
  have readers : ∀ k, (s.sockets r w main).readers k = .spawned ∨
      (s.sockets r w main).readers k = s.readers k := by
    intro k
    change Function.update s.readers s.run .spawned k = _ ∨
      Function.update s.readers s.run .spawned k = _
    rw [Function.update_apply]
    split
    · exact .inl rfl
    · exact .inr rfl
  have held : ∀ k f, f ∈ ((s.sockets r w main).readers k).holds → f ∈ (s.readers k).holds := by
    intro k f there
    rcases readers k with new | old
    · rw [new] at there
      cases there
    · rwa [old] at there
  have bytes : ∀ k b, b ∈ ((s.sockets r w main).readers k).bytes →
      b ∈ (s.readers k).bytes ∧ (s.sockets r w main).readers k = s.readers k := by
    intro k b there
    rcases readers k with new | old
    · rw [new] at there
      cases there
    · rw [old] at there
      exact ⟨there, old⟩
  have has : ∀ b, (s.sockets r w main).Has b → s.Has b := by
    rintro b (unread | ⟨k, there⟩ | channel)
    · exact .inl unread
    · exact .inr (.inl ⟨k, (bytes k b there).1⟩)
    · exact .inr (.inr channel)
  refine ⟨fun n j there => ?_, fun k j there => later (h.held k j (held k _ there)),
    fun _ k there => ?_, fun f b j there of => ?_, fun k b j there of => ?_, fun b j there of => ?_,
    fun b there of => ?_, fun _ => ?_⟩
  · change Function.update (Function.update s.fds r (some (.reading s.run))) w
      (some (.writing s.run)) n = some (.reading j) at there
    rw [Function.update_apply, Function.update_apply] at there
    split at there
    · cases there
    · split at there
      · cases there
        rw [made, before]
        exact Nat.lt_succ_self _
      · exact later (h.opened n j there)
  · exact absurd rfl (fresh (h.held k s.run (held k _ (source_held there))))
  · obtain ⟨place, inside⟩ := h.unread f b j there of
    exact ⟨place, later inside⟩
  · obtain ⟨there, same⟩ := bytes k b there
    rw [same]
    exact h.sending k b j there of
  · have inside := (h.channel b j there of).1
    exact ⟨later inside, fun _ same => absurd same (fresh inside)⟩
  · exact absurd rfl (fresh (h.made (has b there) of))
  · exact h.stopped (by rw [idle]; rfl)

theorem State.Sound.finish (h : s.Sound) (closed : s.phase = .closed) :
    State.Sound { s with phase := .idle, run := s.run + 1, stopping := false, asked := false } := by
  have before : s.made = s.run + 1 := by
    unfold State.made
    rw [if_neg (by rw [closed]; decide)]
  have made : State.made { s with phase := .idle, run := s.run + 1, stopping := false, asked :=
      false } = s.made := by
    rw [before]
    rfl
  refine ⟨fun n j there => made ▸ h.opened n j there, fun k j there => made ▸ h.held k j there,
    fun up => (by cases up), fun f b j there of => made ▸ h.unread f b j there of, h.sending,
    fun b j there of => ?_, fun b there of => ?_, fun _ stopping => (by cases stopping)⟩
  · exact ⟨made ▸ (h.channel b j there of).1, fun up => (by cases up)⟩
  · exact absurd (before ▸ h.made there of) (Nat.lt_irrefl _)

theorem State.Sound.received (h : s.Sound) (running : s.phase = .running) {b : Byte}
    {rest : List Byte} (there : s.channel = b :: rest) : (s.received b rest).Sound := by
  have shorter : State.Sound { s with channel := rest } := h.setChannel fun c member =>
    have old : c ∈ s.channel := there ▸ List.mem_cons_of_mem b member
    ⟨.inr (.inr old), fun phase of => (h.channel c s.run old of).2 phase rfl⟩
  have busy : s.phase ≠ .idle := by
    rw [running]
    decide
  unfold State.received
  dsimp only
  split
  · next goes =>
      refine shorter.goes s.phase busy busy (fun up => ⟨up, rfl⟩) (fun _ stopping => ?_) s.ends
      simp [stopping] at goes
  · exact shorter.goes .broken busy (by decide) (fun _ => ⟨by rw [running]; rfl, rfl⟩) nofun _

theorem paired_spec (r w : Option File) :
    (∀ f ∈ (Reader.paired r w).holds, r = some f ∨ w = some f) ∧
    (Reader.paired r w).source = none ∧ (Reader.paired r w).bytes = [] := by
  cases w with
  | none => cases r <;> exact ⟨fun f there => (by cases there), rfl, rfl⟩
  | some w =>
      cases r with
      | none =>
          exact ⟨fun f there => .inr (congrArg some (List.mem_singleton.mp there).symm), rfl, rfl⟩
      | some r =>
          refine ⟨fun f there => ?_, rfl, rfl⟩
          exact (List.mem_pair.mp there).imp (fun same => congrArg some same.symm) fun same =>
            congrArg some same.symm

theorem paired_own {r w : Option File} (first : ∀ f, r = some f → f.own = true) :
    (∀ f ∈ (Reader.paired r w).holds, f.own = true) ↔ ∀ f ∈ w, f.own = true := by
  constructor
  · rintro own f there
    cases there
    refine own f ?_
    cases r with
    | none => exact List.mem_cons_self
    | some r => exact List.mem_cons_of_mem r List.mem_cons_self
  · intro second f there
    rcases (paired_spec r w).1 f there with same | same
    · exact first f same
    · exact second f same

theorem State.Sound.tryRead (h : s.Sound) {k : Nat} {r w : File}
    (admitted : s.readers k = .admitted r w) (n : Nat) : (s.tryRead k r w n).Sound := by
  have held : ∀ j, .reading j ∈ [r, w] → j < s.made :=
    fun j there => h.held k j (by rw [admitted]; exact there)
  have up : s.phase.up = true → some r = some (.reading s.run) → s.listening = true :=
    fun phase there => h.up phase k (by rw [admitted]; exact there)
  have first : (s.setReader k (if (s.unread r).take (min n 1024) = [] then .waiting r w
      else .sending r w ((s.unread r).take (min n 1024)))).Sound := by
    split
    · exact h.reader k held id up nofun
    · refine h.reader k held id up fun b there => ?_
      have waits : b ∈ s.unread r := List.mem_of_mem_take there
      exact ⟨.inl ⟨r, waits⟩, fun j of => congrArg some (h.unread r b j waits of).1⟩
  refine first.setUnread r id (fun b member j of => ?_) fun b member => ?_
  · exact h.unread r b j (List.mem_of_mem_drop member) of
  · exact h.asked b (.inl ⟨r, List.mem_of_mem_drop member⟩)

theorem State.Sound.send (h : s.Sound) {k : Nat} {r w : File} {b : Byte} {rest : List Byte}
    (sending : s.readers k = .sending r w (b :: rest)) :
    State.Sound { s.setReader k (if rest = [] then .waiting r w else .sending r w rest) with
      channel := s.channel ++ [b] } := by
  have here : ∀ c ∈ b :: rest, c ∈ (s.readers k).bytes :=
    fun c member => by rw [sending]; exact member
  have source : ∀ c ∈ b :: rest, ∀ j, c.run = some j → some r = some (.reading j) := by
    intro c member j of
    have origin := h.sending k c j (here c member) of
    rwa [sending] at origin
  have up : s.phase.up = true → some r = some (.reading s.run) → s.listening = true :=
    fun phase there => h.up phase k (by rw [sending]; exact there)
  have held : ∀ j, .reading j ∈ [r, w] → j < s.made :=
    fun j there => h.held k j (by rw [sending]; exact there)
  have sent : State.Sound { s with channel := s.channel ++ [b] } := h.setChannel fun c member => by
    rcases List.mem_append.mp member with old | new
    · exact ⟨.inr (.inr old), fun phase of => (h.channel c s.run old of).2 phase rfl⟩
    · cases List.mem_singleton.mp new
      exact ⟨.inr (.inl ⟨k, here b List.mem_cons_self⟩), fun phase of =>
        up phase (source b List.mem_cons_self _ of)⟩
  split
  · exact sent.reader (s := { s with channel := s.channel ++ [b] }) k held id up nofun
  · refine sent.reader (s := { s with channel := s.channel ++ [b] }) k held id up fun c there => ?_
    have member : c ∈ b :: rest := List.mem_cons_of_mem b there
    exact ⟨.inr (.inl ⟨k, here c member⟩), source c member⟩

theorem step_sound {a : Action} (h : s.Sound) (one : step s a = some t) : t.Sound := by
  cases step_stepped one with
  | sockets r w main idle => exact h.sockets idle r w main
  | resume opened =>
      refine h.goes .running (by rw [opened]; decide) (by decide)
        (fun _ => ⟨by rw [opened]; rfl, rfl⟩) ?_ _
      exact fun _ => h.stopped (by rw [opened]; rfl)
  | receive b rest there running => exact h.received running there
  | turn running =>
      split
      · exact h.goes .broken (by rw [running]; decide) (by decide)
          (fun _ => ⟨by rw [running]; rfl, rfl⟩) nofun _
      · exact h
  | pause broken =>
      exact h.goes .paused (by rw [broken]; decide) (by decide)
        (fun _ => ⟨by rw [broken]; rfl, rfl⟩) nofun _
  | delete paused => exact h.goes .deleted (by rw [paused]; decide) (by decide) nofun nofun _
  | closeW deleted =>
      have shut := h.setFd (s.numbers s.run).2 none nofun
      exact shut.goes (s := s.setFd (s.numbers s.run).2 none) .halfClosed
        (by change s.phase ≠ _; rw [deleted]; decide) (by decide) nofun nofun _
  | closeR half =>
      have shut := h.setFd (s.numbers s.run).1 none nofun
      exact shut.goes (s := s.setFd (s.numbers s.run).1 none) .closed
        (by change s.phase ≠ _; rw [half]; decide) (by decide) nofun nofun _
  | finish closed => exact h.finish closed
  | stop =>
      exact ⟨h.opened, h.held, h.up, h.unread, h.sending, h.channel, fun _ _ _ _ => rfl,
        fun _ _ => rfl⟩
  | signal sig active =>
      have made : s.run < s.made := by
        unfold State.made
        rw [if_neg (by rcases active with phase | phase <;> rw [phase] <;> decide)]
        exact Nat.lt_succ_self _
      refine h.setUnread (.reading s.run) (fun asked => by simp [asked]) (fun b member j of => ?_)
        fun b member of ends => ?_
      · rcases List.mem_append.mp member with old | new
        · exact ⟨(h.unread _ b j old of).1, (h.unread _ b j old of).2⟩
        · cases List.mem_singleton.mp new
          cases of
          exact ⟨rfl, made⟩
      · rcases List.mem_append.mp member with old | new
        · rw [h.asked b (.inl ⟨_, old⟩) of ends, Bool.true_or]
        · cases List.mem_singleton.mp new
          rw [ends, Bool.or_true]
  | dupR k spawned =>
      refine h.reader k (fun j there => ?_) id nofun nofun
      exact h.opened _ j (Option.mem_toList.mp there)
  | dupW k r half =>
      obtain ⟨holds, source, bytes⟩ := paired_spec r (s.fds (s.numbers k).2)
      refine h.reader k (fun j there => ?_) id (fun _ there => ?_) fun b there => ?_
      · rcases holds _ there with first | second
        · exact h.held k j (by rw [half]; exact Option.mem_toList.mpr first)
        · exact h.opened _ j second
      · rw [source] at there
        cases there
      · rw [bytes] at there
        cases there
  | convert k r w duplicated =>
      refine h.reader k (fun j there => h.held k j ?_) (fun _ => rfl) (fun _ _ => rfl) nofun
      rw [duplicated]
      exact there
  | refuse k => exact h.moves k (List.nil_subset _) (fun gone => absurd rfl gone) rfl
  | check k r w waiting =>
      split
      · exact h.moves k (by rw [waiting]; exact List.Subset.refl _)
          (fun _ => by rw [waiting]; rfl) rfl
      · exact h.moves k (List.nil_subset _) (fun gone => absurd rfl gone) rfl
  | read k n r w admitted => exact h.tryRead admitted n
  | hangup k => exact h.moves k (List.nil_subset _) (fun gone => absurd rfl gone) rfl
  | send k r w b rest sending => exact h.send sending
  | take n id => exact h.setFd n _ nofun
  | release n => exact h.setFd n _ nofun
  | data id sig =>
      refine h.setUnread (.other id) (fun asked => asked) (fun b member j of => ?_) fun b member of
        ends => ?_
      · rcases List.mem_append.mp member with old | new
        · exact h.unread _ b j old of
        · cases List.mem_singleton.mp new
          cases of
      · rcases List.mem_append.mp member with old | new
        · exact h.asked b (.inl ⟨_, old⟩) of ends
        · cases List.mem_singleton.mp new
          cases of

theorem initial_sound : initial.Sound where
  opened := fun n j there => by cases there
  held := fun k j there => by cases there
  up := fun phase => by cases phase
  unread := fun f b j there => by cases there
  sending := fun k b j there => by cases there
  channel := fun b j there => by cases there
  asked := by
    rintro b (⟨f, there⟩ | ⟨k, there⟩ | there) <;> cases there
  stopped := fun _ stopping => by cases stopping

theorem initial_orderly : initial.Orderly where
  asked := fun asked there => by cases there
  apart := fun k f there => by cases there

/-- Nothing ends, and a task holds what it held before or a file of the loop's own. -/
theorem State.Orderly.kept (h : s.Orderly) (ends : t.ends = s.ends)
    (held : ∀ k, ∀ f ∈ (t.readers k).holds, f ∈ (s.readers k).holds ∨ f.own = true) :
    t.Orderly := by
  refine ⟨fun asked there => h.asked asked (ends ▸ there), fun k f there => ?_⟩
  rcases held k f there with before | own
  · exact h.apart k f before
  · exact own

/-- One task changes. -/
theorem State.Orderly.setReader_iff (h : s.Orderly) (k : Nat) (r : Reader) :
    (s.setReader k r).Orderly ↔ ∀ f ∈ r.holds, f.own = true := by
  constructor
  · intro orderly f there
    refine orderly.apart k f ?_
    change f ∈ (Function.update s.readers k r k).holds
    rwa [Function.update_self]
  · intro own
    refine h.kept rfl fun i f there => ?_
    change f ∈ (Function.update s.readers k r i).holds at there
    rw [Function.update_apply] at there
    split at there
    · exact .inr (own f there)
    · exact .inl there

/-- One task goes on with what it held. -/
theorem State.Orderly.setReader (h : s.Orderly) (k : Nat) {r : Reader}
    (held : r.holds ⊆ (s.readers k).holds) : (s.setReader k r).Orderly :=
  (h.setReader_iff k r).mpr fun f there => h.apart k f (held there)

theorem State.Orderly.break_iff (h : s.Orderly) : s.break.Orderly ↔ s.asked = true := by
  constructor
  · intro orderly
    exact orderly.asked s.asked (List.mem_append_right s.ends List.mem_cons_self)
  · intro asked
    refine ⟨fun reason there => ?_, h.apart⟩
    rcases List.mem_append.mp there with before | last
    · exact h.asked reason before
    · exact (List.mem_singleton.mp last).trans asked

/-- A signal from the channel ends the run or not, and ends it with a reason exactly if it
is of the run, or there is one already. -/
theorem State.Orderly.received_iff (h : s.Orderly) (sound : s.Sound) (running : s.phase = .running)
    {b : Byte} {rest : List Byte} (there : s.channel = b :: rest) :
    (s.received b rest).Orderly ↔
      b.run = some s.run ∨ s.asked = true ∨ b.terminates = false ∧ s.listening = true := by
  have member : b ∈ s.channel := there ▸ List.mem_cons_self
  have stopped : s.stopping = true → s.asked = true := sound.stopped (by rw [running]; rfl)
  have orderly : State.Orderly { s with channel := rest, stopping := s.stopping || b.terminates } :=
    h.kept rfl fun k f held => .inl held
  unfold State.received
  dsimp only
  split
  · next goes =>
      obtain ⟨listening, stopping⟩ := Bool.and_eq_true_iff.mp goes
      rw [Bool.not_eq_true', Bool.or_eq_false_iff] at stopping
      exact iff_of_true orderly (.inr (.inr ⟨stopping.2, listening⟩))
  · next ends =>
      refine orderly.break_iff.trans ⟨fun asked => .inr (.inl asked), ?_⟩
      rintro (own | asked | ⟨mild, listening⟩)
      · have listening := (sound.channel b s.run member own).2 (by rw [running]; rfl) rfl
        have stopping : (s.stopping || b.terminates) = true := by
          cases stopping : s.stopping || b.terminates with
          | true => rfl
          | false => exact absurd (by rw [listening, stopping]; rfl) ends
        rcases (Bool.or_eq_true _ _).mp stopping with stopping | terminates
        · exact stopped stopping
        · exact sound.asked b (.inr (.inr member)) own terminates
      · exact asked
      · refine stopped ?_
        cases stopping : s.stopping with
        | true => rfl
        | false => exact absurd (by rw [listening, stopping, mild]; rfl) ends

/-- A step keeps the runs orderly exactly if it fits. -/
theorem step_orderly (s : State) (a : Action) (t : State) (sound : s.Sound) (h : s.Orderly)
    (one : step s a = some t) : t.Orderly ↔ Fits s a := by
  cases step_stepped one with
  | sockets r w main =>
      refine iff_of_true ?_ trivial
      exact (h.setReader s.run (List.nil_subset _)).kept rfl fun k f there => .inl there
  | resume | pause | delete | closeW | closeR | finish | stop | signal | data =>
      exact iff_of_true (h.kept rfl fun k f there => .inl there) trivial
  | take | release => exact iff_of_true (h.kept rfl fun k f there => .inl there) trivial
  | receive b rest there running =>
      rw [h.received_iff sound running there]
      unfold Fits
      rw [there]
      simp
  | turn running =>
      refine iff_of_true ?_ trivial
      split
      · next stopping => exact h.break_iff.mpr (sound.stopped (by rw [running]; rfl) stopping)
      · exact h
  | dupR k spawned =>
      rw [h.setReader_iff]
      exact forall_congr' fun f => imp_congr_left Option.mem_toList
  | dupW k r half =>
      rw [h.setReader_iff]
      exact paired_own fun f there => h.apart k f (by rw [half]; exact Option.mem_toList.mpr there)
  | convert k r w duplicated =>
      refine iff_of_true ?_ trivial
      refine (h.setReader k (r := .waiting r w) ?_).kept rfl fun i f there => .inl there
      rw [duplicated]
      exact List.Subset.refl _
  | refuse k => exact iff_of_true (h.setReader k (List.nil_subset _)) trivial
  | hangup k => exact iff_of_true (h.setReader k (List.nil_subset _)) trivial
  | check k r w waiting =>
      refine iff_of_true (h.setReader k ?_) trivial
      rw [waiting]
      split
      · exact List.Subset.refl _
      · exact List.nil_subset _
  | read k n r w admitted =>
      refine iff_of_true ((h.setReader k ?_).kept rfl fun i f there => .inl there) trivial
      rw [admitted]
      split <;> exact List.Subset.refl _
  | send k r w b rest sending =>
      refine iff_of_true ((h.setReader k ?_).kept rfl fun i f there => .inl there) trivial
      rw [sending]
      split <;> exact List.Subset.refl _

variable {actions : List Action}

/-- While a self-socket of the loop is up, what its task reads goes on to a loop that
listens, and a signal of the run stops it only with a reason. Every run has ended because
it was asked to and no task holds a descriptor of other code, in every state exactly if
each task duplicates the numbers of its self-socket before other code takes them, and
every signal that a run gets is its own, or the run is asked to end already, or the signal
leaves it running. -/
theorem signals_orderly_iff (h : run step initial actions = some t) :
    t.Sound ∧ (Always step State.Orderly initial actions ↔ Guarded step Fits initial actions) :=
  ⟨run_invariant (fun _ _ _ sound one => step_sound sound one) h initial_sound,
    always_iff_guarded (fun _ _ _ sound one => step_sound sound one) step_orderly h initial_sound
    initial_orderly⟩

/-- `SIGUSR1` in a run that ends before it gets the signal, and the next run. -/
def leftOver : List Action :=
  [.sockets 5 6 true, .resume, .dupR 0, .dupW 0, .convert 0 true, .signal 10, .check 0, .read 0 8,
      .send 0, .stop,
    .turn, .post, .post, .post, .post, .post, .sockets 5 6 true, .resume, .receive]

theorem leftOver_unasked : ¬ Always step State.Orderly initial leftOver := by
  intro always
  obtain ⟨t, ends⟩ : ∃ t, run step initial leftOver = some t :=
    Option.isSome_iff_exists.mp (by decide)
  have fits := (signals_orderly_iff ends).2.mp always
  revert fits
  decide

end TokioLoop.TokioSignals
