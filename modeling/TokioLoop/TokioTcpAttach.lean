import TokioLoop.TokioTcpClose

/-!
How a TCP connection of `TEventLoop` gets its protocol: `_tcp_conn` and the accept loop
of `TokioTCPServer`, up to and through `TokioTCPTransport::attach`, beside the I/O task
that `attach` spawns before it calls `connection_made`. `P` is the type of protocol
objects; a factory is what its calls, by number, return, or that they raise.
-/
namespace TokioLoop.TokioTcp

variable {P : Type}

/-- Points of the thread that makes the connection. `failed` is an error before the task
is spawned, `raised` an exception of `connection_made`. -/
inductive Phase where
  | creating
  | building
  | spawning
  | calling
  | making
  | returning
  | failed
  | raised
  | done
  deriving DecidableEq, Repr

/-- The task has been spawned. -/
def Phase.spawned : Phase → Bool
  | .calling | .making | .returning | .raised | .done => true
  | .creating | .building | .spawning | .failed => false

/-- `connection_made` has returned or raised. -/
def Phase.made : Phase → Bool
  | .returning | .raised | .done => true
  | .creating | .building | .spawning | .calling | .making | .failed => false

/-- A callback started or `connection_made` ended, with the object it was called on; or
`_tcp_conn` returned with that object. -/
inductive Event (P : Type) where
  | madeStarts (protocol : P)
  | madeEnds (protocol : P)
  | notice (protocol : P) (n : Notice)
  | returned (protocol : P)
  deriving DecidableEq, Repr

/-- `calls` counts the calls of the factory. `own` is the protocol `_tcp_conn` creates
for its caller, `protocol` the one the transport is built with. -/
structure Conn (P : Type) where
  calls : Nat
  own : Option P
  protocol : Option P
  phase : Phase
  world : World
  events : List (Event P)

/-- `_tcp_conn`, with a factory called `calls` times before. -/
def tcpConn (calls : Nat) : Conn P := ⟨calls, none, none, .creating, start, []⟩

/-- A connection accepted by a `TokioTCPServer`. -/
def accepted (calls : Nat) : Conn P := ⟨calls, none, none, .building, start, []⟩

inductive ConnAction where
  | create
  | build (ok : Bool)
  | spawn
  | made
  | madeEnds (raises : Bool)
  | returns
  | io (a : Action)
  deriving DecidableEq, Repr

/-- The steps of `io_processing_loop`; the others are calls of the transport's methods. -/
def Action.inTask : Action → Bool
  | .enter _ _ | .commit _ => false
  | _ => true

/-- `from_py` and `create_transport_from_stream` call the factory; `build false` is a
failure of one of their other calls. -/
def Conn.step (factory : Nat → Option P) (c : Conn P) : ConnAction → Option (Conn P)
  | .create =>
      match c.phase with
      | .creating => some { c with
          calls := c.calls + 1
          own := factory c.calls
          phase := if (factory c.calls).isSome then .building else .failed }
      | _ => none
  | .build ok =>
      match c.phase with
      | .building =>
          if ok then some { c with
            calls := c.calls + 1
            protocol := factory c.calls
            phase := if (factory c.calls).isSome then .spawning else .failed }
          else some { c with phase := .failed }
      | _ => none
  | .spawn =>
      match c.phase with
      | .spawning => some { c with phase := .calling }
      | _ => none
  | .made =>
      match c.phase, c.protocol with
      | .calling, some p => some { c with phase := .making, events := c.events ++ [.madeStarts p] }
      | _, _ => none
  | .madeEnds raises =>
      match c.phase, c.protocol with
      | .making, some p => some { c with
          phase := if raises then .raised else .returning
          events := c.events ++ [.madeEnds p] }
      | _, _ => none
  | .returns =>
      match c.phase with
      | .returning =>
          some { c with phase := .done, events := c.events ++ c.own.toList.map .returned }
      | _ => none
  | .io a =>
      match c.protocol with
      | some p =>
          if a.inTask && !c.phase.spawned then none
          else (TokioTcp.step c.world a).map fun t => { c with
            world := t
            events := c.events ++ (t.notices.drop c.world.notices.length).map (.notice p) }
      | none => none

/-- The object a callback is called on. -/
def Event.receiver : Event P → Option P
  | .madeStarts p | .madeEnds p | .notice p _ => some p
  | .returned _ => none

/-- A callback starts. -/
def Event.delivers : Event P → Bool
  | .madeStarts _ | .notice _ _ => true
  | .madeEnds _ | .returned _ => false

def Event.isNotice : Event P → Bool
  | .notice _ _ => true
  | _ => false

def Event.isEnd : Event P → Bool
  | .madeEnds _ => true
  | _ => false

def Event.isLost : Event P → Bool
  | .notice _ .connectionLost => true
  | _ => false

/-- The contract of the callbacks: `receiver` and `returned` are about who is called,
`madeFirst` and `silent` about the order, `lost` about how often. -/
structure Automaton (c : Conn P) : Prop where
  receiver : ∀ e ∈ c.events, ∀ p, e.receiver = some p → c.protocol = some p
  returned : ∀ p, .returned p ∈ c.events → c.protocol = some p
  madeFirst : Runs.EachAfter (fun before e => e.isNotice = true → before.any Event.isEnd = true)
      c.events
  silent : Runs.EachAfter (fun before e => e.delivers = true → before.any Event.isLost = false)
      c.events
  lost : c.events.countP Event.isLost = if c.world.pc = .ended then 1 else 0

/-- The factory returns the same object to `_tcp_conn` and to `from_py`, and until
`connection_made` is over no read of the task has an outcome and the loop does not find
the transport closed. -/
def InTurn (factory : Nat → Option P) (c : Conn P) : ConnAction → Prop
  | .build _ => ∀ own ∈ c.own, ∀ p ∈ factory c.calls, p = own
  | .io (.readDone result) => result ≠ .wouldBlock → c.phase.made = true
  | .io .top => c.world.state.closing = true → c.phase.made = true
  | _ => True

instance [DecidableEq P] (factory : Nat → Option P) (c : Conn P) (a : ConnAction) :
    Decidable (InTurn factory c a) := by
  unfold InTurn
  split <;> infer_instance

/-- `unbuilt` and `built` say when the transport exists, `same` is the first half of the
condition; `ended`, `eof` and `afterwards` tie the phase to the events and the task. -/
structure ConnInv (c : Conn P) : Prop where
  automaton : Automaton c
  unbuilt : c.phase = .creating ∨ c.phase = .building → c.protocol = none ∧ c.events = []
  built : c.phase = .returning → c.protocol ≠ none
  same : ∀ own ∈ c.own, ∀ p ∈ c.protocol, p = own
  ended : c.phase.made = true → c.events.any Event.isEnd = true
  eof : c.world.state.readEof = true → c.phase.made = true
  afterwards : c.world.pc = .ended → c.phase.made = true

/-- A connection about which nothing has been delivered. -/
theorem connInv_blank {c : Conn P} (events : c.events = []) (early : c.phase.made = false)
    (unbuilt : c.phase = .creating ∨ c.phase = .building → c.protocol = none)
    (same : ∀ own ∈ c.own, ∀ p ∈ c.protocol, p = own) (eof : c.world.state.readEof = false)
    (alive : c.world.pc ≠ .ended) : ConnInv c where
  automaton := by
    constructor
    · simp [events]
    · simp [events]
    · rw [events]
      exact Runs.eachAfter_nil
    · rw [events]
      exact Runs.eachAfter_nil
    · rw [events, if_neg alive]
      rfl
  unbuilt h := ⟨unbuilt h, events⟩
  built h := by
    rw [h] at early
    cases early
  same := same
  ended h := by
    rw [h] at early
    cases early
  eof h := by
    rw [eof] at h
    cases h
  afterwards h := absurd h alive

/-- No callback of the task has started while `connection_made` is not over. -/
theorem ConnInv.early {c : Conn P} (inv : ConnInv c) (early : c.phase.made = false) :
    c.world.state.readEof = false ∧ c.world.pc ≠ .ended := by
  refine ⟨Bool.eq_false_iff.mpr fun eof => ?_, fun afterwards => ?_⟩
  · rw [inv.eof eof] at early
    cases early
  · rw [inv.afterwards afterwards] at early
    cases early

theorem Automaton.unlost {c : Conn P} (auto : Automaton c) (alive : c.world.pc ≠ .ended) :
    c.events.any Event.isLost = false := by
  have none := auto.lost
  rw [if_neg alive, List.countP_eq_zero] at none
  simpa using none

section Steps

variable {c d : Conn P}

theorem Automaton.of_eq (auto : Automaton c) (protocol : d.protocol = c.protocol)
    (events : d.events = c.events) (pc : d.world.pc = c.world.pc) : Automaton d := by
  constructor
  · simpa only [events, protocol] using auto.receiver
  · simpa only [events, protocol] using auto.returned
  · simpa only [events] using auto.madeFirst
  · simpa only [events] using auto.silent
  · simpa only [events, pc] using auto.lost

/-- A step that records no event and leaves the world and the protocols alone. -/
theorem ConnInv.goto {phase : Phase} (inv : ConnInv c)
    (unbuilt : phase = .creating ∨ phase = .building → c.protocol = none ∧ c.events = [])
    (built : phase = .returning → c.protocol ≠ none) (made : phase.made = c.phase.made) :
    ConnInv { c with phase := phase } where
  automaton := inv.automaton.of_eq rfl rfl rfl
  unbuilt := unbuilt
  built := built
  same := inv.same
  ended h := inv.ended (made ▸ h)
  eof h := made ▸ inv.eof h
  afterwards h := made ▸ inv.afterwards h

theorem Automaton.record {e : Event P} (auto : Automaton c) (phase : Phase)
    (receiver : ∀ p, e.receiver = some p → c.protocol = some p)
    (returned : ∀ p, e = .returned p → c.protocol = some p)
    (madeFirst : e.isNotice = true → c.events.any Event.isEnd = true)
    (silent : e.delivers = true → c.events.any Event.isLost = false) (plain : e.isLost = false) :
    Automaton { c with phase := phase, events := c.events ++ [e] } where
  receiver f hf p hp := by
    rcases List.mem_append.mp hf with old | fresh
    · exact auto.receiver f old p hp
    · exact receiver p (List.mem_singleton.mp fresh ▸ hp)
  returned p hp := by
    rcases List.mem_append.mp hp with old | fresh
    · exact auto.returned p old
    · exact returned p (List.mem_singleton.mp fresh).symm
  madeFirst := auto.madeFirst.concat madeFirst
  silent := auto.silent.concat silent
  lost := by
    simp only [List.countP_append, List.countP_singleton, plain]
    exact auto.lost

theorem ConnInv.made {p : P} (inv : ConnInv c) (hphase : c.phase = .calling)
    (hp : c.protocol = some p) : ConnInv
    { c with phase := .making, events := c.events ++ [.madeStarts p] } where
  automaton := by
    refine inv.automaton.record .making ?_ nofun nofun ?_ rfl
    · intro q hq
      cases hq
      exact hp
    · intro _
      exact inv.automaton.unlost (inv.early (by rw [hphase]; rfl)).2
  unbuilt := nofun
  built := nofun
  same := inv.same
  ended := nofun
  eof h := by
    have early := inv.eof h
    rw [hphase] at early
    cases early
  afterwards h := by
    have early := inv.afterwards h
    rw [hphase] at early
    cases early

theorem ConnInv.madeEnds {p : P} {phase : Phase} (inv : ConnInv c) (hp : c.protocol = some p)
    (hphase : phase = .raised ∨ phase = .returning) :
    ConnInv { c with phase := phase, events := c.events ++ [.madeEnds p] } where
  automaton := by
    refine inv.automaton.record phase ?_ nofun nofun nofun rfl
    intro q hq
    cases hq
    exact hp
  unbuilt h := by rcases hphase with rfl | rfl <;> rcases h with h | h <;> cases h
  built _ := by
    rw [hp]
    exact nofun
  same := inv.same
  ended _ := by simp [Event.isEnd]
  eof _ := by rcases hphase with rfl | rfl <;> rfl
  afterwards _ := by rcases hphase with rfl | rfl <;> rfl

theorem ConnInv.returns (inv : ConnInv c) (hphase : c.phase = .returning) :
    ConnInv { c with phase := .done, events := c.events ++ c.own.toList.map .returned } := by
  have ended : ∀ more : List (Event P), (c.events ++ more).any Event.isEnd = true := by
    intro more
    rw [List.any_append, inv.ended (by rw [hphase]; rfl), Bool.true_or]
  refine ⟨?_, nofun, nofun, inv.same, fun _ => ended _, fun _ => rfl, fun _ => rfl⟩
  cases hown : c.own with
  | none =>
      simp only [Option.toList_none, List.map_nil, List.append_nil]
      exact inv.automaton.of_eq rfl rfl rfl
  | some own =>
      refine (inv.automaton.record (e := .returned own) .done
        nofun ?_ nofun nofun rfl).of_eq rfl rfl rfl
      intro q hq
      cases hq
      obtain ⟨p, hp⟩ := Option.ne_none_iff_exists'.mp (inv.built hphase)
      rw [hp, inv.same own hown p hp]

/-- The task goes on, or a method is called, and nothing is delivered. -/
theorem ConnInv.quietly {w : World} (inv : ConnInv c) (pc : w.pc = .ended ↔ c.world.pc = .ended)
    (eof : w.state.readEof = c.world.state.readEof) : ConnInv { c with world := w } where
  automaton := by
    refine ⟨inv.automaton.receiver, inv.automaton.returned, inv.automaton.madeFirst,
      inv.automaton.silent, ?_⟩
    simpa only [pc] using inv.automaton.lost
  unbuilt := inv.unbuilt
  built := inv.built
  same := inv.same
  ended := inv.ended
  eof h := inv.eof (eof ▸ h)
  afterwards h := inv.afterwards (pc.mp h)

/-- The task delivers `n` after `connection_made`; it ends exactly with `connection_lost`. -/
theorem ConnInv.delivered {w : World} {p : P} {n : Notice} (inv : ConnInv c)
    (hp : c.protocol = some p) (made : c.phase.made = true) (alive : c.world.pc ≠ .ended)
    (last : n = .connectionLost ↔ w.pc = .ended) : ConnInv
    { c with world := w, events := c.events ++ [.notice p n] } := by
  refine ⟨⟨?_, ?_, ?_, ?_, ?_⟩, ?_, inv.built, inv.same, ?_, fun _ => made, fun _ => made⟩
  · intro e he q hq
    rcases List.mem_append.mp he with old | fresh
    · exact inv.automaton.receiver e old q hq
    · rw [List.mem_singleton.mp fresh] at hq
      cases hq
      exact hp
  · intro q hq
    rcases List.mem_append.mp hq with old | fresh
    · exact inv.automaton.returned q old
    · cases List.mem_singleton.mp fresh
  · exact inv.automaton.madeFirst.concat fun _ => inv.ended made
  · exact inv.automaton.silent.concat fun _ => inv.automaton.unlost alive
  · have before := inv.automaton.lost
    rw [if_neg alive] at before
    simp only [List.countP_append, before, List.countP_singleton, Nat.zero_add]
    have same : (Event.notice p n).isLost = true ↔
      n = .connectionLost := by cases n <;> simp [Event.isLost]
    simp only [same, last]
  · intro h
    rcases h with h | h <;> rw [h] at made <;> cases made
  · intro _
    rw [List.any_append, inv.ended made, Bool.true_or]

end Steps

theorem ConnInv.io {c : Conn P} {factory : Nat → Option P} {a : Action} {t : World} {p : P}
    (inv : ConnInv c) (turn : InTurn factory c (.io a)) (hp : c.protocol = some p)
    (h : TokioTcp.step c.world a = some t) : ConnInv { c with
      world := t
      events := c.events ++ (t.notices.drop c.world.notices.length).map (.notice p) } := by
  cases step_life h with
  | outside notices pc _ eof =>
      simp only [notices, List.drop_length, List.map_nil, List.append_nil]
      exact inv.quietly (by rw [pc]) eof
  | inside notices alive still eof =>
      simp only [notices, List.drop_length, List.map_nil, List.append_nil]
      exact inv.quietly (iff_of_false still alive) eof
  | notice result n ha outcome other notices alive still =>
      subst ha
      simp only [notices, List.drop_left, List.map_cons, List.map_nil]
      exact inv.delivered hp (turn outcome) alive (iff_of_false other still)
  | left left alive leaves =>
      subst left
      simp only [leave, List.drop_left, List.map_cons, List.map_nil]
      refine inv.delivered hp ?_ alive (iff_of_true rfl rfl)
      cases leaves with
      | closing closing => exact turn closing
      | exhausted eof => exact inv.eof eof
      | readError => exact turn ReadResult.noConfusion

theorem ConnInv.step {factory : Nat → Option P} {c d : Conn P} {a : ConnAction} (inv : ConnInv c)
    (turn : InTurn factory c a) (h : c.step factory a = some d) : ConnInv d := by
  cases a with
  | create =>
      simp only [Conn.step] at h
      split at h <;> cases h
      next hphase =>
        obtain ⟨unbuilt, silent⟩ := inv.unbuilt (.inl hphase)
        obtain ⟨eof, alive⟩ := inv.early (by rw [hphase]; rfl)
        refine connInv_blank silent ?_ (fun _ => unbuilt) ?_ eof alive
        · split_ifs <;> rfl
        · intro own _ p hp
          cases unbuilt.symm.trans hp
  | build ok =>
      simp only [Conn.step] at h
      split at h
      next hphase =>
        obtain ⟨unbuilt, silent⟩ := inv.unbuilt (.inr hphase)
        obtain ⟨eof, alive⟩ := inv.early (by rw [hphase]; rfl)
        split_ifs at h <;> cases h
        · exact connInv_blank silent rfl nofun turn eof alive
        · exact connInv_blank silent rfl nofun turn eof alive
        · exact connInv_blank silent rfl nofun inv.same eof alive
      · cases h
  | spawn =>
      simp only [Conn.step] at h
      split at h <;> cases h
      next hphase => exact inv.goto nofun nofun (by rw [hphase]; rfl)
  | made =>
      simp only [Conn.step] at h
      split at h <;> cases h
      next p hphase hp => exact inv.made hphase hp
  | madeEnds raises =>
      simp only [Conn.step] at h
      split at h <;> cases h
      next p hphase hp =>
        refine inv.madeEnds hp ?_
        cases raises <;> simp
  | returns =>
      simp only [Conn.step] at h
      split at h <;> cases h
      next hphase => exact inv.returns hphase
  | io a =>
      simp only [Conn.step] at h
      split at h
      next p hp =>
        split_ifs at h
        obtain ⟨t, ht, rfl⟩ := Option.map_eq_some_iff.mp h
        exact inv.io turn hp ht
      · cases h

theorem connInv_start (c : Conn P) (calls : Nat) (hc : c = tcpConn calls ∨ c = accepted calls) :
    ConnInv c := by
  rcases hc with rfl | rfl
  · exact connInv_blank rfl rfl (fun _ => rfl) nofun rfl nofun
  · exact connInv_blank rfl rfl (fun _ => rfl) nofun rfl nofun

/-- The callbacks of a connection keep their contract in every run in which the task
waits its turn and `_tcp_conn` gets one object from its two calls of the factory. -/
theorem callbacks_in_turn (factory : Nat → Option P) (calls : Nat) (c : Conn P)
    (kind : c = tcpConn calls ∨ c = accepted calls) (actions : List ConnAction) (d : Conn P)
    (h : Runs.run (Conn.step factory) c actions = some d)
    (turn : Runs.Guarded (Conn.step factory) (InTurn factory) c actions) : Automaton d := by
  have inv : ConnInv d :=
    Runs.run_preserves (fun _ _ _ inv good hstep => inv.step good hstep) h
      (connInv_start c calls kind) turn
  exact inv.automaton

/-- Data and EOF are read after `connection_made` and `_tcp_conn` have returned. -/
def readAfterwards : List ConnAction :=
  [.create, .build true, .spawn, .made, .madeEnds false, .returns, .io .top, .io .guards,
    .io (.readDone (.data 1 [])), .io .callbackReturned, .io .check, .io .top, .io .guards,
    .io (.readDone .eof), .io .callbackReturned, .io .check]

theorem callbacks_in_turn_shared :
    ∃ d : Conn Nat, Runs.run (Conn.step fun _ => some 7) (tcpConn 0) readAfterwards = some d ∧
      d.events = [.madeStarts 7, .madeEnds 7, .returned 7, .notice 7 (.dataReceived [1]),
        .notice 7 .eofReceived, .notice 7 .connectionLost] ∧ Automaton d := by
  refine ⟨_, rfl, rfl, ?_⟩
  exact callbacks_in_turn (fun _ => some 7) 0 _ (.inl rfl) readAfterwards _ rfl (by decide)

/-- A factory that makes a new object each time gives the caller of `_tcp_conn` another
one than the transport's; and with one object for all, data is delivered while
`connection_made` runs on the thread of `attach`. -/
theorem callbacks_out_of_turn :
    (∃ d : Conn Nat, Runs.run (Conn.step some) (tcpConn 0) [.create, .build true, .spawn, .made,
      .madeEnds false,
        .returns] = some d ∧ ¬ Automaton d) ∧
      ∃ d : Conn Nat, Runs.run (Conn.step fun _ => some 7) (accepted 0) [.build true, .spawn, .made,
        .io .top, .io .guards, .io (.readDone (.data 1 []))] = some d ∧ ¬ Automaton d := by
  refine ⟨⟨_, rfl, fun auto => ?_⟩, ⟨_, rfl, fun auto => ?_⟩⟩
  · cases auto.returned 0 (by decide)
  · have early := auto.madeFirst [.madeStarts 7] (.notice 7 (.dataReceived [1])) [] rfl rfl
    cases early

end TokioLoop.TokioTcp
