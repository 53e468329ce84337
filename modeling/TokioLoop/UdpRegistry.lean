import TokioLoop.UdpTransport

/-!
The loop's two tables for a UDP file descriptor: when an interest or a made handle
implies an entry in `udp_transports`, and when the end of the transport clears both.
-/
namespace TokioLoop.Udp

open Tcp (Bytes Dir Interest WriteResult)

def Cfg.has (c : Cfg) (d : Dir) : Bool := c.interest.any (Interest.has d)

theorem interest_eq_none {c : Cfg} : c.interest = none ↔ c.has .readable = false ∧
    c.has .writable = false := by
  unfold Cfg.has
  rcases c.interest with _ | ⟨_ | _⟩ | _ <;> simp [Interest.has]

theorem has_socketAdd (c : Cfg) (d e : Dir) : (c.socketAdd d).has e = (e == d || c.has e) := by
  unfold Cfg.has Cfg.socketAdd
  rcases c.interest with _ | ⟨_ | _⟩ | _ <;> cases d <;> cases e <;> rfl

theorem has_socketRem (c : Cfg) (d e : Dir) : (c.socketRem d).has e = (e != d && c.has e) := by
  unfold Cfg.has Cfg.socketRem
  rcases c.interest with _ | ⟨_ | _⟩ | _ <;> cases d <;> cases e <;> rfl

theorem socketRem_none {c : Cfg} (d : Dir) (h : c.interest = none) :
    (c.socketRem d).interest = none := by
  rw [Cfg.socketRem, h]
  rfl

structure Cfg.Registered (c : Cfg) : Prop where
  found : c.interest ≠ none ∨ c.event ≠ none → c.bound = true
  gone : c.delivered = true → c.bound = false ∧ c.interest = none

/-- `recv_from` fails for good before the read handle stops. -/
def readsFatal : List RecvResult → Bool
  | .interrupted :: results => readsFatal results
  | .fatal _ :: _ => true
  | _ => false

theorem readLoop_fatal (c : Cfg) {results : List RecvResult} (h : readsFatal results = true) :
    ∃ text, readLoop c results = c.call (.errorReceived text) .error := by
  induction results with
  | nil => cases h
  | cons r results ih =>
      cases r with
      | datagram | wouldBlock => cases h
      | interrupted => exact ih h
      | fatal text => exact ⟨text, rfl⟩

theorem readLoop_good (c : Cfg) {results : List RecvResult} (h : readsFatal results = false) :
    readLoop c results = c ∨
      ∃ data addr, readLoop c results = c.call (.datagramReceived data addr) .datagram := by
  induction results with
  | nil => exact .inl rfl
  | cons r results ih =>
      cases r with
      | datagram data addr => exact .inr ⟨data, addr, rfl⟩
      | interrupted => exact ih h
      | wouldBlock => exact .inl rfl
      | fatal text => cases h

def Frame.handle : Frame → Bool
  | .datagram | .error | .resume | .closed _ => true
  | _ => false

/-- Only methods stand on top of other frames. -/
def Stacked : List Frame → Prop
  | [] => True
  | f :: stack => (f.nested = false → stack = []) ∧ Stacked stack

/-- `sending` and `flushing` say why a bound transport still has an interest. -/
structure Cfg.Valid (c : Cfg) : Prop where
  sized : c.Sized
  stacked : Stacked c.stack
  attaching : .attach ∈ c.stack →
    c.bound = false ∧ c.writeBuf = [] ∧ (c.closing = true → c.delivered = true ∨ .lost ∈ c.stack)
  running : ∀ f ∈ c.stack, f.handle = true → c.bound = true ∧ c.event = none
  pausing : .pause true ∈ c.stack → c.writeBuf ≠ []
  ending : ∀ errored, .closed errored ∈ c.stack → c.closing = true ∧ c.writeBuf = []
  finished : c.delivered = true ∨ .lost ∈ c.stack → c.closing = true
  reading : c.bound = true → c.has .readable = !c.closing
  sending : c.bound = true → .lost ∉ c.stack → c.writeBuf ≠ [] → c.has .writable = true
  flushing : c.bound = true → c.closing = true → c.writeBuf ≠ [] ∨ .resume ∈ c.stack ∨
    (∃ errored, .closed errored ∈ c.stack) ∨ .lost ∈ c.stack

/-- What a method does that neither closes nor aborts: the tables and the flags stay, the
buffer does not run empty or start to fill, and `pause_writing` may be called. -/
structure Still (c d : Cfg) : Prop where
  interest : d.interest = c.interest
  bound : d.bound = c.bound
  event : d.event = c.event
  closing : d.closing = c.closing
  delivered : d.delivered = c.delivered
  sized : d.Sized
  drained : d.writeBuf = [] ↔ c.writeBuf = []
  stack : d.stack = c.stack ∨ ∃ w, d.stack = .pause w :: c.stack ∧ (w = true → c.writeBuf ≠ [])

theorem Still.refl {c : Cfg} (h : c.Sized) : Still c c :=
  ⟨rfl, rfl, rfl, rfl, rfl, h, Iff.rfl, .inl rfl⟩

theorem Still.trans_pause {c d : Cfg} (h : Still c d) (same : d.stack = c.stack) {w : Bool}
    (pausing : w = true → c.writeBuf ≠ []) : Still c (d.pauseProto w) :=
  ⟨h.interest, h.bound, h.event, h.closing, h.delivered, ⟨h.sized.sum, h.sized.holds⟩, h.drained,
    .inr ⟨w, congrArg (Frame.pause w :: ·) same, pausing⟩⟩

theorem still_enqueue {c : Cfg} (h : c.Sized) (held : c.writeBuf ≠ []) {d : Datagram}
    (hd : d.data ≠ []) : Still c (enqueue c d) := by
  have sized := h.enqueue hd
  unfold enqueue at sized ⊢
  dsimp only at sized ⊢
  split_ifs at sized ⊢
  · refine ⟨rfl, rfl, rfl, rfl, rfl, sized, ?_, .inr ⟨true, rfl, fun _ => held⟩⟩
    exact iff_of_false (List.append_ne_nil_of_left_ne_nil held _) held
  · refine ⟨rfl, rfl, rfl, rfl, rfl, sized, ?_, .inl rfl⟩
    exact iff_of_false (List.append_ne_nil_of_left_ne_nil held _) held

theorem still_sendto {c : Cfg} (h : c.Sized) (data : Bytes) (addr : Option (String × UInt16)) :
    Still c (sendto c data addr) := by
  have quiet : ∀ d : Cfg, d = { c with panicked := d.panicked, raised := d.raised, accepted :=
    d.accepted } →
      Still c d := by
    intro d hd
    rw [hd]
    exact ⟨rfl, rfl, rfl, rfl, rfl, ⟨h.sum, h.holds⟩, Iff.rfl, .inl rfl⟩
  unfold sendto
  split_ifs with closing empty
  · exact quiet _ rfl
  · exact quiet _ rfl
  · split
    · exact quiet _ rfl
    · exact quiet _ rfl
    next target _ =>
      unfold write
      split_ifs with borrowed drained
      · exact quiet _ rfl
      · exact quiet _ rfl
      · have queued := still_enqueue (c := { c with accepted := c.accepted ++ [⟨data, target⟩] })
          ⟨h.sum, h.holds⟩ (fun hbuf => drained (h.empty.mpr hbuf)) (d := ⟨data, target⟩) empty
        exact ⟨queued.interest, queued.bound, queued.event, queued.closing, queued.delivered,
          queued.sized, queued.drained, queued.stack⟩

theorem still_method {c : Cfg} (h : c.Sized) {m : Method} (hclose : m ≠ .close)
    (habort : m ≠ .abort) : Still c (m.run c) := by
  cases m with
  | close => exact absurd rfl hclose
  | abort => exact absurd rfl habort
  | sendto data addr => exact still_sendto h data addr
  | getWriteBufferSize =>
      unfold Method.run getWriteBufferSize
      split_ifs
      · exact ⟨rfl, rfl, rfl, rfl, rfl, ⟨h.sum, h.holds⟩, Iff.rfl, .inl rfl⟩
      · exact .refl h
  | setWriteBufferLimits high low =>
      have limits : ∀ wh wl, Still c { c with waterHi := wh, waterLo := wl } := by
        intro wh wl
        exact ⟨rfl, rfl, rfl, rfl, rfl, ⟨h.sum, h.holds⟩, Iff.rfl, .inl rfl⟩
      simp only [Method.run, Udp.setWriteBufferLimits]
      split_ifs
      · exact ⟨rfl, rfl, rfl, rfl, rfl, ⟨h.sum, h.holds⟩, Iff.rfl, .inl rfl⟩
      · exact ⟨rfl, rfl, rfl, rfl, rfl, ⟨h.sum, h.holds⟩, Iff.rfl, .inl rfl⟩
      · exact (limits (Tcp.bufferLimits high low).1 (Tcp.bufferLimits high low).2).trans_pause
          (w := false) rfl fun pausing => Bool.noConfusion pausing
      · exact limits _ _

theorem Still.mem {c d : Cfg} (h : Still c d) {f : Frame} (hf : ∀ w, f ≠ .pause w) : f ∈ d.stack ↔
    f ∈ c.stack := by
  rcases h.stack with same | ⟨w, pushed, _⟩
  · rw [same]
  · rw [pushed, List.mem_cons, or_iff_right (hf w)]

theorem Still.has {c d : Cfg} (h : Still c d) (dir : Dir) : d.has dir = c.has dir := by
  unfold Cfg.has
  rw [h.interest]

theorem Still.registered {c d : Cfg} (h : Still c d) (hr : c.Registered) : d.Registered := by
  refine ⟨?_, ?_⟩
  · rw [h.interest, h.event, h.bound]
    exact hr.found
  · rw [h.interest, h.bound, h.delivered]
    exact hr.gone

theorem Still.valid {c d : Cfg} (h : Still c d) (hv : c.Valid) : d.Valid where
  sized := h.sized
  stacked := by
    rcases h.stack with same | ⟨w, pushed, _⟩
    · exact same ▸ hv.stacked
    · exact pushed ▸ ⟨fun nested => (nomatch nested), hv.stacked⟩
  attaching := by
    rw [h.mem fun w => Frame.noConfusion, h.mem fun w => Frame.noConfusion, h.bound, h.closing,
      h.delivered, h.drained]
    exact hv.attaching
  running := by
    intro f hf handle
    rw [h.bound, h.event]
    exact hv.running f ((h.mem fun w hw => by rw [hw] at handle; cases handle).mp hf) handle
  pausing := by
    rw [ne_eq, h.drained]
    rcases h.stack with same | ⟨w, pushed, held⟩
    · exact same ▸ hv.pausing
    · rw [pushed, List.mem_cons]
      rintro (top | below)
      · exact held (Frame.pause.inj top).symm
      · exact hv.pausing below
  ending := by
    intro errored
    rw [h.mem fun w => Frame.noConfusion, h.closing, h.drained]
    exact hv.ending errored
  finished := by
    rw [h.mem fun w => Frame.noConfusion, h.closing, h.delivered]
    exact hv.finished
  reading := by
    rw [h.bound, h.has, h.closing]
    exact hv.reading
  sending := by
    rw [h.bound, h.has, h.mem fun w => Frame.noConfusion, ne_eq, h.drained]
    exact hv.sending
  flushing := by
    have closed : (∃ errored, .closed errored ∈ d.stack) ↔ ∃ errored, .closed errored ∈ c.stack :=
      exists_congr fun errored => h.mem fun w => Frame.noConfusion
    rw [h.bound, h.closing, closed, h.mem fun w => Frame.noConfusion, h.mem fun w =>
      Frame.noConfusion, ne_eq, h.drained]
    exact hv.flushing

/-- What announces a loss: under `error_received` the handle is bound to leave the table
with an interest behind; a `connection_lost` that `close` or `abort` called is going to find
the entry there. -/
def Cfg.Doomed (c : Cfg) : Prop := .error ∈ c.stack ∨ c.bound = true ∧ .lost ∈ c.stack

theorem Still.doomed {c d : Cfg} (h : Still c d) : d.Doomed ↔ c.Doomed := by
  unfold Cfg.Doomed
  rw [h.mem fun w => Frame.noConfusion, h.mem fun w => Frame.noConfusion, h.bound]

theorem not_doomed_idle {c : Cfg} (idle : c.stack = []) : ¬ c.Doomed := by
  unfold Cfg.Doomed
  rw [idle]
  rintro (h | ⟨_, h⟩) <;> cases h

theorem exclusive_iff {c : Cfg} : c.exclusive = true ↔ .pause true ∈ c.stack := by
  unfold Cfg.exclusive
  rw [List.any_eq_true]
  constructor
  · rintro ⟨f, hf, held⟩
    cases f with
    | pause w =>
        obtain rfl : w = true := held
        exact hf
    | attach | datagram | error | resume | lost | closed => cases held
  · intro h
    exact ⟨_, h, rfl⟩

theorem Cfg.Valid.panic {c : Cfg} (h : c.Valid) : c.panic.Valid :=
  ⟨⟨h.sized.sum, h.sized.holds⟩, h.stacked, h.attaching, h.running, h.pausing, h.ending, h.finished,
      h.reading,
    h.sending, h.flushing⟩

/-- `close` with a datagram in the buffer. -/
theorem Cfg.Valid.halt {c : Cfg} (h : c.Valid) (held : c.writeBuf ≠ []) :
    (Cfg.socketRem { c with closing := true } .readable).Valid where
  sized := ⟨h.sized.sum, h.sized.holds⟩
  stacked := h.stacked
  attaching := fun there => absurd (h.attaching there).2.1 held
  running := h.running
  pausing := h.pausing
  ending := fun errored there => absurd (h.ending errored there).2 held
  finished := fun _ => rfl
  reading := fun _ => has_socketRem _ _ _
  sending := by
    intro bound alive nonempty
    rw [has_socketRem]
    exact h.sending bound alive nonempty
  flushing := fun _ _ => .inl held

/-- `connection_lost` called by `close` or `abort`. -/
theorem Cfg.Valid.call_lost {c d : Cfg} (h : c.Valid) (sized : d.Sized)
    (buf : d.writeBuf = c.writeBuf) (bound : d.bound = c.bound) (event : d.event = c.event)
    (closing : d.closing = true) (stack : d.stack = .lost :: c.stack)
    (unread : d.bound = true → d.has .readable = false) : d.Valid where
  sized := sized
  stacked := stack ▸ ⟨fun nested => (nomatch nested), h.stacked⟩
  attaching := by
    rw [stack, bound, buf]
    intro there
    have below := h.attaching ((List.mem_cons.mp there).resolve_left Frame.noConfusion)
    exact ⟨below.1, below.2.1, fun _ => .inr List.mem_cons_self⟩
  running := by
    rw [stack, bound, event]
    intro f hf handle
    rcases List.mem_cons.mp hf with rfl | below
    · cases handle
    · exact h.running f below handle
  pausing := by
    rw [stack, buf]
    exact fun there => h.pausing ((List.mem_cons.mp there).resolve_left Frame.noConfusion)
  ending := by
    rw [stack, buf]
    exact fun errored there =>
      ⟨closing, (h.ending errored ((List.mem_cons.mp there).resolve_left Frame.noConfusion)).2⟩
  finished := fun _ => closing
  reading := by
    intro hb
    rw [unread hb, closing]
    rfl
  sending := fun _ alive => absurd (stack ▸ List.mem_cons_self) alive
  flushing := fun _ _ => .inr (.inr (.inr (stack ▸ List.mem_cons_self)))

/-- Without a frame and without an entry in `udp_transports` little is left to say. -/
theorem valid_unbound {c : Cfg} (sized : c.Sized) (idle : c.stack = []) (unbound : c.bound = false)
    (finished : c.delivered = true → c.closing = true) : c.Valid where
  sized := sized
  stacked := idle ▸ trivial
  attaching := by rw [idle]; intro there; cases there
  running := by rw [idle]; intro f hf; cases hf
  pausing := by rw [idle]; intro there; cases there
  ending := by rw [idle]; intro errored there; cases there
  finished := by
    rw [idle]
    rintro (done | there)
    · exact finished done
    · cases there
  reading := by rw [unbound]; intro h; cases h
  sending := by rw [unbound]; intro h; cases h
  flushing := by rw [unbound]; intro h; cases h

/-- A transport whose handle runs, with the state of its buffer left open. -/
structure Cfg.Running (c : Cfg) : Prop where
  sized : c.Sized
  idle : c.stack = []
  bound : c.bound = true
  taken : c.event = none
  alive : c.delivered = false
  reading : c.has .readable = !c.closing
  sending : c.writeBuf ≠ [] → c.has .writable = true

theorem Cfg.Running.registered {c : Cfg} (h : c.Running) : c.Registered :=
  ⟨fun _ => h.bound, fun done => absurd (h.alive.symm.trans done) Bool.false_ne_true⟩

theorem Cfg.Running.valid {c : Cfg} (h : c.Running)
    (flushing : c.closing = true → c.writeBuf ≠ []) : c.Valid where
  sized := h.sized
  stacked := h.idle ▸ trivial
  attaching := by rw [h.idle]; intro there; cases there
  running := by rw [h.idle]; intro f hf; cases hf
  pausing := by rw [h.idle]; intro there; cases there
  ending := by rw [h.idle]; intro errored there; cases there
  finished := by
    rw [h.idle, h.alive]
    rintro (done | there)
    · cases done
    · cases there
  reading := fun _ => h.reading
  sending := fun _ _ => h.sending
  flushing := fun _ closing => .inl (flushing closing)

/-- A call from a handle into the protocol. -/
theorem Cfg.Running.call {c : Cfg} (h : c.Running) (e : Callback) {f : Frame}
    (handle : f.handle = true) (ending : ∀ errored, f = .closed errored → c.closing = true ∧
      c.writeBuf = [])
    (flushing : c.closing = true → c.writeBuf ≠ [] ∨ f = .resume ∨ ∃ errored, f = .closed errored) :
    (c.call e f).Valid ∧ (c.call e f).Registered := by
  have stack : (c.call e f).stack = [f] := congrArg (f :: ·) h.idle
  have only : ∀ {g}, g ∈ (c.call e f).stack → g = f := by
    intro g hg
    rw [stack] at hg
    exact List.mem_singleton.mp hg
  refine ⟨⟨⟨h.sized.sum, h.sized.holds⟩, ?_, ?_, ?_, ?_, ?_, ?_, fun _ => h.reading, fun _ _ =>
    h.sending, ?_⟩, ⟨h.registered.found, h.registered.gone⟩⟩
  · rw [stack]
    exact ⟨fun _ => rfl, trivial⟩
  · intro there
    rw [← only there] at handle
    cases handle
  · intro g _ _
    exact ⟨h.bound, h.taken⟩
  · intro there
    rw [← only there] at handle
    cases handle
  · intro errored there
    exact ending errored (only there).symm
  · rintro (done | there)
    · exact absurd (h.alive.symm.trans done) Bool.false_ne_true
    · rw [← only there] at handle
      cases handle
  · intro _ closing
    rw [stack]
    rcases flushing closing with held | resume | ⟨errored, closed⟩
    · exact .inl held
    · exact .inr (.inl (resume ▸ List.mem_cons_self))
    · exact .inr (.inr (.inl ⟨errored, closed ▸ List.mem_cons_self⟩))

structure Cfg.Settled (c : Cfg) : Prop where
  valid : c.Valid
  registered : c.Registered
  sure : ¬ c.Doomed

theorem Cfg.Running.settled_call {c : Cfg} (h : c.Running) (e : Callback) {f : Frame}
    (handle : f.handle = true) (harmless : f ≠ .error)
    (ending : ∀ errored, f = .closed errored → c.closing = true ∧ c.writeBuf = [])
    (flushing : c.closing = true → c.writeBuf ≠ [] ∨ f = .resume ∨ ∃ errored, f = .closed errored) :
    (c.call e f).Settled := by
  obtain ⟨valid, registered⟩ := h.call e handle ending flushing
  refine ⟨valid, registered, ?_⟩
  unfold Cfg.Doomed Cfg.call
  dsimp only
  rw [h.idle]
  rintro (there | ⟨_, there⟩)
  · exact harmless (List.mem_singleton.mp there).symm
  · rw [← List.mem_singleton.mp there] at handle
    cases handle

theorem Cfg.Running.finishWrite {c : Cfg} (h : c.Running)
    (flushing : c.closing = true → c.writeBuf ≠ []) : (finishWrite c false).Settled := by
  unfold Udp.finishWrite
  dsimp only
  by_cases drained : c.writeBuf = []
  · rw [if_pos drained, if_neg Bool.false_ne_true]
    have running : (c.socketRem .writable).Running := by
      refine ⟨⟨h.sized.sum, h.sized.holds⟩, h.idle, h.bound, h.taken, h.alive, ?_, fun held =>
        absurd drained held⟩
      rw [has_socketRem]
      exact h.reading
    exact ⟨running.valid flushing, running.registered, not_doomed_idle running.idle⟩
  · rw [if_neg drained, if_neg Bool.false_ne_true]
    exact ⟨h.valid flushing, h.registered, not_doomed_idle h.idle⟩

theorem Cfg.Running.closeFromWriteHandle {c : Cfg} (h : c.Running) (drained : c.writeBuf = [])
    (errored : Bool) : (closeFromWriteHandle c errored).Settled := by
  unfold Udp.closeFromWriteHandle
  by_cases closing : c.closing = true
  · rw [if_pos closing]
    exact h.settled_call _ rfl Frame.noConfusion (fun _ _ => ⟨closing, drained⟩)
      fun _ => .inr (.inr ⟨errored, rfl⟩)
  · rw [if_neg closing]
    exact h.finishWrite fun halted => absurd halted closing

theorem Cfg.Running.afterWrite {c : Cfg} (h : c.Running) : (afterWrite c).Settled := by
  unfold Udp.afterWrite
  split_ifs with drained
  · exact h.closeFromWriteHandle drained false
  · exact h.finishWrite fun _ => drained

theorem Cfg.Running.written {c : Cfg} (h : c.Running) (n : Nat) : (written c n).Settled := by
  unfold Udp.written
  split_ifs
  · have resumed : Cfg.Running { c with protoPaused := false } :=
      ⟨⟨h.sized.sum, h.sized.holds⟩, h.idle, h.bound, h.taken, h.alive, h.reading, h.sending⟩
    exact resumed.settled_call _ rfl Frame.noConfusion (fun _ closed => Frame.noConfusion closed)
      fun _ => .inr (.inl rfl)
  · exact h.afterWrite

theorem Cfg.Running.writeHandleRun {c : Cfg} (h : c.Running) (results : List WriteResult) :
    (writeHandleRun c results).Settled := by
  have sent : (sendBuffer c results).1.Running := by
    refine ⟨h.sized.sendBuffer results, h.idle, h.bound, h.taken, h.alive, h.reading, ?_⟩
    intro held
    refine h.sending fun empty => held ?_
    change (sendLoop results c.writeBuf).1 = []
    rw [empty]
    cases results <;> rfl
  have cleared : (sendBuffer c results).2 = none → (sendBuffer c results).1.writeBuf = [] := by
    intro failed
    have loop := sendLoop_total results c.writeBuf
    change (sendLoop results c.writeBuf).2.1 = none at failed
    rw [failed] at loop
    exact loop
  unfold Udp.writeHandleRun
  split
  next c' n hsend =>
    rw [hsend] at sent
    exact sent.written n
  next c' hsend =>
    rw [hsend] at sent cleared
    exact sent.closeFromWriteHandle (cleared rfl) true

theorem Cfg.Running.readLoop {c : Cfg} (h : c.Running)
    (flushing : c.closing = true → c.writeBuf ≠ []) (results : List RecvResult) :
    (readLoop c results).Valid ∧ (readLoop c results).Registered ∧
      ((readLoop c results).Doomed ↔ readsFatal results = true) := by
  cases fatal : readsFatal results with
  | true =>
      obtain ⟨text, hloop⟩ := readLoop_fatal c fatal
      rw [hloop]
      obtain ⟨valid, registered⟩ := h.call (.errorReceived text) (f := .error) rfl
        (fun _ closed => Frame.noConfusion closed) fun closing => .inl (flushing closing)
      exact ⟨valid, registered, iff_of_true (.inl List.mem_cons_self) rfl⟩
  | false =>
      rcases readLoop_good c fatal with hloop | ⟨data, addr, hloop⟩
      · rw [hloop]
        exact ⟨h.valid flushing, h.registered,
          iff_of_false (not_doomed_idle h.idle) Bool.false_ne_true⟩
      · rw [hloop]
        have settled := h.settled_call (.datagramReceived data addr)
          (f := .datagram) rfl Frame.noConfusion (fun _ closed => Frame.noConfusion closed)
          fun closing => .inl (flushing closing)
        exact ⟨settled.valid, settled.registered, iff_of_false settled.sure Bool.false_ne_true⟩

/-- Where a step keeps the registry: a transport in the table is closed with a datagram in
the buffer or again, it is not aborted unless that panics, `recv_from` does not fail, and
`connection_made` raises if it closed the transport. -/
def KeepsRegistry (c : Cfg) : Act → Prop
  | .call .close => c.closing = true ∨ c.writeBufDsize ≠ 0 ∨ c.bound = false
  | .call .abort => c.bound = false ∨ c.exclusive = true
  | .call _ | .poll _ => True
  | .fire received _ => c.event = some .readable → readsFatal received = false
  | .ret raised received =>
      match c.stack.head? with
      | some .attach => raised = true ∨ c.closing = false
      | some .datagram => readsFatal received = false
      | _ => True

instance keepsRegistryDecidable (c : Cfg) (a : Act) : Decidable (KeepsRegistry c a) := by
  unfold KeepsRegistry
  split <;> first | infer_instance | (split <;> infer_instance)

/-- What is under the innermost call. -/
theorem Cfg.Valid.below {c : Cfg} (h : c.Valid) {f : Frame} {stack : List Frame}
    (hstack : c.stack = f :: stack) : (f.nested = false → stack = []) ∧ Stacked stack := by
  have whole := h.stacked
  rwa [hstack] at whole

/-- A transport that is being attached is open exactly when its loss has not been delivered. -/
theorem Cfg.Valid.attaching_open {c : Cfg} (h : c.Valid) (alone : c.stack = [.attach]) :
    c.delivered = false ↔ c.closing = false := by
  have ended := (h.attaching (alone ▸ List.mem_singleton_self _)).2.2
  constructor
  · intro alive
    by_contra halted
    rcases ended (Bool.not_eq_false _ ▸ halted) with done | there
    · exact absurd (alive.symm.trans done) Bool.false_ne_true
    · rw [alone] at there
      cases List.mem_singleton.mp there
  · intro opened
    by_contra done
    exact absurd (opened.symm.trans (h.finished (.inl (Bool.not_eq_false _ ▸ done))))
      Bool.false_ne_true

/-- The state of a handle whose frame is the only one, once the frame is gone. -/
theorem Cfg.Valid.bottom {c : Cfg} (h : c.Valid) (hr : c.Registered) {f : Frame}
    {stack : List Frame} (hstack : c.stack = f :: stack) (handle : f.handle = true) :
    stack = [] ∧ Cfg.Running { c with stack := stack } := by
  obtain ⟨bound, taken⟩ := h.running f (hstack ▸ List.mem_cons_self) handle
  have idle : stack = [] := by
    refine (h.below hstack).1 ?_
    cases f with
    | pause | lost => cases handle
    | attach | datagram | error | resume | closed => rfl
  have unlost : .lost ∉ c.stack := by
    rw [hstack, idle, List.mem_singleton]
    rintro rfl
    cases handle
  refine ⟨idle, ⟨h.sized.sum, h.sized.holds⟩, idle, bound, taken, ?_, h.reading bound,
    h.sending bound unlost⟩
  cases hd : c.delivered with
  | false => rfl
  | true => exact absurd ((hr.gone hd).1.symm.trans bound) Bool.false_ne_true

theorem Cfg.Valid.flushes {c : Cfg} (h : c.Valid) (bound : c.bound = true)
    (only : ∀ f ∈ c.stack, f = .datagram ∨ f = .error) : c.closing = true → c.writeBuf ≠ [] := by
  intro closing
  rcases h.flushing bound closing with held | there | ⟨errored, there⟩ | there
  · exact held
  · rcases only _ there with h | h <;> cases h
  · rcases only _ there with h | h <;> cases h
  · rcases only _ there with h | h <;> cases h

/-! What each piece of code keeps, and when nothing is lost by it. -/

theorem Cfg.Registered.fewer {c d : Cfg} (hr : c.Registered)
    (interest : c.interest = none → d.interest = none) (event : d.event = c.event)
    (bound : d.bound = c.bound) (delivered : d.delivered = c.delivered) :
    d.Registered := by
  refine ⟨?_, ?_⟩
  · rw [event, bound]
    exact fun there => hr.found (there.imp_left fun some none => some (interest none))
  · rw [bound, delivered]
    exact fun done => ⟨(hr.gone done).1, interest (hr.gone done).2⟩

theorem doomed_lost {c d : Cfg} (stack : d.stack = .lost :: c.stack) (bound : d.bound = c.bound) :
    d.Doomed ↔ c.Doomed ∨ c.bound = true := by
  have error : .error ∈ d.stack ↔ .error ∈ c.stack := by
    rw [stack, List.mem_cons]
    exact or_iff_right Frame.noConfusion
  have lost : .lost ∈ d.stack := stack ▸ List.mem_cons_self
  unfold Cfg.Doomed
  rw [error, bound, and_iff_left lost]
  tauto

theorem close_settles {c : Cfg} (h : c.Valid) (hr : c.Registered) :
    (close c).Valid ∧ (close c).Registered ∧
      ((close c).Doomed ↔ c.Doomed ∨ ¬ KeepsRegistry c (.call .close)) := by
  by_cases closing : c.closing = true
  · have same : close c = c := if_pos closing
    rw [same]
    exact ⟨h, hr, (or_iff_left (not_not.mpr (.inl closing))).symm⟩
  have opened : close c = if c.exclusive
    then (Cfg.socketRem { c with closing := true } .readable).panic
      else if c.writeBufDsize = 0 then
        ((Cfg.socketRem { c with closing := true } .readable).socketRem .writable).call
            (.connectionLost none) .lost
      else Cfg.socketRem { c with closing := true } .readable := if_neg closing
  rw [opened]
  by_cases drained : c.writeBuf = []
  · have free : ¬ c.exclusive = true := fun held => h.pausing (exclusive_iff.mp held) drained
    have zero := h.sized.empty.mpr drained
    rw [if_neg free, if_pos zero]
    refine ⟨?_, ?_, ?_⟩
    · refine h.call_lost ⟨h.sized.sum, h.sized.holds⟩ rfl rfl rfl rfl rfl fun _ => ?_
      exact (has_socketRem _ .writable .readable).trans
        (congrArg (_ && ·) (has_socketRem { c with closing := true } .readable .readable))
    · exact hr.fewer (fun none => socketRem_none _ (socketRem_none _ none)) rfl rfl rfl
    · have kept : ¬ KeepsRegistry c (.call .close) ↔ c.bound = true := by
        simp [KeepsRegistry, closing, zero]
      rw [kept]
      exact doomed_lost rfl rfl
  · have held : c.writeBufDsize ≠ 0 := fun zero => drained (h.sized.empty.mp zero)
    have fewer : (Cfg.socketRem { c with closing := true } .readable).Registered :=
      hr.fewer (socketRem_none _) rfl rfl rfl
    have kept : KeepsRegistry c (.call .close) := .inr (.inl held)
    split_ifs
    · exact ⟨(h.halt drained).panic, ⟨fewer.found, fewer.gone⟩,
        (or_iff_left (not_not.mpr kept)).symm⟩
    · exact ⟨h.halt drained, fewer, (or_iff_left (not_not.mpr kept)).symm⟩

/-- What `abort` leaves: fewer interests, `READABLE` not among them. -/
theorem abort_spec {c : Cfg} (h : c.Valid) (free : c.exclusive = false) :
    ∃ interest, abort c =
        Cfg.call { c with interest := interest, closing := true } (.connectionLost none) .lost ∧
      (c.interest = none → interest = none) ∧
      (c.bound = true → interest.any (Interest.has .readable) = false) := by
  have flushed : ∃ interest, (if 0 < c.writeBufDsize then c.socketRem .writable else c) =
      { c with interest := interest } ∧ (c.interest = none → interest = none) ∧
      interest.any (Interest.has .readable) = c.has .readable := by
    by_cases held : 0 < c.writeBufDsize
    · exact ⟨_, if_pos held, socketRem_none (c := c) .writable, has_socketRem c .writable .readable⟩
    · exact ⟨_, if_neg held, id, rfl⟩
  obtain ⟨interest, hflushed, gone, readable⟩ := flushed
  unfold abort
  rw [free, if_neg Bool.false_ne_true]
  dsimp only
  rw [hflushed]
  by_cases closing : c.closing = true
  · refine ⟨interest, ?_, gone, fun bound => ?_⟩
    · rw [if_pos closing, ← closing]
    · rw [readable, h.reading bound, closing]
      rfl
  · refine ⟨interest.bind (Interest.remove .readable), ?_, ?_, fun _ => ?_⟩
    · rw [if_neg closing]
      rfl
    · intro none
      rw [gone none]
      rfl
    · exact has_socketRem { c with interest := interest, closing := true } .readable .readable

theorem abort_settles {c : Cfg} (h : c.Valid) (hr : c.Registered) :
    (abort c).Valid ∧ (abort c).Registered ∧
      ((abort c).Doomed ↔ c.Doomed ∨ ¬ KeepsRegistry c (.call .abort)) := by
  cases free : c.exclusive with
  | true =>
      have panics : abort c = c.panic := if_pos free
      have kept : KeepsRegistry c (.call .abort) := .inr free
      rw [panics]
      exact ⟨h.panic, ⟨hr.found, hr.gone⟩, (or_iff_left (not_not.mpr kept)).symm⟩
  | false =>
      obtain ⟨interest, habort, gone, unread⟩ := abort_spec h free
      have kept : ¬ KeepsRegistry c (.call .abort) ↔ c.bound = true := by
        simp [KeepsRegistry, free]
      rw [habort]
      refine ⟨?_, ?_, ?_⟩
      · exact h.call_lost ⟨h.sized.sum, h.sized.holds⟩ rfl rfl rfl rfl rfl unread
      · exact hr.fewer gone rfl rfl rfl
      · rw [kept]
        exact doomed_lost rfl rfl

theorem call_settles {c : Cfg} (h : c.Valid) (hr : c.Registered) (m : Method) :
    (m.run c).Valid ∧ (m.run c).Registered ∧
      ((m.run c).Doomed ↔ c.Doomed ∨ ¬ KeepsRegistry c (.call m)) := by
  by_cases hclose : m = .close
  · subst hclose
    exact close_settles h hr
  by_cases habort : m = .abort
  · subst habort
    exact abort_settles h hr
  have still := still_method h.sized hclose habort
  have kept : KeepsRegistry c (.call m) := by
    cases m with
    | close => exact absurd rfl hclose
    | abort => exact absurd rfl habort
    | sendto | setWriteBufferLimits | getWriteBufferSize => trivial
  exact ⟨still.valid h, still.registered hr,
    still.doomed.trans (or_iff_left (not_not.mpr kept)).symm⟩

theorem fire_settles {c : Cfg} (h : c.Valid) (hr : c.Registered) (idle : c.stack = []) {d : Dir}
    (made : c.event = some d)
    (received : List RecvResult) (sent : List WriteResult) :
    (fire { c with event := none } received sent d).Valid ∧
      (fire { c with event := none } received sent d).Registered ∧
      ((fire { c with event := none } received sent d).Doomed ↔
        ¬ KeepsRegistry c (.fire received sent)) := by
  have bound : c.bound = true := hr.found (.inr (by rw [made]; exact Option.some_ne_none d))
  have running : Cfg.Running { c with event := none } := by
    have alive := hr.gone
    refine ⟨⟨h.sized.sum, h.sized.holds⟩, idle, bound, rfl, ?_, h.reading bound,
      h.sending bound (idle ▸ List.not_mem_nil)⟩
    cases hd : c.delivered with
    | false => rfl
    | true => exact absurd ((hr.gone hd).1.symm.trans bound) Bool.false_ne_true
  cases d with
  | readable =>
      have reads : fire { c with event := none } received sent .readable =
          readLoop { c with event := none } received := if_pos bound
      rw [reads]
      obtain ⟨valid, registered, doomed⟩ := running.readLoop
        (h.flushes bound fun f hf => by rw [idle] at hf; cases hf) received
      refine ⟨valid, registered, doomed.trans ?_⟩
      unfold KeepsRegistry
      rw [made]
      simp
  | writable =>
      have writes : fire { c with event := none } received sent .writable =
          writeHandleRun { c with event := none } sent := if_pos bound
      rw [writes]
      have settled := running.writeHandleRun sent
      refine ⟨settled.valid, settled.registered, iff_of_false settled.sure ?_⟩
      unfold KeepsRegistry
      rw [made]
      simp

/-- The state after a method above other code has returned. -/
theorem Cfg.Valid.pop_pause {c : Cfg} (h : c.Valid) {w : Bool} {stack : List Frame}
    (hstack : c.stack = .pause w :: stack) : Cfg.Valid { c with stack := stack } where
  sized := ⟨h.sized.sum, h.sized.holds⟩
  stacked := (h.below hstack).2
  attaching := by
    intro there
    have below := h.attaching (hstack ▸ List.mem_cons_of_mem _ there)
    rw [hstack, List.mem_cons, or_iff_right (a := Frame.lost = .pause w) Frame.noConfusion] at below
    exact below
  running := fun f hf => h.running f (hstack ▸ List.mem_cons_of_mem _ hf)
  pausing := fun there => h.pausing (hstack ▸ List.mem_cons_of_mem _ there)
  ending := fun errored there => h.ending errored (hstack ▸ List.mem_cons_of_mem _ there)
  finished := fun done => h.finished (done.imp_right fun there =>
      hstack ▸ List.mem_cons_of_mem _ there)
  reading := h.reading
  sending := by
    intro bound alive
    refine h.sending bound ?_
    rw [hstack, List.mem_cons, not_or]
    exact ⟨Frame.noConfusion, alive⟩
  flushing := by
    have below : ∀ {f : Frame}, f ≠ .pause w → f ∈ c.stack → f ∈ stack := by
      intro f hf there
      rw [hstack] at there
      exact (List.mem_cons.mp there).resolve_left hf
    intro bound closing
    rcases h.flushing bound closing with held | there | ⟨errored, there⟩ | there
    · exact .inl held
    · exact .inr (.inl (below Frame.noConfusion there))
    · exact .inr (.inr (.inl ⟨errored, below Frame.noConfusion there⟩))
    · exact .inr (.inr (.inr (below Frame.noConfusion there)))

theorem Cfg.Doomed.of_below {c d : Cfg} {f : Frame} {stack : List Frame} (hc : c.Doomed)
    (hstack : c.stack = f :: stack) (error : f ≠ .error) (lost : f ≠ .lost)
    (below : d.stack = stack) (bound : d.bound = c.bound) : d.Doomed := by
  unfold Cfg.Doomed at hc ⊢
  rw [below, bound]
  rw [hstack, List.mem_cons, List.mem_cons, or_iff_right error.symm, or_iff_right lost.symm] at hc
  exact hc

theorem Cfg.Doomed.under {c d : Cfg} {f : Frame} (hd : d.Doomed) (hstack : c.stack = f :: d.stack)
    (bound : d.bound = c.bound) : c.Doomed := by
  unfold Cfg.Doomed at hd ⊢
  rw [hstack, ← bound]
  exact hd.imp (List.mem_cons_of_mem f) (And.imp_right (List.mem_cons_of_mem f))

theorem closed_after {c : Cfg} (stack : List Frame) (errored raised : Bool)
    (received : List RecvResult) (drained : c.writeBuf = []) :
    (Frame.closed errored).after { c with stack := stack } raised received =
      { Cfg.socketClose (Cfg.socketRem { c with stack := stack } .writable) with
        delivered := true } := by
  unfold Frame.after finishWrite
  dsimp only
  rw [if_pos drained, if_pos rfl]

/-- What a return keeps, when it keeps the registry. -/
theorem ret_valid {c : Cfg} (h : c.Valid) (hr : c.Registered) {f : Frame} {stack : List Frame}
    (hstack : c.stack = f :: stack) (raised : Bool) (received : List RecvResult)
    (kept : (f.after { c with stack := stack } raised received).Registered) :
    (f.after { c with stack := stack } raised received).Valid := by
  have top : f ∈ c.stack := hstack ▸ List.mem_cons_self
  cases f with
  | pause w => exact h.pop_pause hstack
  | datagram =>
      obtain ⟨idle, running⟩ := h.bottom hr hstack rfl
      refine (running.readLoop (h.flushes running.bound fun f hf => ?_) received).1
      rw [hstack, idle, List.mem_singleton] at hf
      exact .inl hf
  | resume => exact (h.bottom hr hstack rfl).2.afterWrite.valid
  | error =>
      obtain ⟨idle, running⟩ := h.bottom hr hstack rfl
      exact valid_unbound ⟨h.sized.sum, h.sized.holds⟩ idle rfl fun done => h.finished (.inl done)
  | closed errored =>
      obtain ⟨idle, running⟩ := h.bottom hr hstack rfl
      have ended := h.ending errored top
      rw [closed_after stack errored raised received ended.2]
      exact valid_unbound ⟨h.sized.sum, h.sized.holds⟩ idle rfl fun _ => ended.1
  | attach =>
      have idle : stack = [] := (h.below hstack).1 rfl
      obtain ⟨unbound, drained, _⟩ := h.attaching top
      cases raised with
      | true =>
          exact valid_unbound ⟨h.sized.sum, h.sized.holds⟩ idle unbound fun done =>
            h.finished (.inl done)
      | false =>
          have alive : c.delivered = false := by
            cases hd : c.delivered with
            | false => rfl
            | true => cases (kept.gone hd).1
          have opened : c.closing = false := (h.attaching_open (idle ▸ hstack)).mp alive
          have taken : c.event = none := by
            by_contra made
            exact absurd (unbound.symm.trans (hr.found (.inr made))) Bool.false_ne_true
          have running : (register { c with stack := stack }).Running := by
            refine ⟨⟨h.sized.sum, h.sized.holds⟩, idle, rfl, taken, alive, ?_, fun held =>
              absurd drained held⟩
            exact (has_socketAdd _ _ _).trans (by rw [opened]; rfl)
          exact running.valid fun closing => absurd (opened.symm.trans closing) Bool.false_ne_true
  | lost =>
      have unbound : c.bound = false := (kept.gone rfl).1
      refine ⟨⟨h.sized.sum, h.sized.holds⟩, (h.below hstack).2, ?_, ?_, ?_, ?_, ?_, ?_, ?_, ?_⟩
      · intro there
        have below := h.attaching (hstack ▸ List.mem_cons_of_mem _ there)
        exact ⟨below.1, below.2.1, fun _ => .inl rfl⟩
      · exact fun f hf => h.running f (hstack ▸ List.mem_cons_of_mem _ hf)
      · exact fun there => h.pausing (hstack ▸ List.mem_cons_of_mem _ there)
      · exact fun errored there => h.ending errored (hstack ▸ List.mem_cons_of_mem _ there)
      · exact fun _ => h.finished (.inr top)
      · exact fun bound => absurd (unbound.symm.trans bound) Bool.false_ne_true
      · exact fun bound => absurd (unbound.symm.trans bound) Bool.false_ne_true
      · exact fun bound => absurd (unbound.symm.trans bound) Bool.false_ne_true

/-- An announced loss stays announced until it shows. -/
theorem ret_doomed {c : Cfg} (h : c.Valid) (hr : c.Registered) (hd : c.Doomed) {f : Frame}
    {stack : List Frame} (hstack : c.stack = f :: stack) (raised : Bool)
    (received : List RecvResult) (kept :
      (f.after { c with stack := stack } raised received).Registered) :
    (f.after { c with stack := stack } raised received).Doomed := by
  have alone : f.nested = false → c.stack = [f] := by
    intro bottom
    rw [hstack, (h.below hstack).1 bottom]
  have harmless : c.stack = [f] → f ≠ .error → f ≠ .lost → False := by
    intro only error lost
    unfold Cfg.Doomed at hd
    rw [only, List.mem_singleton, List.mem_singleton] at hd
    rcases hd with there | ⟨_, there⟩
    · exact error there.symm
    · exact lost there.symm
  cases f with
  | pause w => exact hd.of_below hstack Frame.noConfusion Frame.noConfusion rfl rfl
  | attach | datagram | resume | closed =>
      exact (harmless (alone rfl) Frame.noConfusion Frame.noConfusion).elim
  | error =>
      -- the entry leaves the table, so the interest would have to be gone
      obtain ⟨idle, running⟩ := h.bottom hr hstack rfl
      have none : c.interest = none := by
        by_contra some
        cases kept.found (.inl some)
      obtain ⟨unread, unwritten⟩ := interest_eq_none.mp none
      have closing : c.closing = true := by
        have reading := running.reading
        change c.has .readable = !c.closing at reading
        rw [unread] at reading
        cases hc : c.closing with
        | true => rfl
        | false => rw [hc] at reading; cases reading
      have held := h.flushes running.bound
        (fun f hf => .inr (List.mem_singleton.mp (alone rfl ▸ hf))) closing
      exact absurd (unwritten.symm.trans (running.sending held)) Bool.false_ne_true
  | lost =>
      have unbound : c.bound = false := (kept.gone rfl).1
      rcases hd with there | ⟨bound, _⟩
      · rw [hstack] at there
        exact .inl ((List.mem_cons.mp there).resolve_left Frame.noConfusion)
      · exact absurd (unbound.symm.trans bound) Bool.false_ne_true

/-- With no loss announced, a return keeps the registry and announces none exactly under
the condition. -/
theorem ret_keeps {c : Cfg} (h : c.Valid) (hr : c.Registered) (sure : ¬ c.Doomed) {f : Frame}
    {stack : List Frame} (hstack : c.stack = f :: stack) (raised : Bool)
    (received : List RecvResult) : (f.after { c with stack := stack } raised received).Registered ∧
        ¬ (f.after { c with stack := stack } raised received).Doomed ↔
      KeepsRegistry c (.ret raised received) := by
  have top : f ∈ c.stack := hstack ▸ List.mem_cons_self
  unfold KeepsRegistry
  simp only [hstack, List.head?_cons]
  cases f with
  | pause w =>
      exact iff_of_true ⟨⟨hr.found, hr.gone⟩, fun hd => sure (hd.under hstack rfl)⟩ trivial
  | datagram =>
      obtain ⟨idle, running⟩ := h.bottom hr hstack rfl
      obtain ⟨_, registered, doomed⟩ := running.readLoop (h.flushes running.bound fun f hf => by
        rw [hstack, idle, List.mem_singleton] at hf
        exact .inl hf) received
      exact (and_iff_right registered).trans
        ((not_congr doomed).trans (iff_of_eq (Bool.not_eq_true _)))
  | resume =>
      have settled := (h.bottom hr hstack rfl).2.afterWrite
      exact iff_of_true ⟨settled.registered, settled.sure⟩ trivial
  | error => exact absurd (.inl top) sure
  | closed errored =>
      obtain ⟨idle, running⟩ := h.bottom hr hstack rfl
      have ended := h.ending errored top
      have unread : c.has .readable = false := running.reading.trans (by rw [ended.1]; rfl)
      have cleared : (Cfg.socketRem { c with stack := stack } .writable).interest = none := by
        refine interest_eq_none.mpr ⟨?_, ?_⟩
        · exact (has_socketRem _ _ _).trans unread
        · exact has_socketRem _ _ _
      rw [closed_after stack errored raised received ended.2]
      refine iff_of_true ⟨⟨fun there => ?_, fun _ => ⟨rfl, cleared⟩⟩, not_doomed_idle idle⟩ trivial
      rcases there with some | made
      · exact absurd cleared some
      · exact absurd running.taken made
  | attach =>
      have idle : stack = [] := (h.below hstack).1 rfl
      cases raised with
      | true => exact iff_of_true ⟨⟨hr.found, hr.gone⟩, not_doomed_idle idle⟩ (.inl rfl)
      | false =>
          have sure' : ¬ (register { c with stack := stack }).Doomed := not_doomed_idle idle
          rw [or_iff_right Bool.false_ne_true, ← h.attaching_open (idle ▸ hstack)]
          constructor
          · rintro ⟨registered, _⟩
            by_contra done
            cases (registered.gone (Bool.not_eq_false _ ▸ done)).1
          · intro alive
            exact ⟨⟨fun _ => rfl, fun done => absurd (alive.symm.trans done) Bool.false_ne_true⟩,
              sure'⟩
  | lost =>
      have unbound : c.bound = false := by
        by_contra bound
        exact sure (.inr ⟨Bool.not_eq_false _ ▸ bound, top⟩)
      have none : c.interest = none := by
        by_contra some
        exact absurd (unbound.symm.trans (hr.found (.inl some))) Bool.false_ne_true
      exact iff_of_true ⟨⟨hr.found, fun _ => ⟨unbound, none⟩⟩, fun hd => sure (hd.under hstack rfl)⟩
        trivial

theorem step_valid {c d : Cfg} {a : Act} (hv : c.Valid) (hr : c.Registered) (h : step c a = some d)
    (kept : d.Registered) : d.Valid := by
  obtain ⟨_, stepped⟩ := step_stepped h
  cases stepped with
  | call m => exact (call_settles hv hr m).1
  | poll dir idle free there =>
      have bound : c.bound = true := hr.found (.inl fun none => by rw [none] at there; cases there)
      have event : ∀ f ∈ c.stack, f.handle = true → c.bound = true ∧ some dir = none := by
        rw [idle]
        intro f hf
        cases hf
      exact ⟨⟨hv.sized.sum, hv.sized.holds⟩, hv.stacked, hv.attaching, event, hv.pausing, hv.ending,
        hv.finished, hv.reading, hv.sending, hv.flushing⟩
  | fire received sent dir idle made => exact (fire_settles hv hr idle made received sent).1
  | ret raised received f stack hstack => exact ret_valid hv hr hstack raised received kept

theorem step_doomed {c d : Cfg} {a : Act} (hv : c.Valid) (hr : c.Registered) (hd : c.Doomed)
    (h : step c a = some d) (kept : d.Registered) : d.Doomed := by
  obtain ⟨_, stepped⟩ := step_stepped h
  cases stepped with
  | call m => exact (call_settles hv hr m).2.2.mpr (.inl hd)
  | poll dir idle => exact absurd hd (not_doomed_idle idle)
  | fire received sent dir idle => exact absurd hd (not_doomed_idle idle)
  | ret raised received f stack hstack => exact ret_doomed hv hr hd hstack raised received kept

theorem step_keeps {c d : Cfg} {a : Act} (hv : c.Valid) (hr : c.Registered) (sure : ¬ c.Doomed)
    (h : step c a = some d) : d.Registered ∧ ¬ d.Doomed ↔ KeepsRegistry c a := by
  obtain ⟨_, stepped⟩ := step_stepped h
  cases stepped with
  | call m =>
      obtain ⟨_, registered, doomed⟩ := call_settles hv hr m
      rw [and_iff_right registered, doomed, or_iff_right sure, not_not]
  | poll dir idle free there =>
      have bound : c.bound = true := hr.found (.inl fun none => by rw [none] at there; cases there)
      exact iff_of_true ⟨⟨fun _ => bound, hr.gone⟩, not_doomed_idle idle⟩ trivial
  | fire received sent dir idle made =>
      obtain ⟨_, registered, doomed⟩ := fire_settles hv hr idle made received sent
      rw [and_iff_right registered, doomed, not_not]
  | ret raised received f stack hstack => exact ret_keeps hv hr sure hstack raised received

/-- A transport in `_udp_conn`, or an open one that is registered for what it waits for. -/
def Started (c : Cfg) : Prop :=
  (∃ remoteAddr, c = connecting remoteAddr) ∨
    c.Sized ∧ c.stack = [] ∧ c.bound = true ∧ c.event = none ∧ c.closing = false ∧
    c.delivered = false ∧
      c.has .readable = true ∧ (c.has .writable = true ↔ c.writeBuf ≠ [])

theorem started_valid {c : Cfg} (h : Started c) : c.Valid ∧ c.Registered ∧ ¬ c.Doomed := by
  rcases h with ⟨remoteAddr, rfl⟩ | ⟨sized, idle, bound, taken, opened, alive, reading, sending⟩
  · have only : ∀ {f}, f ∈ (connecting remoteAddr).stack → f = .attach := List.mem_singleton.mp
    refine ⟨⟨⟨rfl, fun d hd => (nomatch hd)⟩, ⟨fun _ => rfl, trivial⟩, fun _ =>
      ⟨rfl, rfl, fun h => (nomatch h)⟩, ?_, ?_, ?_, ?_, fun h => (nomatch h), fun h => (nomatch h),
      fun h => (nomatch h)⟩, ⟨?_, fun h => (nomatch h)⟩, ?_⟩
    · intro f hf handle
      rw [only hf] at handle
      cases handle
    · intro there
      cases only there
    · intro errored there
      cases only there
    · rintro (done | there)
      · cases done
      · cases only there
    · rintro (some | made)
      · exact absurd rfl some
      · exact absurd rfl made
    · rintro (there | ⟨_, there⟩) <;> cases only there
  · have running : c.Running := ⟨sized, idle, bound, taken, alive,
      by rw [reading, opened]; rfl, sending.mpr⟩
    exact ⟨running.valid fun closing => absurd (opened.symm.trans closing) Bool.false_ne_true,
      running.registered, not_doomed_idle idle⟩

/-- In every run whose steps all meet the condition the tables agree in every state; and
a run that ends between two handles with the tables in agreement throughout met it. -/
theorem udp_registry {c d : Cfg} {actions : List Act} (start : Started c)
    (h : Runs.run step c actions = some d) :
    (Runs.Guarded step KeepsRegistry c actions → Runs.Always step Cfg.Registered c actions) ∧
      (d.stack = [] → Runs.Always step Cfg.Registered c actions →
        Runs.Guarded step KeepsRegistry c actions) := by
  obtain ⟨valid, registered, sure⟩ := started_valid start
  have rule := Runs.always_iff_guarded_settled (I := Cfg.Valid) (P := Cfg.Registered)
    (D := Cfg.Doomed) (G := KeepsRegistry) (fun _ _ _ hv hr first kept =>
      step_valid hv hr first kept)
    (fun _ _ _ hv hr sure first => step_keeps hv hr sure first)
    (fun _ _ _ hv hr hd first kept => step_doomed hv hr hd first kept) h valid registered sure
  exact ⟨rule.1, fun idle => rule.2 (not_doomed_idle idle)⟩

/-- `close` waits for the one datagram in the buffer; the write handle does the rest. -/
theorem udp_registry_flushed :
    Runs.Always step Cfg.Registered (waiting none [⟨[7], ⟨.v4 [127, 0, 0, 1], 9⟩⟩])
      [.call .close, .poll .writable, .fire [] [.ok 1], .ret false []] :=
  (udp_registry (c := waiting none [⟨[7], ⟨.v4 [127, 0, 0, 1], 9⟩⟩])
    (.inr ⟨⟨rfl, by decide⟩, rfl, rfl, rfl, rfl, rfl, rfl, by decide⟩) rfl).1 (by decide)

/-- After an error of `recv_from` the transport is no longer in the table while its
interest is, and the next event panics; `close` on an empty buffer leaves it there. -/
theorem later_event_panics :
    (Runs.run step (connecting none)
        [.ret false [], .poll .readable, .fire [.fatal "Connection refused"] [], .ret false []]).map
          (fun d => (d.bound, d.interest)) = some (false, some (.only .readable)) ∧
      (Runs.run step (connecting none)
        [.ret false [], .poll .readable, .fire [.fatal "Connection refused"] [], .ret false [],
          .poll .readable, .fire [.wouldBlock] []]).map Cfg.panicked = some true ∧
      (Runs.run step (connecting none) [.ret false [], .call .close, .ret false []]).map
        (fun d => (d.delivered, d.bound)) = some (true, true) :=
  ⟨rfl, rfl, rfl⟩

end TokioLoop.Udp
