import TokioLoop.UdpTransport

/-!
What `sendto` promises of a datagram: the kernel gets it whole, behind all that were
accepted before it, or it waits whole in the buffer.
-/
namespace TokioLoop.Udp

open Tcp (Bytes Dir Interest WriteResult)

/-- Nothing has panicked, every accepted datagram is with the kernel or in the buffer, in
order and whole, and the size kept beside the buffer is that of its datagrams. -/
structure Cfg.Delivers (c : Cfg) : Prop where
  calm : c.panicked = false
  inOrder : c.handed ++ c.writeBuf = c.accepted
  sized : c.writeBufDsize = totalSize c.writeBuf

/-- A panic, or more pieces than accepted datagrams. -/
def Cfg.Spoiled (c : Cfg) : Prop :=
  c.panicked = true ∨ c.accepted.length < c.handed.length + c.writeBuf.length

theorem Cfg.Delivers.not_spoiled {c : Cfg} (h : c.Delivers) : ¬ c.Spoiled := by
  rintro (panicked | more)
  · exact absurd (h.calm.symm.trans panicked) Bool.false_ne_true
  · rw [← h.inOrder, List.length_append] at more
    exact Nat.lt_irrefl _ more

/-- The kernel takes each datagram of the buffer whole or not at all. -/
def takesWhole : List WriteResult → List Datagram → Bool
  | .ok n :: results, d :: buf => decide (d.size ≤ n) && takesWhole results buf
  | .interrupted :: results, d :: buf => takesWhole results (d :: buf)
  | _, _ => true

/-- No call of `send_to` fails for good. -/
def sendsFatal (results : List WriteResult) : Bool :=
  results.any fun r => match r with | .fatal _ => true | _ => false

/-- With such results the buffer is what the kernel took and what is left, or one
datagram was cut in two. -/
theorem sendLoop_pieces {results : List WriteResult} (buf : List Datagram)
    (sent : sendsFatal results = false) :
    if takesWhole results buf then (sendLoop results buf).2.2 ++ (sendLoop results buf).1 = buf
    else (sendLoop results buf).2.2.length + (sendLoop results buf).1.length = buf.length + 1 := by
  fun_induction sendLoop results buf with
  | case1 results =>
      have whole : takesWhole results [] = true := by cases results with
        | nil => rfl
        | cons r results => cases r <;> rfl
      rw [if_pos whole]
      rfl
  | case2 d buf => rfl
  | case3 n results d buf short =>
      have cut : takesWhole (.ok n :: results) (d :: buf) = false := by
        simp [takesWhole, Nat.not_le.mpr short]
      rw [cut, if_neg Bool.false_ne_true]
      simp only [List.length_cons, List.length_nil]
      omega
  | case4 n results d buf whole left ret handed hloop ih =>
      have first : takesWhole (.ok n :: results) (d :: buf) = takesWhole results buf := by
        simp [takesWhole, Nat.not_lt.mp whole]
      have ih := ih sent
      rw [hloop] at ih
      rw [first]
      split_ifs at ih ⊢
      · rw [List.cons_append, ih]
      · simp only [List.length_cons] at ih ⊢
        omega
  | case5 results d buf ih => exact ih sent
  | case6 results d buf => rfl
  | case7 => cases sent

/-- The parts of a transport that `sendto` and the write handle account for. -/
structure Carried (c d : Cfg) : Prop where
  panicked : d.panicked = c.panicked
  accepted : d.accepted = c.accepted
  handed : d.handed = c.handed
  writeBuf : d.writeBuf = c.writeBuf
  writeBufDsize : d.writeBufDsize = c.writeBufDsize
  closing : d.closing = c.closing

theorem Carried.refl (c : Cfg) : Carried c c := ⟨rfl, rfl, rfl, rfl, rfl, rfl⟩

theorem Carried.call {c d : Cfg} (h : Carried c d) (e : Callback)
    (f : Frame) : Carried c (d.call e f) :=
  ⟨h.panicked, h.accepted, h.handed, h.writeBuf, h.writeBufDsize, h.closing⟩

theorem Carried.delivers {c d : Cfg} (h : Carried c d) : d.Delivers ↔ c.Delivers := by
  constructor
  · rintro ⟨calm, inOrder, sized⟩
    rw [h.panicked] at calm
    rw [h.handed, h.writeBuf, h.accepted] at inOrder
    rw [h.writeBuf, h.writeBufDsize] at sized
    exact ⟨calm, inOrder, sized⟩
  · rintro ⟨calm, inOrder, sized⟩
    refine ⟨?_, ?_, ?_⟩
    · rw [h.panicked, calm]
    · rw [h.handed, h.writeBuf, h.accepted, inOrder]
    · rw [h.writeBuf, h.writeBufDsize, sized]

theorem Carried.spoiled {c d : Cfg} (h : Carried c d) : d.Spoiled ↔ c.Spoiled := by
  unfold Cfg.Spoiled
  rw [h.panicked, h.accepted, h.handed, h.writeBuf]

theorem carried_readLoop (c : Cfg) (results : List RecvResult) :
    Carried c (readLoop c results) := by
  induction results with
  | nil => exact .refl c
  | cons r results ih =>
      cases r with
      | datagram => exact (Carried.refl c).call _ _
      | interrupted => exact ih
      | wouldBlock => exact .refl c
      | fatal => exact (Carried.refl c).call _ _

theorem carried_finishWrite (c : Cfg) (streamClose : Bool) :
    Carried c (finishWrite c streamClose) := by
  unfold finishWrite
  dsimp only
  split_ifs <;> exact ⟨rfl, rfl, rfl, rfl, rfl, rfl⟩

theorem carried_closeFromWriteHandle (c : Cfg) (errored : Bool) :
    Carried c (closeFromWriteHandle c errored) := by
  unfold closeFromWriteHandle
  split
  · exact (Carried.refl c).call _ _
  · exact carried_finishWrite c false

theorem carried_afterWrite (c : Cfg) : Carried c (afterWrite c) := by
  unfold afterWrite
  split
  · exact carried_closeFromWriteHandle c false
  · exact carried_finishWrite c false

theorem carried_written (c : Cfg) (n : Nat) : Carried c (written c n) := by
  unfold written
  split
  · exact ⟨rfl, rfl, rfl, rfl, rfl, rfl⟩
  · exact carried_afterWrite c

theorem carried_writeHandleRun (c : Cfg) (results : List WriteResult) :
    Carried (sendBuffer c results).1 (writeHandleRun c results) := by
  unfold writeHandleRun
  split
  next c' n hsend =>
    rw [hsend]
    exact carried_written c' n
  next c' hsend =>
    rw [hsend]
    exact carried_closeFromWriteHandle c' true

theorem carried_after (c : Cfg) (stack : List Frame) (f : Frame) (raised : Bool)
    (received : List RecvResult) : Carried c
    (f.after { c with stack := stack } raised received) := by
  have popped : Carried c { c with stack := stack } := ⟨rfl, rfl, rfl, rfl, rfl, rfl⟩
  have lifted : ∀ {d}, Carried { c with stack := stack } d → Carried c d := fun h =>
    ⟨h.panicked, h.accepted, h.handed, h.writeBuf, h.writeBufDsize, h.closing⟩
  cases f with
  | attach =>
      cases raised with
      | true => exact popped
      | false => exact ⟨rfl, rfl, rfl, rfl, rfl, rfl⟩
  | datagram => exact lifted (carried_readLoop _ _)
  | error => exact ⟨rfl, rfl, rfl, rfl, rfl, rfl⟩
  | pause => exact popped
  | resume => exact lifted (carried_afterWrite _)
  | lost => exact ⟨rfl, rfl, rfl, rfl, rfl, rfl⟩
  | closed =>
      have finished := lifted (carried_finishWrite { c with stack := stack } true)
      exact ⟨finished.panicked, finished.accepted, finished.handed, finished.writeBuf,
        finished.writeBufDsize, finished.closing⟩

/-- How `sendto` answers: with an error that changed nothing, at once for no data, with a
panic, or by accepting the datagram for the address it was given. -/
inductive Answered (c : Cfg) (data : Bytes) (addr : Option (String × UInt16)) : Cfg → Prop where
  | raised (text : String) : Answered c data addr (c.raise text)
  | nothing : data = [] → Answered c data addr c
  | panicked (d : Cfg) : d.panicked = true → Answered c data addr d
  | accepted (target : SocketAddr) (d : Cfg) : destination c addr = some (some target) →
      d.accepted = c.accepted ++ [⟨data, target⟩] → d.panicked = c.panicked → Answered c data addr d

theorem enqueue_accepted (c : Cfg) (d : Datagram) :
    (enqueue c d).accepted = c.accepted ∧ (enqueue c d).panicked = c.panicked := by
  unfold enqueue
  dsimp only
  split_ifs <;> exact ⟨rfl, rfl⟩

theorem sendto_answered (c : Cfg) (data : Bytes) (addr : Option (String × UInt16)) :
    Answered c data addr (sendto c data addr) := by
  unfold sendto
  split_ifs with closing empty
  · exact .raised _
  · exact .nothing empty
  · split
    · exact .panicked _ rfl
    · exact .raised _
    next target hto =>
      unfold write
      split_ifs
      · exact .panicked _ rfl
      · exact .panicked _ rfl
      · exact .accepted target _ hto (enqueue_accepted _ _).1 (enqueue_accepted _ _).2

/-- Calls of `sendto`, events, handles whose sends do not fail for good, and returns. -/
def Act.sends : Act → Bool
  | .call (.sendto _ _) => true
  | .call _ => false
  | .fire _ sent => !sendsFatal sent
  | .poll _ | .ret _ _ => true

/-- Where such a step sends as promised: a `sendto` with data finds, for the address it
computes, a free state and a buffer that is not empty, and the kernel cuts no datagram. -/
def SendsWhole (c : Cfg) : Act → Prop
  | .call (.sendto data addr) =>
      data = [] ∨
        match destination c addr with
        | none => False
        | some none => True
        | some (some _) => c.borrowed = false ∧ c.writeBufDsize ≠ 0
  | .fire _ sent => c.bound = true ∧ (c.event = some .writable → takesWhole sent c.writeBuf = true)
  | _ => True

instance sendsWholeDecidable (c : Cfg) : ∀ a : Act, Decidable (SendsWhole c a)
  | .call (.sendto data addr) => by
      dsimp only [SendsWhole]
      generalize destination c addr = target
      cases target with
      | none => exact (inferInstance : Decidable (data = [] ∨ False))
      | some target =>
          cases target with
          | none => exact (inferInstance : Decidable (data = [] ∨ True))
          | some target =>
              exact (inferInstance :
                Decidable (data = [] ∨ c.borrowed = false ∧ c.writeBufDsize ≠ 0))
  | .fire _ sent =>
      (inferInstance : Decidable (c.bound = true ∧
        (c.event = some .writable → takesWhole sent c.writeBuf = true)))
  | .call .close | .call .abort | .call
      (.setWriteBufferLimits _ _) | .call .getWriteBufferSize | .poll _
  | .ret _ _ => isTrue trivial

theorem enqueue_delivers {c : Cfg} (h : c.Delivers) (d : Datagram) :
    (enqueue { c with accepted := c.accepted ++ [d] } d).Delivers ∧
      (enqueue { c with accepted := c.accepted ++ [d] } d).closing = c.closing := by
  have order : c.handed ++ (c.writeBuf ++ [d]) = c.accepted ++ [d] := by
    rw [← List.append_assoc, h.inOrder]
  have size : c.writeBufDsize + d.size = totalSize (c.writeBuf ++ [d]) := by
    rw [totalSize_append, h.sized]
    rfl
  unfold enqueue
  dsimp only
  split_ifs <;> exact ⟨⟨h.calm, order, size⟩, rfl⟩

theorem sendto_keeps {c : Cfg} (opened : c.closing = false) (h : c.Delivers) (data : Bytes)
    (addr : Option (String × UInt16)) :
    (sendto c data addr).closing = false ∧
      (SendsWhole c (.call (.sendto data addr)) ∧ (sendto c data addr).Delivers ∨
        ¬ SendsWhole c (.call (.sendto data addr)) ∧ (sendto c data addr).Spoiled) := by
  unfold sendto SendsWhole
  rw [if_neg (by rw [opened]; exact Bool.false_ne_true)]
  by_cases empty : data = []
  · rw [if_pos empty]
    exact ⟨opened, .inl ⟨.inl empty, h⟩⟩
  rw [if_neg empty]
  simp only [empty, false_or]
  rcases destination c addr with _ | _ | target
  · exact ⟨opened, .inr ⟨id, .inl rfl⟩⟩
  · exact ⟨opened, .inl ⟨trivial, h.calm, h.inOrder, h.sized⟩⟩
  · unfold write
    dsimp only
    by_cases borrowed : c.borrowed = true
    · have free : ¬ (c.borrowed = false ∧ c.writeBufDsize ≠ 0) := fun good =>
        absurd (good.1.symm.trans borrowed) Bool.false_ne_true
      refine ⟨?_, .inr ⟨free, ?_⟩⟩
      · exact (congrArg Cfg.closing (if_pos borrowed)).trans opened
      · exact .inl (congrArg Cfg.panicked (if_pos borrowed))
    · have held : Cfg.borrowed { c with accepted := c.accepted ++ [⟨data, target⟩] } ≠ true :=
        borrowed
      rw [if_neg held]
      by_cases zero : c.writeBufDsize = 0
      · rw [if_pos zero]
        exact ⟨opened, .inr ⟨fun good => good.2 zero, .inl rfl⟩⟩
      · rw [if_neg zero]
        obtain ⟨delivers, closing⟩ := enqueue_delivers h ⟨data, target⟩
        exact ⟨closing.trans opened, .inl ⟨⟨Bool.eq_false_iff.mpr borrowed, zero⟩, delivers⟩⟩

theorem fire_keeps {c : Cfg} (opened : c.closing = false) (h : c.Delivers) {d : Dir}
    (made : c.event = some d) (received : List RecvResult) {sent : List WriteResult}
    (nonfatal : sendsFatal sent = false) :
    (fire { c with event := none } received sent d).closing = false ∧
      (SendsWhole c (.fire received sent) ∧
        (fire { c with event := none } received sent d).Delivers ∨
        ¬ SendsWhole c (.fire received sent) ∧
        (fire { c with event := none } received sent d).Spoiled) := by
  have taken : Carried c { c with event := none } := ⟨rfl, rfl, rfl, rfl, rfl, rfl⟩
  by_cases bound : c.bound = true
  · cases d with
    | readable =>
        have reads : fire { c with event := none } received sent .readable =
            readLoop { c with event := none } received := if_pos bound
        have carried := carried_readLoop { c with event := none } received
        rw [reads]
        refine ⟨carried.closing.trans opened, .inl ⟨⟨bound, fun writes => ?_⟩, ?_⟩⟩
        · rw [made] at writes
          cases writes
        · exact carried.delivers.mpr (taken.delivers.mpr h)
    | writable =>
        have writes : fire { c with event := none } received sent .writable =
            writeHandleRun { c with event := none } sent := if_pos bound
        have carried := carried_writeHandleRun { c with event := none } sent
        have pieces := sendLoop_pieces c.writeBuf nonfatal
        have kept : SendsWhole c (.fire received sent) ↔ takesWhole sent c.writeBuf = true := by
          simp [SendsWhole, bound, made]
        rw [writes, kept, carried.delivers, carried.spoiled]
        refine ⟨carried.closing.trans opened, ?_⟩
        by_cases whole : takesWhole sent c.writeBuf = true
        · rw [if_pos whole] at pieces
          refine .inl ⟨whole, h.calm, ?_, sendBuffer_total h.sized sent⟩
          calc c.handed ++ (sendLoop sent c.writeBuf).2.2 ++ (sendLoop sent c.writeBuf).1
              = c.handed ++ c.writeBuf := by rw [List.append_assoc, pieces]
            _ = c.accepted := h.inOrder
        · rw [if_neg whole] at pieces
          refine .inr ⟨whole, .inr ?_⟩
          change c.accepted.length <
            (c.handed ++ (sendLoop sent c.writeBuf).2.2).length +
            (sendLoop sent c.writeBuf).1.length
          rw [← h.inOrder, List.length_append, List.length_append]
          omega
  · have panics : fire { c with event := none } received sent d = Cfg.panic
        { c with event := none } := by
      cases d <;> exact if_neg bound
    rw [panics]
    exact ⟨opened, .inr ⟨fun good => bound good.1, .inl rfl⟩⟩

theorem step_sends {c d : Cfg} {a : Act} (sends : a.sends = true) (opened : c.closing = false)
    (hc : c.Delivers) (h : step c a = some d) :
    d.closing = false ∧ (SendsWhole c a ∧ d.Delivers ∨ ¬ SendsWhole c a ∧ d.Spoiled) := by
  obtain ⟨_, stepped⟩ := step_stepped h
  cases stepped with
  | call m =>
      cases m with
      | sendto data addr => exact sendto_keeps opened hc data addr
      | close | abort | setWriteBufferLimits | getWriteBufferSize => cases sends
  | poll dir => exact ⟨opened, .inl ⟨trivial, hc.calm, hc.inOrder, hc.sized⟩⟩
  | fire received sent dir _ made =>
      exact fire_keeps opened hc made received (Bool.eq_false_iff.mpr fun fatal =>
        by simp [Act.sends, fatal] at sends)
  | ret raised received f stack =>
      have carried := carried_after c stack f raised received
      exact ⟨carried.closing.trans opened, .inl ⟨trivial, carried.delivers.mpr hc⟩⟩

/-- Once a datagram is cut there stay too many pieces. -/
theorem sendto_spoiled {c : Cfg} (opened : c.closing = false) (h : c.Spoiled) (data : Bytes)
    (addr : Option (String × UInt16)) : (sendto c data addr).closing = false ∧
    (sendto c data addr).Spoiled := by
  unfold sendto
  split_ifs with closing
  · exact absurd (opened.symm.trans closing) Bool.false_ne_true
  · exact ⟨opened, h⟩
  · split
    · exact ⟨opened, .inl rfl⟩
    · exact ⟨opened, h⟩
    · unfold write enqueue
      dsimp only
      split_ifs
      · exact ⟨opened, .inl rfl⟩
      · exact ⟨opened, .inl rfl⟩
      all_goals
        refine ⟨opened, h.imp_right fun more => ?_⟩
        simp only [Cfg.pauseProto, Cfg.call, List.length_append, List.length_singleton]
        omega

theorem fire_spoiled {c : Cfg} (opened : c.closing = false) (h : c.Spoiled) (d : Dir)
    (received : List RecvResult) {sent : List WriteResult} (nonfatal : sendsFatal sent = false) :
    (fire { c with event := none } received sent d).closing = false ∧
      (fire { c with event := none } received sent d).Spoiled := by
  have taken : Carried c { c with event := none } := ⟨rfl, rfl, rfl, rfl, rfl, rfl⟩
  unfold fire
  cases d with
  | readable =>
      dsimp only
      split_ifs
      · have carried := carried_readLoop { c with event := none } received
        exact ⟨carried.closing.trans opened, carried.spoiled.mpr (taken.spoiled.mpr h)⟩
      · exact ⟨opened, .inl rfl⟩
  | writable =>
      dsimp only
      split_ifs
      · have carried := carried_writeHandleRun { c with event := none } sent
        have pieces : c.writeBuf.length ≤
            (sendLoop sent c.writeBuf).2.2.length + (sendLoop sent c.writeBuf).1.length := by
          have pieces := sendLoop_pieces c.writeBuf nonfatal
          split_ifs at pieces
          · have lengths := congrArg List.length pieces
            rw [List.length_append] at lengths
            omega
          · omega
        rw [carried.spoiled]
        refine ⟨carried.closing.trans opened, h.imp_right fun more => ?_⟩
        change c.accepted.length <
          (c.handed ++ (sendLoop sent c.writeBuf).2.2).length + (sendLoop sent c.writeBuf).1.length
        rw [List.length_append]
        omega
      · exact ⟨opened, .inl rfl⟩

theorem step_spoiled {c d : Cfg} {a : Act} (sends : a.sends = true) (opened : c.closing = false)
    (hc : c.Spoiled) (h : step c a = some d) : d.closing = false ∧ d.Spoiled := by
  obtain ⟨_, stepped⟩ := step_stepped h
  cases stepped with
  | call m =>
      cases m with
      | sendto data addr => exact sendto_spoiled opened hc data addr
      | close | abort | setWriteBufferLimits | getWriteBufferSize => cases sends
  | poll dir => exact ⟨opened, hc⟩
  | fire received sent dir =>
      exact fire_spoiled opened hc dir received (Bool.eq_false_iff.mpr fun fatal =>
        by simp [Act.sends, fatal] at sends)
  | ret raised received f stack =>
      have carried := carried_after c stack f raised received
      exact ⟨carried.closing.trans opened, carried.spoiled.mpr hc⟩

/-- From any open transport, whatever code is in progress: every `sendto` is answered, and
a run keeps its promise to every datagram exactly when each of its steps meets the
condition. -/
theorem sendto_delivers {c d : Cfg} {actions : List Act} (opened : c.closing = false)
    (fresh : c.Delivers) (sends : ∀ a ∈ actions, a.sends = true)
    (h : Runs.run step c actions = some d) :
    (∀ u v data addr, step u (.call (.sendto data addr)) = some v → Answered u data addr v) ∧
      (d.Delivers ↔ Runs.Guarded step SendsWhole c actions) := by
  constructor
  · intro u v data addr first
    obtain ⟨_, stepped⟩ := step_stepped first
    cases stepped with
    | call => exact sendto_answered u data addr
  · refine Runs.run_exact (C := fun a => a.sends = true) (P := Cfg.Delivers)
      (I := fun c => c.closing = false ∧ (c.Delivers ∨ c.Spoiled)) ?_ ?_ ?_ h sends
      ⟨opened, .inl fresh⟩ fresh
    · rintro s a t ha ⟨hs, delivers | spoiled⟩ first
      · obtain ⟨ht, rest⟩ := step_sends ha hs delivers first
        exact ⟨ht, rest.imp And.right And.right⟩
      · obtain ⟨ht, rest⟩ := step_spoiled ha hs spoiled first
        exact ⟨ht, .inr rest⟩
    · rintro s a t ha ⟨hs, _⟩ delivers first
      rcases (step_sends ha hs delivers first).2 with ⟨good, kept⟩ | ⟨bad, spoiled⟩
      · exact iff_of_true kept good
      · exact iff_of_false (fun kept => kept.not_spoiled spoiled) bad
    · rintro s a t ha ⟨hs, rest⟩ lost first kept
      exact kept.not_spoiled (step_spoiled ha hs (rest.resolve_left lost) first).2

/-- With a datagram in the buffer another one joins it, and both leave whole. -/
theorem sendto_delivers_queued :
    ∃ d, Runs.run step (waiting none [⟨[7], ⟨.v4 [127, 0, 0, 1], 9⟩⟩])
        [.call (.sendto [8, 8] (some ("::1", 9))), .poll .writable,
          .fire [] [.interrupted, .ok 1, .ok 2]] = some d ∧
      d.Delivers := by
  refine ⟨_, rfl, (sendto_delivers rfl ⟨rfl, rfl, rfl⟩ ?_ (rfl :
    Runs.run step (waiting none [⟨[7], ⟨.v4 [127, 0, 0, 1], 9⟩⟩])
      [.call (.sendto [8, 8] (some ("::1", 9))), .poll .writable,
        .fire [] [.interrupted, .ok 1, .ok 2]] = some _)).2.mpr ?_⟩ <;> decide

/-- On a new transport the first `sendto` panics on the borrow, with data for any address;
with a datagram in the buffer one for a text that is no address panics on the text. -/
theorem first_sendto_panics :
    (Runs.run step (connecting none)
      [.ret false [], .call (.sendto [1] (some ("127.0.0.1", 9)))]).map
        Cfg.panicked = some true ∧
      (Runs.run step (waiting none [⟨[7], ⟨.v4 [127, 0, 0, 1], 9⟩⟩])
        [.call (.sendto [1] (some ("localhost", 9)))]).map Cfg.panicked = some true := by
  decide

end TokioLoop.Udp
