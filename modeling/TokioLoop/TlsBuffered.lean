import TokioLoop.TlsEof
import TokioLoop.TlsTrace

/-!
TLS with a buffered protocol. Whether `recv_buffered` or `recv_direct` runs depends on the
protocol alone, and only `recv_direct` gives the bytes to rustls: a `BufferedProtocol` is
handed the ciphertext, and its handshake never ends.
-/
namespace TokioLoop.Tcp

open Runs

variable {σ : Type} {R : Rustls σ}

/-- Two transports with the same connection and the same bytes in their sockets, for a
plain and for a buffered protocol. -/
structure SameStream (R : Rustls σ) (s s' : Reader σ) : Prop where
  direct : TlsStart R s.cfg ∧ s.cfg.tr.protoBuffered = false ∧ s.calls = []
  buffered : TlsStart R s'.cfg ∧ s'.cfg.tr.protoBuffered = true ∧ s'.calls = []
  conn : s'.cfg.tr.state.tlsConn = s.cfg.tr.state.tlsConn
  stream : bytesIn s'.sock = bytesIn s.sock

/-- The same plaintext, and the handshake complete in both or in none. -/
def SamePlaintext (t t' : Reader σ) : Prop :=
  t'.cfg.delivered = t.cfg.delivered ∧
    (t'.cfg.tr.state.handshakeComplete = true ↔ t.cfg.tr.state.handshakeComplete = true)

/-- A step that does not read leaves the inbound side alone, and so does a `get_buffer`;
the others receive. -/
inductive Heard (R : Rustls σ) (w t : Reader σ) : Prop where
  | silent : t.calls = w.calls → t.cfg.delivered = w.cfg.delivered →
      t.cfg.tr.state.handshakeComplete = w.cfg.tr.state.handshakeComplete →
      t.cfg.tr.protoBuffered = w.cfg.tr.protoBuffered →
      t.cfg.tr.state.tlsConn.isSome = w.cfg.tr.state.tlsConn.isSome →
      (.getBuffer ∈ t.cfg.stack → .getBuffer ∈ w.cfg.stack ∨ w.cfg.tr.protoBuffered = true) →
      Heard R w t
  | direct (c : Cfg σ) (env : Env) : w.cfg.tr.protoBuffered = false → c.tr = w.cfg.tr →
      c.callbacks = w.cfg.callbacks → (.getBuffer ∈ c.stack → .getBuffer ∈ w.cfg.stack) →
      t.cfg = received (recvDirect R c env) →
      t.calls = w.calls ++ (readCalls readBufSize env.reads).1 → Heard R w t
  | buffered (c : Cfg σ) (size : Nat) (env : Env) : .getBuffer ∈ w.cfg.stack → c.tr = w.cfg.tr →
      c.callbacks = w.cfg.callbacks → t.cfg = recvBuffered c size env →
      t.calls = w.calls ++ (readCalls size env.reads).1 → Heard R w t

theorem Mute.heard {w t : Reader σ} (h : Mute (Conserving.any R) w.cfg t.cfg)
    (calls : t.calls = w.calls) :
    Heard R w t := by
  obtain ⟨silent, made, quiet⟩ := h.calls
  refine .silent calls ?_ h.handshake h.buffered h.tls fun buffer => .inl (h.frames _ buffer rfl)
  rw [delivered_append made, payload_of_silent fun e member => (quiet e member).1, List.append_nil]

/-- A call into the protocol that brings no data. -/
theorem call_heard {w t : Reader σ} {c : Cfg σ} {e : Callback} {frame : Frame}
    (one : t.cfg = c.call e frame) (calls : t.calls = w.calls) (tr : c.tr = w.cfg.tr)
    (callbacks : c.callbacks = w.cfg.callbacks) (empty : e.payload = [])
    (stack : ∀ frame ∈ c.stack, frame ∈ w.cfg.stack)
    (kind : frame = .getBuffer → w.cfg.tr.protoBuffered = true) : Heard R w t := by
  have same : t.cfg.tr = w.cfg.tr := by
    rw [one]
    exact tr
  refine .silent calls ?_ (by rw [same]) (by rw [same]) (by rw [same]) fun buffer => ?_
  · rw [one, delivered_append (callbacks_call c e frame), Cfg.delivered, callbacks]
    simp [Cfg.delivered, empty]
  · rw [one] at buffer
    exact (List.mem_cons.mp buffer).symm.imp (stack _) fun asks => kind asks.symm

/-- A round of the read handle. -/
theorem readRound_heard {w t : Reader σ} {c : Cfg σ} {env : Env} (one : t.cfg = readRound R c env)
    (tr : c.tr = w.cfg.tr) (callbacks : c.callbacks = w.cfg.callbacks)
    (stack : ∀ frame ∈ c.stack, frame ∈ w.cfg.stack)
    (calls : t.calls = if w.cfg.tr.protoBuffered = true then w.calls
      else w.calls ++ (readCalls readBufSize env.reads).1) : Heard R w t := by
  rw [readRound, tr] at one
  by_cases kind : w.cfg.tr.protoBuffered = true
  · rw [if_pos kind] at one calls
    exact call_heard one calls tr callbacks rfl stack fun _ => kind
  · rw [if_neg kind] at one calls
    exact .direct c env (Bool.eq_false_iff.mpr kind) tr callbacks (stack _) one calls

/-- The calls of `read(2)` of an action. -/
theorem receive_made {w t : Reader σ} {act : Act} {env : Env}
    (h : receive R w (act, env) = some t) : ∃ env, step R w.cfg (act, env) = some t.cfg ∧
      t.calls = w.calls ++ (roomOf w.cfg act).elim [] fun room => (readCalls room env.reads).1 := by
  cases room : roomOf w.cfg act with
  | none =>
      obtain ⟨one, same⟩ := receive_quiet room h
      refine ⟨env, one, ?_⟩
      rw [same]
      exact (List.append_nil _).symm
  | some n =>
      obtain ⟨one, -, made⟩ := receive_reads room h
      exact ⟨_, one, made⟩

theorem ret_heard {w t : Reader σ} {env : Env} {r : Ret} {frame : Frame} {stack : List Frame}
    (top : w.cfg.stack = frame :: stack)
    (one : t.cfg = frame.after R { w.cfg with stack := stack } r env)
    (made : t.calls = w.calls ++ (roomOf w.cfg (.ret r)).elim [] fun room =>
      (readCalls room env.reads).1) :
    Heard R w t := by
  have below : ∀ other ∈ stack, other ∈ w.cfg.stack :=
    fun other member => top ▸ List.mem_cons_of_mem frame member
  have popped : Mute (Conserving.any R) w.cfg { w.cfg with stack := stack } :=
    { Mute.refl (Conserving.any R) w.cfg with frames := fun other member _ => below other member }
  have same : roomOf w.cfg (.ret r) = none → t.calls = w.calls := fun none => by
    rw [made, none]
    exact List.append_nil _
  have head : w.cfg.stack.head? = some frame := by rw [top, List.head?_cons]
  cases frame with
  | getBuffer =>
      cases r with
      | buffer size =>
          have room : roomOf w.cfg (.ret (.buffer size)) = some size := by simp only [roomOf, head]
          rw [room] at made
          exact .buffered { w.cfg with stack := stack } size env
            (top ▸ List.mem_cons_self) rfl rfl one made
      | falsy | truthy | raised =>
          have panics : Mute (Conserving.any R) { w.cfg with stack := stack } t.cfg := by
            rw [one]
            exact .same rfl rfl rfl rfl rfl rfl
          exact (popped.trans panics).heard (same (by simp only [roomOf, head]))
  | data ended =>
      cases ended with
      | true =>
          exact call_heard (c := ({ w.cfg with stack := stack } : Cfg σ).streamRem .readable) one
            (same (by simp only [roomOf, head])) rfl rfl rfl below Frame.noConfusion
      | false =>
          refine readRound_heard (c := { w.cfg with stack := stack }) one rfl rfl below ?_
          by_cases kind : w.cfg.tr.protoBuffered = true
          · rw [if_pos kind]
            exact same (by simp only [roomOf, head, if_pos kind])
          · have room : roomOf w.cfg (.ret r) = some readBufSize := by
              simp only [roomOf, head, if_neg kind]
            rw [if_neg kind, made, room]
            rfl
  | eof =>
      have quiet := eofReceived_mute (Conserving.any R) { w.cfg with stack := stack }
        (r == .truthy) env
      refine Mute.heard ?_ (same (by simp only [roomOf, head]))
      rw [one]
      exact popped.trans quiet
  | attach | connectionMade | pause | lost | resume =>
      refine Mute.heard ?_ (same (by simp only [roomOf, head]))
      rw [one]
      exact popped.trans (after_mute _ _ rfl r env)

theorem fire_heard {w t : Reader σ} {env : Env} {dir : Dir} (event : w.cfg.tables.event = some dir)
    (one : t.cfg = fire R { w.cfg with tables := { w.cfg.tables with event := none } } dir env)
    (made : t.calls = w.calls ++ (roomOf w.cfg .fire).elim [] fun room =>
      (readCalls room env.reads).1) :
    Heard R w t := by
  have taken : Mute (Conserving.any R) w.cfg
      { w.cfg with tables := { w.cfg.tables with event := none } } :=
    .same rfl rfl rfl rfl rfl rfl
  have same : roomOf w.cfg .fire = none → t.calls = w.calls := fun none => by
    rw [made, none]
    exact List.append_nil _
  by_cases bound : w.cfg.tables.bound = true
  · rw [fire.eq_def, if_pos bound] at one
    cases dir with
    | readable =>
        refine readRound_heard (c := { w.cfg with tables := { w.cfg.tables with event := none } })
          one rfl rfl (fun _ => id) ?_
        by_cases kind : w.cfg.tr.protoBuffered = true
        · rw [if_pos kind]
          exact same (by simp [roomOf, kind])
        · have room : roomOf w.cfg .fire = some readBufSize := by simp [roomOf, event, bound, kind]
          rw [if_neg kind, made, room]
          rfl
    | writable =>
        refine Mute.heard ?_ (same (by simp [roomOf, event]))
        rw [one]
        exact taken.trans (writeHandleRun_mute _ _ env)
  · rw [fire.eq_def, if_neg bound] at one
    exact Mute.heard (one ▸ taken) (same (by simp [roomOf, bound]))

theorem stepped_heard {w t : Reader σ} {act : Act} {env : Env} {d : Cfg σ}
    (stepped : Stepped R w.cfg env act d) (one : t.cfg = d)
    (made : t.calls = w.calls ++ (roomOf w.cfg act).elim [] fun room =>
      (readCalls room env.reads).1) :
    Heard R w t := by
  cases stepped with
  | call m exposed =>
      exact Mute.heard (one ▸ method_mute _ _ env m) (made.trans (List.append_nil _))
  | server aborts bound listed =>
      exact Mute.heard (one ▸ method_mute _ _ env _) (made.trans (List.append_nil _))
  | ret r frame stack top => exact ret_heard top one made
  | poll dir free none ready =>
      exact Mute.heard (one ▸ .same rfl rfl rfl rfl rfl rfl) (made.trans (List.append_nil _))
  | fire dir free event quiet => exact fire_heard event one made
  | made free pending =>
      exact call_heard one (made.trans (List.append_nil _)) rfl rfl rfl
        (fun _ => id) Frame.noConfusion

theorem step_heard {w t : Reader σ} {a : Act × Env} (h : receive R w a = some t) : Heard R w t := by
  obtain ⟨env, one, made⟩ := receive_made h
  exact stepped_heard (step_stepped one).2 rfl made

/-- With a plain protocol nothing is delivered before the handshake, which takes bytes. -/
structure Unbuffered (w : Reader σ) : Prop where
  tls : w.cfg.tr.state.tlsConn.isSome = true
  kind : w.cfg.tr.protoBuffered = false
  frames : .getBuffer ∉ w.cfg.stack
  shaken : w.cfg.tr.state.handshakeComplete = true → bytesOf w.calls ≠ []
  after : w.cfg.delivered ≠ [] → w.cfg.tr.state.handshakeComplete = true

/-- With a buffered one the bytes of the socket are delivered as they are. -/
structure Buffered (w : Reader σ) : Prop where
  kind : w.cfg.tr.protoBuffered = true
  shaken : w.cfg.tr.state.handshakeComplete = false
  raw : w.cfg.delivered = bytesOf w.calls

/-- The handshake ends in a receive that brought bytes, and before data is returned. -/
structure Shaken (c : Cfg σ) (bytes : Bytes) (got : Cfg σ × Option Bytes × Bool) : Prop where
  fed : got.1.tr.state.handshakeComplete = true → c.tr.state.handshakeComplete = true ∨ bytes ≠ []
  kept : c.tr.state.handshakeComplete = true → got.1.tr.state.handshakeComplete = true
  data : ∀ data, got.2.1 = some data → got.1.tr.state.handshakeComplete = true

theorem recvPlaintext_shaken (c : Cfg σ) (conn : σ) {bytes : Bytes} (some : bytes ≠ []) :
    Shaken c bytes (recvPlaintext R c conn) := by
  obtain ⟨-, -, -, -, complete, -⟩ := checkHandshake_spec (R := R) c conn
  simp only [recvPlaintext]
  generalize hd : (if R.wantsWrite conn = true
    then (checkHandshake R (c.setConn conn) conn).streamAdd .writable
    else checkHandshake R (c.setConn conn) conn) = d
  obtain ⟨tr, -⟩ := streamAdd_if hd
  rw [← tr] at complete
  have kept : c.tr.state.handshakeComplete = true → d.tr.state.handshakeComplete = true :=
    fun before => complete.mpr (.inl before)
  split_ifs with done empty
  · exact ⟨fun _ => .inr some, kept, fun _ _ => done⟩
  · exact ⟨fun _ => .inr some, kept, fun _ _ => done⟩
  · exact ⟨fun _ => .inr some, kept, fun _ there => by cases there⟩

theorem feedTls_shaken (c : Cfg σ) (conn : σ) {bytes : Bytes} (some : bytes ≠ []) :
    Shaken c bytes (feedTls R c conn bytes) := by
  simp only [feedTls]
  split
  next => exact ⟨fun _ => .inr some, id, fun _ there => by cases there⟩
  next conn₁ n hread =>
    split
    · exact ⟨fun _ => .inr some, id, fun _ there => by cases there⟩
    · exact ⟨fun _ => .inr some, id, fun _ there => by cases there⟩
    next conn₂ hprocess =>
      have shaken := recvPlaintext_shaken (R := R) (c.emit (.fed bytes n)) conn₂ some
      exact ⟨shaken.fed, shaken.kept, shaken.data⟩

theorem recvDirect_shaken {c : Cfg σ} (tls : c.tr.state.tlsConn.isSome = true) (env : Env) :
    Shaken c (readInto readBufSize env.reads).1 (recvDirect R c env) := by
  obtain ⟨conn, hconn⟩ := Option.isSome_iff_exists.mp tls
  simp only [recvDirect, hconn]
  split_ifs with none
  · exact ⟨.inl, id, fun _ there => by cases there⟩
  · have shaken := feedTls_shaken (R := R) (c.emit (.recvTls (readInto readBufSize env.reads).1))
      conn none
    exact ⟨shaken.fed, shaken.kept, shaken.data⟩

theorem received_buffer {r : Cfg σ × Option Bytes × Bool} (h : .getBuffer ∈ (received r).stack) :
    .getBuffer ∈ r.1.stack := by
  obtain ⟨c, data, eof⟩ := r
  cases data with
  | some data => exact (List.mem_cons.mp h).resolve_left Frame.noConfusion
  | none =>
      cases eof with
      | true => exact (List.mem_cons.mp h).resolve_left Frame.noConfusion
      | false => exact h

theorem received_delivered (r : Cfg σ × Option Bytes × Bool) :
    (received r).delivered = r.1.delivered ++ r.2.1.getD [] := by
  obtain ⟨c, data, eof⟩ := r
  cases data with
  | some data =>
      rw [received, delivered_append (callbacks_call c _ _)]
      simp [Callback.payload]
  | none =>
      cases eof with
      | true =>
          have called : (recvEof c).callbacks = c.callbacks ++ [.eofReceived] :=
            callbacks_call (c.streamRem .readable) _ _
          rw [received, delivered_append called]
          rfl
      | false => exact (List.append_nil _).symm

/-- A receive with a plain protocol. -/
theorem Unbuffered.receives {w t : Reader σ} {c : Cfg σ} {env : Env} (inv : Unbuffered w)
    (tr : c.tr = w.cfg.tr) (callbacks : c.callbacks = w.cfg.callbacks)
    (stack : .getBuffer ∈ c.stack → .getBuffer ∈ w.cfg.stack)
    (one : t.cfg = received (recvDirect R c env))
    (made : t.calls = w.calls ++ (readCalls readBufSize env.reads).1) :
    Unbuffered t := by
  have tls : c.tr.state.tlsConn.isSome = true := tr ▸ inv.tls
  have got := recvDirect_received (R := R) tls env
  have shaken := recvDirect_shaken (R := R) tls env
  have all : bytesOf t.calls = bytesOf w.calls ++ (readInto readBufSize env.reads).1 := by
    rw [made, bytesOf_append, (readCalls_summed readBufSize env.reads).bytes]
  have tr' : t.cfg.tr = (recvDirect R c env).1.tr := by rw [one, received_tr]
  refine ⟨tr' ▸ got.tls, ?_, ?_, fun done => ?_, fun some => ?_⟩
  · rw [tr', got.buffered, tr]
    exact inv.kind
  · rw [one]
    exact fun buffer => inv.frames (stack (got.stack ▸ received_buffer buffer))
  · rw [tr'] at done
    rw [all]
    rcases shaken.fed done with before | fed
    · rw [tr] at before
      exact List.append_ne_nil_of_left_ne_nil (inv.shaken before) _
    · exact List.append_ne_nil_of_right_ne_nil _ fed
  · have old : (recvDirect R c env).1.delivered = w.cfg.delivered := by
      rw [Cfg.delivered, got.callbacks, callbacks]
      rfl
    rw [one, received_delivered, old] at some
    rw [tr']
    by_cases before : w.cfg.delivered = []
    · obtain ⟨data, there⟩ : ∃ data, (recvDirect R c env).2.1 = Option.some data := by
        refine Option.ne_none_iff_exists'.mp fun none => some ?_
        rw [before, none]
        rfl
      exact shaken.data data there
    · exact shaken.kept (tr ▸ inv.after before)

theorem step_unbuffered {w t : Reader σ} {a : Act × Env} (inv : Unbuffered w)
    (h : receive R w a = some t) :
    Unbuffered t := by
  cases step_heard h with
  | silent calls delivered handshake kind tls frames =>
      refine ⟨tls.trans inv.tls, kind.trans inv.kind, fun buffer => ?_, ?_, ?_⟩
      · rcases frames buffer with old | other
        · exact inv.frames old
        · rw [inv.kind] at other
          cases other
      · rw [handshake, calls]
        exact inv.shaken
      · rw [handshake, delivered]
        exact inv.after
  | direct c env kind tr callbacks stack one made => exact inv.receives tr callbacks stack one made
  | buffered c size env top => exact absurd top inv.frames

theorem step_buffered {w t : Reader σ} {a : Act × Env} (inv : Buffered w)
    (h : receive R w a = some t) :
    Buffered t := by
  cases step_heard h with
  | silent calls delivered handshake kind tls frames =>
      refine ⟨kind.trans inv.kind, handshake.trans inv.shaken, ?_⟩
      rw [delivered, calls]
      exact inv.raw
  | direct c env kind =>
      rw [inv.kind] at kind
      cases kind
  | buffered c size env top tr callbacks one made =>
      have tr' : t.cfg.tr = w.cfg.tr := by
        rw [one, recvBuffered, received_tr]
        exact tr
      refine ⟨tr' ▸ inv.kind, tr' ▸ inv.shaken, ?_⟩
      have old : (c.emit (.recv (readInto size env.reads).1)).delivered = w.cfg.delivered := by
        rw [Cfg.delivered, callbacks_append rfl (List.forall_mem_singleton.mpr rfl), callbacks]
        rfl
      have data : (if (readInto size env.reads).1 = [] then none
        else some (readInto size env.reads).1).getD [] =
          bytesOf (readCalls size env.reads).1 := by
        rw [← (readCalls_summed size env.reads).bytes]
        split_ifs with none
        · exact none.symm
        · rfl
      rw [one, recvBuffered, received_delivered, made, bytesOf_append, ← inv.raw, ← old, ← data]

theorem TlsStart.shaken {c : Cfg σ} (h : TlsStart R c) :
    c.tr.state.handshakeComplete = false ∧ .getBuffer ∉ c.stack ∧ c.delivered = [] := by
  cases h with
  | accepted => exact ⟨rfl, List.not_mem_nil, rfl⟩
  | connected =>
      simp only [Tcp.connected]
      split_ifs <;> exact ⟨rfl, List.not_mem_nil, rfl⟩

theorem SameStream.unbuffered {s s' t : Reader σ} {actions : List (Act × Env)}
    (h : SameStream R s s') (reads : run (receive R) s actions = some t) : Unbuffered t := by
  obtain ⟨start, kind, fresh⟩ := h.direct
  obtain ⟨shaken, frames, delivered⟩ := start.shaken
  refine run_invariant (I := Unbuffered) (fun _ _ _ => step_unbuffered) reads
    ⟨start.fresh.1, kind, frames, fun done => ?_, fun some => absurd delivered some⟩
  rw [shaken] at done
  cases done

theorem SameStream.raw {s s' t' : Reader σ} {more : List (Act × Env)} (h : SameStream R s s')
    (reads : run (receive R) s' more = some t') : Buffered t' := by
  obtain ⟨start, kind, fresh⟩ := h.buffered
  obtain ⟨shaken, -, delivered⟩ := start.shaken
  refine run_invariant (I := Buffered) (fun _ _ _ => step_buffered) reads ⟨kind, shaken, ?_⟩
  rw [delivered, fresh]
  rfl

/-- The calls have brought the front of the stream. -/
theorem reads_front {s t : Reader σ} {actions : List (Act × Env)} (fresh : s.calls = [])
    (reads : run (receive R) s actions = some t) :
    bytesOf t.calls ++ bytesIn t.sock = bytesIn s.sock := by
  refine run_invariant (I := fun w => bytesOf w.calls ++ bytesIn w.sock = bytesIn s.sock)
    (fun w a t inv one => ?_) reads (by rw [fresh]; rfl)
  cases room : roomOf w.cfg a.1 with
  | none =>
      rw [(receive_quiet room one).2]
      exact inv
  | some n =>
      obtain ⟨-, sock, made⟩ := receive_reads room one
      rw [made, sock, bytesOf_append, List.append_assoc, readCalls_bytes, inv]

/-- Once something of a stream is read by a plain and by a buffered protocol, they do not
receive the same; they do just if the stream is empty. -/
theorem tls_buffered_plaintext (R : Rustls σ) {s s' t t' : Reader σ}
    {actions more : List (Act × Env)} (same : SameStream R s s')
    (direct : run (receive R) s actions = some t) (buffered : run (receive R) s' more = some t')
    (begun : bytesIn s.sock ≠ [] → bytesOf t.calls ≠ [] ∧ bytesOf t'.calls ≠ []) :
    SamePlaintext t t' ↔ bytesIn s.sock = [] := by
  have plain := same.unbuffered direct
  have raw := same.raw buffered
  constructor
  · rintro ⟨delivered, shaken⟩
    by_contra some
    have done := plain.after (by rw [← delivered, raw.raw]; exact (begun some).2)
    rw [raw.shaken] at shaken
    exact Bool.false_ne_true (shaken.mpr done)
  · intro empty
    have none : bytesOf t.calls = [] :=
      (List.append_eq_nil_iff.mp ((reads_front same.direct.2.2 direct).trans empty)).1
    have none' : bytesOf t'.calls = [] :=
      (List.append_eq_nil_iff.mp ((reads_front same.buffered.2.2 buffered).trans
        (same.stream.trans empty))).1
    have early : t.cfg.tr.state.handshakeComplete = false :=
      Bool.eq_false_iff.mpr fun done => plain.shaken done none
    refine ⟨?_, by rw [raw.shaken, early]⟩
    rw [raw.raw, none']
    by_contra some
    exact absurd (plain.after (Ne.symm some)) (by rw [early]; exact Bool.false_ne_true)

/-- An accepted connection and the first byte of its handshake, with one byte of data. -/
def incoming (protoBuffered : Bool) : Reader NullTls :=
  ⟨accepted 3 (some ⟨false, [], [], []⟩) protoBuffered 1000, [.data [9, 5]], []⟩

theorem incoming_same : SameStream nullTls (incoming false) (incoming true) :=
  ⟨⟨.accepted _ _ _ _, rfl, rfl⟩, ⟨.accepted _ _ _ _, rfl, rfl⟩, rfl, rfl⟩

def readable : List (Act × Env) := [(.poll .readable, ⟨[], [], 0⟩), (.fire, ⟨[], [], 0⟩)]

/-- The plain protocol gets the byte of data, the buffered one both bytes as they came. -/
theorem tls_buffered_ciphertext : ∃ t t', SameStream nullTls (incoming false) (incoming true) ∧
    run (receive nullTls) (incoming false) readable = some t ∧
    run (receive nullTls) (incoming true) (readable ++ [bufferReturned 8]) = some t' ∧
    t.cfg.delivered = [5] ∧ t.cfg.tr.state.handshakeComplete = true ∧
    t'.cfg.delivered = [9, 5] ∧ t'.cfg.tr.state.handshakeComplete = false ∧
    ¬ SamePlaintext t t' := by
  have both : ∃ t t', run (receive nullTls) (incoming false) readable = some t ∧
      run (receive nullTls) (incoming true) (readable ++ [bufferReturned 8]) = some t' ∧
      t.cfg.delivered = [5] ∧ t.cfg.tr.state.handshakeComplete = true ∧
      t'.cfg.delivered = [9, 5] ∧ t'.cfg.tr.state.handshakeComplete = false :=
    ⟨_, _, rfl, rfl, rfl, rfl, rfl, rfl⟩
  obtain ⟨t, t', direct, buffered, data, done, raw, early⟩ := both
  refine ⟨t, t', incoming_same, direct, buffered, data, done, raw, early, fun same => ?_⟩
  have one := same.1
  rw [data, raw] at one
  exact absurd one (by decide)

theorem tls_buffered_plaintext_read :
    ∃ t t', run (receive nullTls) (incoming false) readable = some t ∧
    run (receive nullTls) (incoming true) (readable ++ [bufferReturned 8]) = some t' ∧
    ¬ SamePlaintext t t' := by
  have both : ∃ t t', run (receive nullTls) (incoming false) readable = some t ∧
      run (receive nullTls) (incoming true) (readable ++ [bufferReturned 8]) = some t' ∧
      bytesOf t.calls = [9, 5] ∧ bytesOf t'.calls = [9, 5] := ⟨_, _, rfl, rfl, rfl, rfl⟩
  obtain ⟨t, t', direct, buffered, read, read'⟩ := both
  have begun : bytesIn (incoming false).sock ≠ [] → bytesOf t.calls ≠ [] ∧ bytesOf t'.calls ≠ [] :=
      fun _ => by
    rw [read, read']
    decide
  refine ⟨t, t', direct, buffered, fun same => ?_⟩
  have empty := (tls_buffered_plaintext nullTls incoming_same direct buffered begun).mp same
  exact absurd empty (by decide)

end TokioLoop.Tcp
