import TokioLoop.TcpFrames
import TokioLoop.TlsStreams

/-!
The ciphertext a TLS transport sends. `write_tls` empties rustls into a local buffer
that one `write(2)` may leave partly unsent, in two places of the write handle and in
two places that send the close alert. `Careful` says what the kernel and rustls must
not do in a step for the stream to survive it.
-/
namespace TokioLoop.Tcp
open ByteLedger

variable {σ : Type} {R : Rustls σ}

def Obs.producedBytes : Obs → Bytes
  | .flushed _ out _ _ => out.getD []
  | _ => []

/-- The bytes `write_tls` gave. -/
def Cfg.producedBytes (c : Cfg σ) : Bytes := c.log.flatMap Obs.producedBytes

/-- `WRITABLE` is registered. -/
def Cfg.armed (c : Cfg σ) : Prop := c.tables.interest.any (Interest.has .writable) = true

/-- rustls has nothing to send. -/
def Cfg.quiet (R : Rustls σ) (c : Cfg σ) : Prop :=
  ∀ conn, c.tr.state.tlsConn = some conn → R.wantsWrite conn = false

/-- Nothing is sent out of order; until `connection_lost` nothing is discarded, and
`WRITABLE` is registered as long as there is something to send. -/
structure Outgoing (R : Rustls σ) (c : Cfg σ) : Prop where
  order : c.kernelBytes <+: c.producedBytes
  complete : c.lost ∨ c.kernelBytes = c.producedBytes
  armed : c.lost ∨ c.armed ∨ (c.quiet R ∧ c.tr.state.writeBuf = [])

/-- Each call of `write_tls` succeeds and empties rustls, and the kernel takes all it
gave. In a write handle of a closing transport rustls may keep a part and the kernel
may fail or take a part, or, with no data and no alert to send, block. When rustls ends
the connection it has nothing to send, `WRITABLE` is registered already or the
connection is lost. -/
def FlushOk (c : Cfg σ) : Obs → Prop
  | .flushed alert out more r =>
      out.isSome = true ∧ (r.taken (out.getD []) = out.getD [] ∧ more = false ∨
      alert = false ∧ c.tr.closing = true ∧
        (r ≠ .wouldBlock ∨ c.tr.state.writeBuf = [] ∧ c.tr.state.tlsPendingClose = false))
  | .tlsError more | .closeNotify more => more = false ∨ c.armed ∨ c.lost
  | _ => True

/-- The observations of the step are as `FlushOk` asks. -/
def Careful (R : Rustls σ) (c : Cfg σ) (a : Act × Env) : Prop :=
  ∀ d obs, step R c a = some d → d.log = c.log ++ obs → ∀ o ∈ obs, FlushOk c o

structure Base (c : Cfg σ) : Prop where
  tls : c.tr.state.tlsConn.isSome = true
  size : c.tr.state.writeBufDsize = held c.tr.state.writeBuf
  chunks : ∀ chunk ∈ c.tr.state.writeBuf, chunk ≠ []
  noAttach : Frame.attach ∉ c.stack
  bottom : ∀ frame ∈ c.stack.dropLast, frame.nested = true
  lostFrames : ∀ k, Frame.lost k ∈ c.stack → c.lost

/-- Everything produced was sent, and what is left to send is registered. -/
structure Good (R : Rustls σ) (c : Cfg σ) : Prop where
  sent : c.kernelBytes = c.producedBytes
  rest : c.lost ∨ (c.armed ∨ c.quiet R ∧ c.tr.state.writeBuf = []) ∧
    (Frame.resume ∈ c.stack → c.quiet R ∨ c.tr.closing = true)

/-- Something was discarded, and nothing will be sent any more. -/
structure Dying (c : Cfg σ) : Prop where
  order : c.kernelBytes <+: c.producedBytes
  lost : c.lost
  closing : c.tr.closing = true
  noResume : Frame.resume ∉ c.stack

structure Dead (c : Cfg σ) : Prop extends Dying c where
  unbound : c.tables.bound = true → Frame.lost .writeHandle ∈ c.stack

structure Inv (R : Rustls σ) (c : Cfg σ) : Prop where
  base : Base c
  state : Good R c ∨ Dead c

theorem Inv.outgoing {c : Cfg σ} (inv : Inv R c) : Outgoing R c := by
  rcases inv.state with good | dead
  · refine ⟨good.sent ▸ List.prefix_refl _, .inr good.sent, ?_⟩
    rcases good.rest with lost | ⟨rest, _⟩
    · exact .inl lost
    · exact .inr rest
  · exact ⟨dead.order, .inl dead.lost, .inl dead.lost⟩

def Obs.Silent (o : Obs) : Prop := o.kernelBytes = [] ∧ o.producedBytes = []

/-- A change that sends nothing, keeps the queue, and leaves no bytes behind in rustls
without `WRITABLE`. -/
structure Calm (R : Rustls σ) (c d : Cfg σ) : Prop where
  log : ∃ obs, d.log = c.log ++ obs ∧ ∀ o ∈ obs, o.Silent
  tls : c.tr.state.tlsConn.isSome = true → d.tr.state.tlsConn.isSome = true
  buf : d.tr.state.writeBuf = c.tr.state.writeBuf
  size : d.tr.state.writeBufDsize = c.tr.state.writeBufDsize
  rest : c.armed ∨ c.quiet R ∧ c.tr.state.writeBuf = [] → d.lost ∨ d.armed ∨ d.quiet R ∧
      d.tr.state.writeBuf = []
  quiet : Frame.resume ∈ d.stack → c.quiet R → d.quiet R
  closing : c.tr.closing = true → d.tr.closing = true
  bound : d.tables.bound = true → c.tables.bound = true
  stack : d.stack = c.stack ∨ ∃ frame, d.stack = frame ::
      c.stack ∧ frame ≠ .attach ∧ frame ≠ .resume ∧
    (∀ k, frame = .lost k → d.lost) ∧ (frame.nested = true ∨ c.stack = [])

theorem flatMap_nil_of {f : Obs → Bytes} {obs : List Obs} (h : ∀ o ∈ obs, f o = []) :
    obs.flatMap f = [] :=
  List.flatMap_eq_nil_iff.mpr h

theorem Calm.kernel {c d : Cfg σ} (calm : Calm R c d) : d.kernelBytes = c.kernelBytes := by
  obtain ⟨obs, hlog, silent⟩ := calm.log
  rw [Cfg.kernelBytes, hlog, List.flatMap_append, flatMap_nil_of fun o ho => (silent o ho).1,
    List.append_nil]
  rfl

theorem Calm.produced {c d : Cfg σ} (calm : Calm R c d) : d.producedBytes = c.producedBytes := by
  obtain ⟨obs, hlog, silent⟩ := calm.log
  rw [Cfg.producedBytes, hlog, List.flatMap_append, flatMap_nil_of fun o ho => (silent o ho).2,
    List.append_nil]
  rfl

theorem Calm.lost {c d : Cfg σ} (calm : Calm R c d) (h : c.lost) : d.lost := by
  obtain ⟨obs, hlog, _⟩ := calm.log
  exact lost_mono hlog h

theorem Calm.mem_stack {c d : Cfg σ} (calm : Calm R c d) (h : Frame.resume ∈ d.stack) :
    Frame.resume ∈ c.stack := by
  rcases calm.stack with same | ⟨frame, hstack, _, noResume, _⟩
  · exact same ▸ h
  · rw [hstack] at h
    exact (List.mem_cons.mp h).resolve_left noResume.symm

theorem Calm.base {c d : Cfg σ} (calm : Calm R c d) (base : Base c) : Base d := by
  refine ⟨calm.tls base.tls, ?_, ?_, ?_, ?_, ?_⟩
  · rw [calm.size, calm.buf]; exact base.size
  · rw [calm.buf]; exact base.chunks
  all_goals rcases calm.stack with same | ⟨frame, hstack, noAttach, _, lostFrame, nested⟩
  · rw [same]; exact base.noAttach
  · rw [hstack, List.mem_cons, not_or]; exact ⟨noAttach.symm, base.noAttach⟩
  · rw [same]; exact base.bottom
  · rw [hstack]
    rcases List.eq_nil_or_concat c.stack with none | ⟨before, last, some⟩
    · simp [none]
    · have hne : c.stack ≠ [] := by simp [some]
      rw [List.dropLast_cons_of_ne_nil hne]
      exact List.forall_mem_cons.mpr ⟨nested.resolve_right hne, base.bottom⟩
  · intro k hk
    exact calm.lost (base.lostFrames k (same ▸ hk))
  · intro k hk
    rw [hstack] at hk
    rcases List.mem_cons.mp hk with fresh | old
    · exact lostFrame k fresh.symm
    · exact calm.lost (base.lostFrames k old)

theorem Calm.good {c d : Cfg σ} (calm : Calm R c d) (good : Good R c) : Good R d := by
  refine ⟨by rw [calm.kernel, calm.produced, good.sent], ?_⟩
  rcases good.rest with lost | ⟨rest, still⟩
  · exact .inl (calm.lost lost)
  · rcases calm.rest rest with lost | rest
    · exact .inl lost
    · exact .inr ⟨rest, fun hmem => (still (calm.mem_stack hmem)).imp
        (calm.quiet hmem) calm.closing⟩

theorem Calm.dying {c d : Cfg σ} (calm : Calm R c d) (dying : Dying c) : Dying d :=
  ⟨by rw [calm.kernel, calm.produced]; exact dying.order, calm.lost dying.lost,
      calm.closing dying.closing,
    fun hmem => dying.noResume (calm.mem_stack hmem)⟩

theorem Calm.dead {c d : Cfg σ} (calm : Calm R c d) (dead : Dead c) : Dead d := by
  refine ⟨calm.dying dead.toDying, fun bound => ?_⟩
  have old := dead.unbound (calm.bound bound)
  rcases calm.stack with same | ⟨frame, hstack, _⟩
  · exact same ▸ old
  · rw [hstack]
    exact List.mem_cons_of_mem frame old

theorem Inv.calm {c d : Cfg σ} (inv : Inv R c) (calm : Calm R c d) : Inv R d := by
  refine ⟨calm.base inv.base, ?_⟩
  rcases inv.state with good | dead
  · exact .inl (calm.good good)
  · exact .inr (calm.dead dead)

theorem rest_of_armed {c d : Cfg σ} (conn : d.tr.state.tlsConn = c.tr.state.tlsConn)
    (buf : d.tr.state.writeBuf = c.tr.state.writeBuf) (armed : c.armed → d.armed) :
    c.armed ∨ c.quiet R ∧ c.tr.state.writeBuf = [] → d.lost ∨ d.armed ∨ d.quiet R ∧
    d.tr.state.writeBuf = [] := by
  rintro (h | ⟨quiet, empty⟩)
  · exact .inr (.inl (armed h))
  · exact .inr (.inr ⟨fun other hother => quiet other (conn ▸ hother), buf ▸ empty⟩)

/-- What a change of flags and tables leaves alone. -/
def Cfg.core (c : Cfg σ) : List Obs × Option σ × List Bytes × Nat × List Frame :=
  (c.log, c.tr.state.tlsConn, c.tr.state.writeBuf, c.tr.state.writeBufDsize, c.stack)

theorem core_eq {c d : Cfg σ} (core : d.core = c.core) : d.log = c.log ∧
    d.tr.state.tlsConn = c.tr.state.tlsConn ∧ d.tr.state.writeBuf = c.tr.state.writeBuf ∧
    d.tr.state.writeBufDsize = c.tr.state.writeBufDsize ∧
      d.stack = c.stack := by
  simpa only [Cfg.core, Prod.mk.injEq] using core

/-- Changes of flags and tables that keep `WRITABLE`. -/
theorem Calm.same {c d : Cfg σ} (core : d.core = c.core) (armed : c.armed → d.armed)
    (closing : c.tr.closing = true → d.tr.closing = true)
    (bound : d.tables.bound = true → c.tables.bound = true) :
    Calm R c d := by
  obtain ⟨log, conn, buf, size, stack⟩ := core_eq core
  exact ⟨⟨[], by rw [log, List.append_nil], by simp⟩, fun h => conn ▸ h, buf, size,
    rest_of_armed conn buf armed, fun _ h other hother => h other (conn ▸ hother), closing, bound,
    .inl stack⟩

theorem Calm.emit (c : Cfg σ) {o : Obs} (silent : o.Silent) : Calm R c (c.emit o) where
  log := ⟨[o], rfl, by simpa using silent⟩
  tls := id
  buf := rfl
  size := rfl
  rest := rest_of_armed rfl rfl id
  quiet _ := id
  closing := id
  bound := id
  stack := .inl rfl

/-- A call into the protocol other than `connection_lost`. -/
theorem Calm.call (c : Cfg σ) (e : Callback) {frame : Frame} (noAttach : frame ≠ .attach)
    (noResume : frame ≠ .resume) (notLost : ∀ k, frame ≠ .lost k)
    (nested : frame.nested = true ∨ c.stack = []) : Calm R c (c.call e frame) where
  log := ⟨_, rfl, by simpa using ⟨rfl, rfl⟩⟩
  tls := id
  buf := rfl
  size := rfl
  rest := rest_of_armed rfl rfl id
  quiet _ := id
  closing := id
  bound := id
  stack := .inr ⟨frame, rfl, noAttach, noResume, fun k same => absurd same (notLost k), nested⟩

/-- A call of `connection_lost` after changes that need not keep `WRITABLE`. -/
theorem Calm.lostCall {c d : Cfg σ} (err : Option String) (k : AfterLost) (core : d.core = c.core)
    (closing : c.tr.closing = true → d.tr.closing = true)
    (bound : d.tables.bound = true → c.tables.bound = true)
    (nested : (Frame.lost k).nested = true ∨ c.stack = []) : Calm R c
    (d.call (.connectionLost err) (.lost k)) := by
  obtain ⟨log, conn, buf, size, stack⟩ := core_eq core
  refine ⟨⟨_, congrArg (· ++ _) log, by simpa using ⟨rfl, rfl⟩⟩, ?_, buf, size, fun _ =>
    .inl (lost_call d err _), fun _ h other hother => h other (conn ▸ hother), closing, bound,
    .inr ⟨.lost k, congrArg (_ :: ·) stack, by simp,
      by simp, fun _ _ => lost_call d err _, nested⟩⟩
  intro h
  rw [← conn] at h
  exact h

theorem armed_streamAdd (c : Cfg σ) (d : Dir) (h : c.armed) : (c.streamAdd d).armed := by
  cases hi : c.tables.interest with
  | none => simp [Cfg.armed, hi] at h
  | some i =>
      simp only [Cfg.armed, hi, Cfg.streamAdd, Option.any_some, Option.elim_some] at h ⊢
      cases i with
      | both => rfl
      | only e =>
          simp only [Interest.add]
          split_ifs
          · exact h
          · rfl

theorem armed_streamAdd_writable (c : Cfg σ) : (c.streamAdd .writable).armed := by
  cases hi : c.tables.interest with
  | none => simp [Cfg.armed, Cfg.streamAdd, hi, Interest.has]
  | some i =>
      cases i with
      | both => simp [Cfg.armed, Cfg.streamAdd, hi, Interest.add, Interest.has]
      | only e => cases e <;> simp [Cfg.armed, Cfg.streamAdd, hi, Interest.add, Interest.has]

theorem armed_streamRem_readable (c : Cfg σ) (h : c.armed) : (c.streamRem .readable).armed := by
  cases hi : c.tables.interest with
  | none => simp [Cfg.armed, hi] at h
  | some i =>
      cases i with
      | both => simp [Cfg.armed, Cfg.streamRem, hi, Interest.remove, Interest.has]
      | only e => cases e <;> simp_all [Cfg.armed, Cfg.streamRem, Interest.remove, Interest.has]

/-- The observations added on the way from `c` to `d` satisfy `P`. -/
def Clean (P : Obs → Prop) (c d : Cfg σ) : Prop := ∀ obs, d.log = c.log ++ obs → ∀ o ∈ obs, P o

theorem Clean.split {P : Obs → Prop} {c d e : Cfg σ} (h : Clean P c e) (first : Traced c d)
    (second : Traced d e) : Clean P c d ∧ Clean P d e := by
  obtain ⟨before, hbefore, _⟩ := first.trace
  obtain ⟨after, hafter, _⟩ := second.trace
  have whole := h (before ++ after) (by rw [hafter, hbefore, List.append_assoc])
  constructor
  · intro obs hobs o ho
    rw [hbefore] at hobs
    exact whole o (List.mem_append_left after (List.append_cancel_left hobs ▸ ho))
  · intro obs hobs o ho
    rw [hafter] at hobs
    exact whole o (List.mem_append_right before (List.append_cancel_left hobs ▸ ho))

theorem Clean.same {P : Obs → Prop} {b c d : Cfg σ} (h : Clean P b d) (log : c.log = b.log) :
    Clean P c d := by
  intro obs hobs
  exact h obs (log ▸ hobs)

/-- A flush that the kernel took whole. -/
theorem flushed_sent {c d : Cfg σ} {alert more : Bool} {out : Option Bytes} {r : WriteResult}
    (log : d.log = c.log ++ [.flushed alert out more r])
    (whole : r.taken (out.getD []) = out.getD []) (sent : c.kernelBytes = c.producedBytes) :
    d.kernelBytes = d.producedBytes := by
  rw [Cfg.kernelBytes, Cfg.producedBytes, log, List.flatMap_append, List.flatMap_append]
  simp only [List.flatMap_cons, List.flatMap_nil, Obs.kernelBytes, Obs.producedBytes, whole,
    List.append_nil]
  exact congrArg (· ++ _) sent

/-- A flush of which the kernel took a part. -/
theorem flushed_order {c d : Cfg σ} {alert more : Bool} {out : Option Bytes} {r : WriteResult}
    (log : d.log = c.log ++ [.flushed alert out more r]) (sent : c.kernelBytes = c.producedBytes) :
    d.kernelBytes <+: d.producedBytes := by
  have part : r.taken (out.getD []) <+: out.getD [] := by
    cases r with
    | ok n => exact List.take_prefix n _
    | interrupted | wouldBlock | fatal => exact List.nil_prefix
  rw [Cfg.kernelBytes, Cfg.producedBytes, log, List.flatMap_append, List.flatMap_append]
  simp only [List.flatMap_cons, List.flatMap_nil, Obs.kernelBytes, Obs.producedBytes,
    List.append_nil]
  rw [← Cfg.kernelBytes, ← Cfg.producedBytes, sent]
  exact (List.prefix_append_right_inj _).mpr part

theorem quiet_of_conn {c : Cfg σ} {conn : σ} (hconn : c.tr.state.tlsConn = some conn)
    (wants : R.wantsWrite conn = false) : c.quiet R := by
  intro other hother
  cases hconn.symm.trans hother
  exact wants

theorem closeAlert_spec {c c₀ : Cfg σ} {conn : σ} {env : Env}
    (sent : c.kernelBytes = c.producedBytes)
    (clean : Clean (FlushOk c₀) c (closeAlert R c conn env)) :
    (closeAlert R c conn env).kernelBytes = (closeAlert R c conn env).producedBytes ∧
      (closeAlert R c conn env).quiet R := by
  obtain ⟨_, ⟨whole, drained⟩ | ⟨impossible, _⟩⟩ := clean _ rfl _ (List.mem_singleton_self _)
  · exact ⟨flushed_sent rfl whole sent, quiet_of_conn rfl drained⟩
  · cases impossible

theorem Inv.close {c c₀ : Cfg σ} {env : Env} (inv : Inv R c)
    (clean : Clean (FlushOk c₀) c (close R c env)) : Inv R (close R c env) := by
  by_cases closing : c.tr.closing = true
  · simp only [Tcp.close, closing, if_true]
    exact inv
  have good : Good R c := inv.state.resolve_right fun dead => closing dead.closing
  obtain ⟨conn, hconn⟩ := Option.isSome_iff_exists.mp inv.base.tls
  have set : Calm R c c.setClosing := .same rfl id (fun _ => rfl) id
  have same : c.setClosing.tr.state.tlsConn = some conn := hconn
  simp only [Tcp.close, closing, Bool.false_eq_true, if_false, same] at clean ⊢
  split_ifs at clean ⊢
  · exact inv.calm (.same rfl id (fun _ => rfl) id)
  · simp only [closeTls] at clean ⊢
    by_cases empty : c.tr.state.writeBuf = []
    · have skip : c.setClosing.tr.state.writeBuf = [] := empty
      simp only [skip, ne_eq, not_true_eq_false, if_false] at clean ⊢
      have alerted : Clean (FlushOk c₀) c.setClosing (closeAlert R c.setClosing conn env) := by
        split_ifs at clean <;> exact clean
      obtain ⟨sent, quiet⟩ := closeAlert_spec (set.good good).sent alerted
      have ended : ∀ d : Cfg σ, d.log = (closeAlert R c.setClosing conn env).log →
          d.tr = (closeAlert R c.setClosing conn env).tr → d.stack = c.stack → Inv R d := by
        intro d hlog htr hstack
        have base := set.base inv.base
        refine ⟨⟨by rw [htr]; rfl, by rw [htr]; exact base.size, by rw [htr]; exact base.chunks,
          by rw [hstack]; exact inv.base.noAttach, by rw [hstack]; exact inv.base.bottom, ?_⟩,
          .inl ⟨?_, .inr ⟨.inr ⟨?_, by rw [htr]; exact empty⟩, ?_⟩⟩⟩
        · intro k hk
          rw [hstack] at hk
          exact lost_mono (c := c) hlog (inv.base.lostFrames k hk)
        · rw [Cfg.kernelBytes, Cfg.producedBytes, hlog]; exact sent
        · rw [Cfg.quiet, htr]; exact quiet
        · rw [Cfg.quiet, htr]; exact fun _ => .inl quiet
      split_ifs
      · exact ended _ rfl rfl rfl
      · exact ended _ rfl rfl rfl
    · have keep : c.setClosing.tr.state.writeBuf ≠ [] := empty
      simp only [keep, ne_eq, not_false_eq_true, if_true]
      exact inv.calm (.same rfl id (fun _ => rfl) id)

theorem unlist_calm (c : Cfg σ) : Calm R c c.unlist := by
  simp only [Cfg.unlist]
  split_ifs
  · exact .same rfl id id id
  · exact .same rfl id id id

theorem Inv.tcpStreamClose {c c₀ : Cfg σ} {held : Bool} {env : Env} (inv : Inv R c)
    (clean : Clean (FlushOk c₀) c (tcpStreamClose R c held env)) : Inv R
    (tcpStreamClose R c held env) := by
  have unbind : Calm R c c.unbind := .same rfl id id (fun h => (by cases h))
  have unbound := inv.calm unbind
  simp only [Tcp.tcpStreamClose, unbound.base.tls, if_true] at clean ⊢
  split_ifs at clean ⊢ with _ _ panicked
  · exact inv.calm (.same rfl id id (fun h => (by cases h)))
  · exact unbound.close (clean.same rfl)
  · have traced := close_traced (R := R) unbound.base.tls env
    have first := ((clean.same (c := c.unbind) rfl).split traced (unlist_traced traced.tls)).1
    exact (unbound.close first).calm (unlist_calm _)
  · exact inv

/-- Leaving the tables ends a dying transport for good. -/
theorem Dying.tcpStreamClose {c : Cfg σ} (dying : Dying c) (base : Base c) (held : Bool)
    (env : Env) : Inv R (tcpStreamClose R c held env) := by
  have ended : ∀ d : Cfg σ, Calm R c d → d.tables.bound = false → Inv R d := by
    intro d calm unbound
    refine ⟨calm.base base, .inr ⟨calm.dying dying, fun bound => ?_⟩⟩
    rw [unbound] at bound
    cases bound
  have tls : c.unbind.tr.state.tlsConn.isSome = true := base.tls
  have noop : Tcp.close R c.unbind env = c.unbind := by
    have closing : c.unbind.tr.closing = true := dying.closing
    simp only [Tcp.close, closing, if_true]
  have unbind : Calm R c c.unbind := .same rfl id id (fun h => (by cases h))
  simp only [Tcp.tcpStreamClose, tls, if_true, noop]
  split_ifs with bound
  · exact ended _ (.same rfl id id (fun h => (by cases h))) rfl
  · exact ended _ unbind rfl
  · simp only [Cfg.unlist]
    split_ifs
    · exact ended _ (.same rfl id id (fun h => (by cases h))) rfl
    · exact ended _ unbind rfl
  · exact ended _ (.same rfl id id id) (by simpa using bound)

theorem Inv.grow {c : Cfg σ} (inv : Inv R c) {data : Bytes} (hne : data ≠ []) :
    Inv R (grow ((c.emit (.accepted data)).setState
      { c.tr.state with writeBuf := c.tr.state.writeBuf ++ [data] }) data.length) := by
  have grown : ∀ d : Cfg σ, d.log = c.log ++ [.accepted data] → d.tr.state = { c.tr.state with
      writeBuf := c.tr.state.writeBuf ++ [data]
      writeBufDsize := c.tr.state.writeBufDsize + data.length } → d.tr.closing = c.tr.closing →
      d.tables.bound = c.tables.bound → d.stack = c.stack → (c.lost ∨ Good R c → d.lost ∨ d.armed) →
      Inv R d := by
    intro d hlog hstate hclosing hbound hstack harmed
    have kernel : d.kernelBytes = c.kernelBytes := by
      simp [Cfg.kernelBytes, hlog, Obs.kernelBytes]
    have produced : d.producedBytes = c.producedBytes := by
      simp [Cfg.producedBytes, hlog, Obs.producedBytes]
    refine ⟨⟨by rw [hstate]; exact inv.base.tls, by rw [hstate]; simp [inv.base.size], ?_,
      hstack ▸ inv.base.noAttach, hstack ▸ inv.base.bottom, fun k hk =>
      lost_mono hlog (inv.base.lostFrames k (hstack ▸ hk))⟩, ?_⟩
    · rw [hstate]
      intro chunk hchunk
      rcases List.mem_append.mp hchunk with old | fresh
      · exact inv.base.chunks chunk old
      · rw [List.mem_singleton.mp fresh]; exact hne
    · rcases inv.state with good | dead
      · refine .inl ⟨by rw [kernel, produced, good.sent], ?_⟩
        rcases harmed (.inr good) with lost | armed
        · exact .inl lost
        · rcases good.rest with lost | ⟨_, still⟩
          · exact .inl (lost_mono hlog lost)
          · refine .inr ⟨.inl armed, fun hmem => ?_⟩
            rw [hclosing, Cfg.quiet, hstate]
            exact still (hstack ▸ hmem)
      · refine .inr ⟨⟨by rw [kernel, produced]; exact dead.order, lost_mono hlog dead.lost,
          hclosing ▸ dead.closing, hstack ▸ dead.noResume⟩, ?_⟩
        rw [hbound, hstack]
        exact dead.unbound
  simp only [Tcp.grow]
  split_ifs with zero
  · exact grown _ rfl rfl rfl rfl rfl fun _ => .inr (armed_streamAdd_writable _)
  · refine grown _ rfl rfl rfl rfl rfl ?_
    have full : c.tr.state.writeBuf ≠ [] := by
      intro empty
      have size := inv.base.size
      rw [empty] at size
      exact zero size
    have mono : c.lost → (((c.emit (.accepted data)).setState { c.tr.state with
        writeBuf := c.tr.state.writeBuf ++ [data] }).setState { c.tr.state with
          writeBuf := c.tr.state.writeBuf ++ [data]
          writeBufDsize := c.tr.state.writeBufDsize + data.length }).lost :=
      lost_mono (show _ = c.log ++ [.accepted data] from rfl)
    rintro (lost | good)
    · exact .inl (mono lost)
    · rcases good.rest with lost | ⟨armed | ⟨_, empty⟩, _⟩
      · exact .inl (mono lost)
      · exact .inr armed
      · exact absurd empty full

theorem Calm.pauseProto (c : Cfg σ) (inWrite : Bool) : Calm R c (c.pauseProto inWrite) where
  log := ⟨[.callback .pauseWriting c.tr.state.writeBuf], rfl, by simpa using ⟨rfl, rfl⟩⟩
  tls := id
  buf := rfl
  size := rfl
  rest := rest_of_armed rfl rfl id
  quiet _ := id
  closing := id
  bound := id
  stack := .inr ⟨.pause inWrite, rfl, by simp, by simp, by simp, .inl rfl⟩

theorem Inv.tryWrite {c : Cfg σ} (inv : Inv R c) (data : Bytes)
    (env : Env) : Inv R (tryWrite c data env) := by
  have tls : (c.emit (.accepted data)).tr.state.tlsConn.isSome = true := inv.base.tls
  simp only [Tcp.tryWrite, tls, if_true]
  split_ifs with _ empty
  · exact inv.calm (.emit c ⟨rfl, rfl⟩)
  · exact inv
  · exact inv.calm (.same rfl id id id)
  · have grown := inv.grow empty
    simp only [pushBack, bufAdded]
    split_ifs
    · exact grown.calm (.pauseProto _ true)
    · exact grown

theorem Tuned.inv {c d : Cfg σ} (h : Tuned c d) (inv : Inv R c) : Inv R d := by
  cases h with
  | unchanged => exact inv
  | set | borrowed => exact inv.calm (.same rfl id id id)
  | raised => exact inv.calm (.emit c ⟨rfl, rfl⟩)
  | shutdown =>
      have flagged : Inv R { c with tr := { c.tr with weof := true } } :=
        inv.calm (.same rfl id id id)
      exact flagged.calm (.emit _ ⟨rfl, rfl⟩)
  | pauseReading => exact inv.calm (.same rfl (armed_streamRem_readable _) id id)
  | resumeReading => exact inv.calm (.same rfl (armed_streamAdd _ .readable) id id)
  | pauseWriting waterHi waterLo =>
      have limited : Inv R { c with tr := { c.tr with
          waterHi := waterHi
          waterLo := waterLo } } := inv.calm (.same rfl id id id)
      exact limited.calm (.pauseProto _ false)

theorem Inv.method {c c₀ : Cfg σ} {env : Env} (inv : Inv R c) (m : Method)
    (clean : Clean (FlushOk c₀) c (m.run R c env)) : Inv R (m.run R c env) := by
  cases m with
  | write data => exact inv.tryWrite data env
  | writelines data => exact inv.tryWrite data.flatten env
  | close => exact inv.close clean
  | abort =>
      simp only [Method.run, Tcp.abort]
      split_ifs
      · exact inv.calm (.same rfl id id id)
      · exact inv.calm (.lostCall none .callConnLost rfl id id (.inl rfl))
      · exact inv.calm (.lostCall none .callConnLost rfl (fun _ => rfl) id (.inl rfl))
      · exact inv.calm (.lostCall none .callConnLost rfl id id (.inl rfl))
      · exact inv.calm (.lostCall none .callConnLost rfl (fun _ => rfl) id (.inl rfl))
  | callConnectionLost => exact inv.calm (.lostCall none .callConnLost rfl id id (.inl rfl))
  | writeEof | pauseReading | resumeReading | setWriteBufferLimits | isTls | getWriteBufferSize =>
      exact (Method.tuned rfl c env).inv inv

/-- rustls moved on while a handle was running. -/
theorem Calm.moved {c d : Cfg σ} {conn : σ} {obs : List Obs} (free : c.stack = [])
    (wants : R.wantsWrite conn = false ∨ d.armed ∨ c.lost) (armed : c.armed → d.armed)
    (closing : c.tr.closing = true → d.tr.closing = true)
    (bound : d.tables.bound = true → c.tables.bound = true) (log : d.log = c.log ++ obs)
    (silent : ∀ o ∈ obs, o.Silent) (hconn : d.tr.state.tlsConn = some conn)
    (buf : d.tr.state.writeBuf = c.tr.state.writeBuf)
    (size : d.tr.state.writeBufDsize = c.tr.state.writeBufDsize)
    (stack : d.stack = c.stack) : Calm R c d where
  log := ⟨obs, log, silent⟩
  tls _ := by rw [hconn]; rfl
  buf := buf
  size := size
  rest := by
    rintro (h | ⟨_, empty⟩)
    · exact .inr (.inl (armed h))
    · rcases wants with none | armed | lost
      · exact .inr (.inr ⟨quiet_of_conn hconn none, buf ▸ empty⟩)
      · exact .inr (.inl armed)
      · exact .inl (lost_mono log lost)
  quiet hmem := by
    rw [stack, free] at hmem
    cases hmem
  closing := closing
  bound := bound
  stack := .inl stack

theorem drainReader_wants (fuel : Nat)
    (conn : σ) : R.wantsWrite (drainReader R fuel conn).1 = R.wantsWrite conn := by
  induction fuel generalizing conn with
  | zero => rfl
  | succ fuel ih =>
      have kept := R.read_wants conn 4096
      simp only [drainReader]
      split
      next hread => rw [hread] at kept; exact kept
      next hread => rw [hread] at kept; exact kept
      next hread =>
        rw [hread] at kept
        exact (ih _).trans kept

/-- What `recv_direct` on TLS changes once the packets are processed. -/
theorem recvPlaintext_spec (c : Cfg σ) (conn : σ) :
    ∃ conn', (recvPlaintext R c conn).1.tr.state.tlsConn = some conn' ∧
      (R.wantsWrite conn' = false ∨ (recvPlaintext R c conn).1.armed) ∧
      (c.armed → (recvPlaintext R c conn).1.armed) ∧ (recvPlaintext R c conn).1.log = c.log ∧
      (recvPlaintext R c conn).1.tr.state.writeBuf = c.tr.state.writeBuf ∧
      (recvPlaintext R c conn).1.tr.state.writeBufDsize = c.tr.state.writeBufDsize ∧
      (recvPlaintext R c conn).1.tr.closing = c.tr.closing ∧
      (recvPlaintext R c conn).1.tables.bound = c.tables.bound ∧
      (recvPlaintext R c conn).1.stack = c.stack := by
  have shaken : ∀ d : Cfg σ, d = checkHandshake R (c.setConn conn) conn →
    d.tr.state.tlsConn = some conn ∧
      d.tables.interest = c.tables.interest ∧ d.log = c.log ∧
      d.tr.state.writeBuf = c.tr.state.writeBuf ∧
      d.tr.state.writeBufDsize = c.tr.state.writeBufDsize ∧ d.tr.closing = c.tr.closing ∧
      d.tables.bound = c.tables.bound ∧ d.stack = c.stack := by
    rintro d rfl
    simp only [checkHandshake]
    split_ifs <;> exact ⟨rfl, rfl, rfl, rfl, rfl, rfl, rfl, rfl⟩
  obtain ⟨hconn, hinterest, hlog, hbuf, hsize, hclosing, hbound, hstack⟩ := shaken _ rfl
  have same := drainReader_wants (R := R) (R.plaintextLeft conn + 1) conn
  have kept : c.armed → (checkHandshake R (c.setConn conn) conn).armed := by
    intro h
    rw [Cfg.armed, hinterest]
    exact h
  simp only [recvPlaintext]
  cases wants : R.wantsWrite conn with
  | true =>
      have armed := armed_streamAdd_writable (checkHandshake R (c.setConn conn) conn)
      simp only [if_true]
      split_ifs
      · exact ⟨_, rfl, .inr armed, fun _ => armed, hlog, hbuf, hsize, hclosing, hbound, hstack⟩
      · exact ⟨_, rfl, .inr armed, fun _ => armed, hlog, hbuf, hsize, hclosing, hbound, hstack⟩
      · exact ⟨conn, hconn, .inr armed, fun _ => armed, hlog, hbuf, hsize, hclosing, hbound, hstack⟩
  | false =>
      simp only [Bool.false_eq_true, if_false]
      split_ifs
      · exact ⟨_, rfl, .inl (same.trans wants), kept, hlog, hbuf, hsize, hclosing, hbound, hstack⟩
      · exact ⟨_, rfl, .inl (same.trans wants), kept, hlog, hbuf, hsize, hclosing, hbound, hstack⟩
      · exact ⟨conn, hconn, .inl wants, kept, hlog, hbuf, hsize, hclosing, hbound, hstack⟩

theorem feedTls_calm {c : Cfg σ} {conn : σ} {bytes : Bytes} (free : c.stack = [])
    (clean : Clean (FlushOk c) c (feedTls R (c.emit (.recvTls bytes)) conn bytes).1) :
    Calm R c (feedTls R (c.emit (.recvTls bytes)) conn bytes).1 ∧
      (feedTls R (c.emit (.recvTls bytes)) conn bytes).1.stack = [] := by
  simp only [feedTls] at clean ⊢
  split at clean
  next conn' _ =>
    have log : (((c.emit (.recvTls bytes)).setConn conn').emit
      (.tlsError (R.wantsWrite conn'))).log =
        c.log ++ [.recvTls bytes, .tlsError (R.wantsWrite conn')] := List.append_assoc _ _ _
    have ended : R.wantsWrite conn' = false ∨ c.armed ∨ c.lost :=
      clean _ log (.tlsError _) (by simp)
    exact ⟨.moved free ended id id id log (by simp [Obs.Silent, Obs.kernelBytes, Obs.producedBytes])
      rfl rfl rfl rfl, free⟩
  next conn' n _ =>
    split at clean
    next conn'' _ =>
      have log : ((((c.emit (.recvTls bytes)).emit (.fed bytes n)).setConn conn'').emit
          (.tlsError (R.wantsWrite conn''))).log =
          c.log ++ [.recvTls bytes, .fed bytes n, .tlsError (R.wantsWrite conn'')] := by
        simp [Cfg.emit, Cfg.setConn, Cfg.setState]
      have ended : R.wantsWrite conn'' = false ∨ c.armed ∨ c.lost :=
        clean _ log (.tlsError _) (by simp)
      exact ⟨.moved free ended id id id log
        (by simp [Obs.Silent, Obs.kernelBytes, Obs.producedBytes]) rfl
        rfl rfl rfl, free⟩
    next conn'' _ =>
      have log : ((((c.emit (.recvTls bytes)).emit (.fed bytes n)).setState { c.tr.state with
          tlsConn := some (R.sendCloseNotify conn'')
          tlsCloseReceived := true }).emit
              (.closeNotify (R.wantsWrite (R.sendCloseNotify conn'')))).log =
          c.log ++ [.recvTls bytes, .fed bytes n,
            .closeNotify (R.wantsWrite (R.sendCloseNotify conn''))] := by
        simp [Cfg.emit, Cfg.setState]
      have ended : R.wantsWrite (R.sendCloseNotify conn'') = false ∨ c.armed ∨ c.lost :=
        clean _ log (.closeNotify _) (by simp)
      exact ⟨.moved free ended id id id log
        (by simp [Obs.Silent, Obs.kernelBytes, Obs.producedBytes]) rfl
        rfl rfl rfl, free⟩
    next conn'' _ =>
      obtain ⟨last, hconn, wants, armed, hlog, hbuf, hsize, hclosing, hbound, hstack⟩ :=
        recvPlaintext_spec (R := R) ((c.emit (.recvTls bytes)).emit (.fed bytes n)) conn''
      have log := hlog.trans (List.append_assoc c.log [Obs.recvTls bytes] [Obs.fed bytes n])
      exact ⟨.moved free (wants.imp_right .inl) armed (fun h => hclosing.trans h)
        (fun h => hbound ▸ h) log (by simp [Obs.Silent, Obs.kernelBytes, Obs.producedBytes]) hconn
        hbuf hsize hstack, hstack.trans free⟩

theorem Inv.recvEof {c : Cfg σ} (inv : Inv R c) (free : c.stack = []) : Inv R (recvEof c) := by
  have removed : Inv R (c.streamRem .readable) :=
    inv.calm (.same rfl (armed_streamRem_readable c) id id)
  exact removed.calm (.call _ _ (by simp) (by simp) (by simp) (.inr free))

theorem Inv.received {c : Cfg σ} (inv : Inv R c) (free : c.stack = []) (data : Option Bytes)
    (eof : Bool) : Inv R (received (c, data, eof)) := by
  cases data with
  | some data => exact inv.calm (.call _ _ (by simp) (by simp) (by simp) (.inr free))
  | none =>
      cases eof with
      | true => exact inv.recvEof free
      | false => exact inv

theorem Inv.readRound {c : Cfg σ} {env : Env} (inv : Inv R c) (free : c.stack = [])
    (clean : Clean (FlushOk c) c (readRound R c env)) : Inv R (readRound R c env) := by
  obtain ⟨conn, hconn⟩ := Option.isSome_iff_exists.mp inv.base.tls
  simp only [Tcp.readRound, recvDirect, hconn] at clean ⊢
  split_ifs at clean ⊢ with _ none
  · exact inv.calm (.call _ _ (by simp) (by simp) (by simp) (.inr free))
  · exact (inv.calm (.emit c ⟨rfl, rfl⟩)).received free _ _
  · have fed := feedTls_traced (R := R) c conn (readInto readBufSize env.reads).1
    have calm := @feedTls_calm σ R c conn (readInto readBufSize env.reads).1 free
    rcases hfeed : feedTls R (c.emit (.recvTls (readInto readBufSize env.reads).1)) conn
      (readInto readBufSize env.reads).1 with ⟨d, data, eof⟩
    rw [hfeed] at fed calm clean
    obtain ⟨moved, free'⟩ := calm (clean.split fed (received_traced (.same fed.tls rfl rfl))).1
    exact (inv.calm moved).received free' data eof

theorem Inv.eofReceived {c c₀ : Cfg σ} {truthy : Bool} {env : Env} (inv : Inv R c)
    (free : c.stack = []) (clean : Clean (FlushOk c₀) c (eofReceived R c truthy env)) : Inv R
    (eofReceived R c truthy env) := by
  have set : Calm R c c.setClosing := .same rfl id (fun _ => rfl) id
  have tls : c.setClosing.tr.state.tlsConn.isSome = true := inv.base.tls
  have noop : Tcp.close R c.setClosing env = c.setClosing := by
    have closing : c.setClosing.tr.closing = true := rfl
    simp only [Tcp.close, closing, if_true]
  simp only [Tcp.eofReceived, closeFromReadHandle, tls, if_true, noop] at clean ⊢
  split_ifs at clean ⊢
  · exact inv
  · exact inv.calm (.lostCall none .recvEof rfl id id (.inr free))
  · exact inv
  · exact (inv.calm set).tcpStreamClose (clean.same rfl)

/-- The handle drops `WRITABLE` when the queue is empty. -/
theorem unregister_calm {c : Cfg σ} (still : c.tr.state.writeBuf = [] → c.lost ∨ c.quiet R) :
    Calm R c (if c.tr.state.writeBuf = [] then c.streamRem .writable else c) := by
  split_ifs with empty
  · rcases still empty with lost | quiet
    · exact ⟨⟨[], (List.append_nil _).symm, by simp⟩, id, rfl, rfl, fun _ => .inl lost, fun _ => id,
        id, id, .inl rfl⟩
    · exact ⟨⟨[], (List.append_nil _).symm, by simp⟩, id, rfl, rfl, fun _ =>
        .inr (.inr ⟨quiet, empty⟩), fun _ => id, id, id, .inl rfl⟩
  · exact .same rfl id id id

theorem Inv.finishWrite {c c₀ : Cfg σ} {streamClose : Option Bool} {env : Env} (inv : Inv R c)
    (still : c.tr.state.writeBuf = [] → c.lost ∨ c.quiet R)
    (clean : Clean (FlushOk c₀) c (finishWrite R c streamClose env)) : Inv R
    (finishWrite R c streamClose env) := by
  have kept := inv.calm (unregister_calm still)
  have log : (if c.tr.state.writeBuf = [] then c.streamRem .writable else c).log = c.log := by
    split_ifs <;> rfl
  simp only [Tcp.finishWrite] at clean ⊢
  split at clean
  · exact kept.tcpStreamClose (clean.same log)
  · exact kept.calm (.emit _ ⟨rfl, rfl⟩)
  · exact kept

theorem Dying.finishWrite {c : Cfg σ} (dying : Dying c) (base : Base c) (env : Env) :
    Inv R (finishWrite R c (some true) env) := by
  have calm : Calm R c _ := unregister_calm fun _ => .inl dying.lost
  exact (calm.dying dying).tcpStreamClose (calm.base base) _ env

theorem closeFromWriteHandle_calm {c : Cfg σ} (free : c.stack = []) (closing : c.tr.closing = true)
    (errored : Bool) (env : Env) : Calm R c (closeFromWriteHandle R c errored env) ∧
    (closeFromWriteHandle R c errored env).lost ∧
      (closeFromWriteHandle R c errored env).stack = [.lost .writeHandle] := by
  simp only [Tcp.closeFromWriteHandle, closing, if_true]
  exact ⟨.lostCall _ .writeHandle rfl id id (.inr free), lost_call c _ _, congrArg (_ :: ·) free⟩

theorem Inv.closeFromWriteHandle {c c₀ : Cfg σ} {errored : Bool} {env : Env} (inv : Inv R c)
    (free : c.stack = []) (still : c.tr.state.writeBuf = [] → c.lost ∨ c.quiet R)
    (clean : Clean (FlushOk c₀) c (closeFromWriteHandle R c errored env)) :
    Inv R (closeFromWriteHandle R c errored env) := by
  by_cases closing : c.tr.closing = true
  · exact inv.calm (closeFromWriteHandle_calm free closing errored env).1
  · simp only [Tcp.closeFromWriteHandle, closing, Bool.false_eq_true, if_false] at clean ⊢
    exact inv.finishWrite still clean

/-- A closing transport calls `connection_lost`, whatever rustls still holds. -/
theorem good_closeFromWriteHandle {c : Cfg σ} (base : Base c) (free : c.stack = [])
    (sent : c.kernelBytes = c.producedBytes) (closing : c.tr.closing = true) (errored : Bool)
    (env : Env) : Inv R (closeFromWriteHandle R c errored env) := by
  obtain ⟨called, lost, _⟩ := closeFromWriteHandle_calm (R := R) free closing errored env
  exact ⟨called.base base, .inl ⟨by rw [called.kernel, called.produced, sent], .inl lost⟩⟩

/-- It does so with a torn stream too, which then ends. -/
theorem dead_closeFromWriteHandle {c : Cfg σ} (base : Base c) (free : c.stack = [])
    (order : c.kernelBytes <+: c.producedBytes) (closing : c.tr.closing = true) (errored : Bool)
    (env : Env) : Inv R (closeFromWriteHandle R c errored env) := by
  obtain ⟨called, lost, stack⟩ := closeFromWriteHandle_calm (R := R) free closing errored env
  refine ⟨called.base base, .inr ⟨⟨?_, lost, called.closing closing, by simp [stack]⟩, fun _ =>
    by simp [stack]⟩⟩
  rw [called.kernel, called.produced]
  exact order

theorem Inv.afterWrite {c c₀ : Cfg σ} {env : Env} (base : Base c) (free : c.stack = [])
    (sent : c.kernelBytes = c.producedBytes) (rest : c.lost ∨ c.armed ∨ c.tr.state.writeBuf = [])
    (still : c.lost ∨ c.quiet R ∨ c.tr.closing = true)
    (clean : Clean (FlushOk c₀) c (afterWrite R c env)) : Inv R (afterWrite R c env) := by
  obtain ⟨conn, hconn⟩ := Option.isSome_iff_exists.mp base.tls
  have noResume : Frame.resume ∈ c.stack → c.quiet R ∨ c.tr.closing = true := by simp [free]
  simp only [Tcp.afterWrite, hconn] at clean ⊢
  split_ifs at clean ⊢ with empty
  · -- the pending close alert
    have alert := closeAlert_traced (R := R) c conn env
    have cleared : Traced (closeAlert R c conn env) ((closeAlert R c conn env).setState
        { (closeAlert R c conn env).tr.state with tlsPendingClose := false }) :=
        .same alert.tls rfl rfl
    have last := finishWrite_traced (R := R) cleared.tls (some true) env.afterWrite
    have first := (clean.split alert (cleared.trans last)).1
    have second := ((clean.split alert (cleared.trans last)).2.split cleared last).2
    obtain ⟨sent', quiet⟩ := closeAlert_spec sent first
    refine Inv.finishWrite ⟨⟨alert.tls, base.size, base.chunks, base.noAttach, base.bottom, ?_⟩,
      .inl ⟨sent', .inr ⟨.inr ⟨quiet, empty⟩, fun _ => .inl quiet⟩⟩⟩ (fun _ => .inr quiet) second
    intro k hk
    exact lost_mono (c := c) rfl (base.lostFrames k hk)
  · rcases still with lost | quiet | closing
    · exact Inv.closeFromWriteHandle ⟨base, .inl ⟨sent, .inl lost⟩⟩ free (fun _ => .inl lost) clean
    · exact Inv.closeFromWriteHandle ⟨base, .inl ⟨sent, .inr ⟨.inr ⟨quiet, empty⟩, noResume⟩⟩⟩ free
        (fun _ => .inr quiet) clean
    · exact good_closeFromWriteHandle base free sent closing false env
  · refine Inv.finishWrite ⟨base, .inl ⟨sent, ?_⟩⟩ (fun none => absurd none empty) clean
    rcases rest with lost | armed | none
    · exact .inl lost
    · exact .inr ⟨.inl armed, noResume⟩
    · exact absurd none empty

theorem Inv.written {c c₀ : Cfg σ} {n : Nat} {env : Env} (base : Base c) (free : c.stack = [])
    (sent : c.kernelBytes = c.producedBytes)
    (rest : c.lost ∨ c.armed ∨ c.tr.state.writeBuf = [] ∧ n = 0)
    (still : c.quiet R ∨ c.tr.closing = true) (clean : Clean (FlushOk c₀) c (written R c n env)) :
    Inv R (written R c n env) := by
  simp only [Tcp.written] at clean ⊢
  split_ifs at clean ⊢ with resumes
  · have log : ({ c with tr := { c.tr with protoPaused := false } }.call .resumeWriting
      .resume).log =
        c.log ++ [.callback .resumeWriting c.tr.state.writeBuf] := rfl
    refine ⟨⟨base.tls, base.size, base.chunks, ?_, ?_, ?_⟩, .inl ⟨?_, ?_⟩⟩
    · simp [Cfg.call, Cfg.emit, free]
    · simp [Cfg.call, Cfg.emit, free]
    · simp [Cfg.call, Cfg.emit, free]
    · simp only [Cfg.kernelBytes, Cfg.producedBytes, log, List.flatMap_append]
      exact congrArg (· ++ []) sent
    · rcases rest with lost | armed | ⟨_, none⟩
      · exact .inl (lost_mono log lost)
      · exact .inr ⟨.inl armed, fun _ => still⟩
      · omega
  · exact Inv.afterWrite base free sent (rest.imp_right (.imp_right And.left)) (.inr still) clean

/-- What a flush did, from a state in which everything produced was sent. -/
theorem flushTls_spec {c e : Cfg σ} {conn : σ} {env : Env} (sent : e.kernelBytes = e.producedBytes)
    (clean : Clean (FlushOk c) e (flushTls R e conn env).1) :
    match (flushTls R e conn env).2.2.1 with
    | .sent => (flushTls R e conn env).1.kernelBytes = (flushTls R e conn env).1.producedBytes ∧
        ((flushTls R e conn env).1.quiet R ∨ c.tr.closing = true)
    | .failed => (flushTls R e conn env).1.kernelBytes <+: (flushTls R e conn env).1.producedBytes ∧
        c.tr.closing = true
    | .blocked =>
        (flushTls R e conn env).1.kernelBytes <+: (flushTls R e conn env).1.producedBytes ∧
        c.tr.closing = true ∧ c.tr.state.writeBuf = [] ∧ c.tr.state.tlsPendingClose = false := by
  obtain ⟨given, took⟩ := clean _ rfl _ (List.mem_singleton_self _)
  have order := flushed_order (d := (flushTls R e conn env).1) rfl sent
  obtain ⟨out, hout⟩ := Option.isSome_iff_exists.mp given
  have outcome : (flushTls R e conn env).2.2.1 = flushOutcome (some out) env.nextWrite := by
    simp only [flushTls, hout]
  have still : (flushTls R e conn env).1.quiet R ∨ c.tr.closing = true :=
    took.imp (fun ⟨_, drained⟩ => quiet_of_conn rfl drained) fun ⟨_, closing, _⟩ => closing
  have whole : env.nextWrite.taken out = out →
      (flushTls R e conn env).1.kernelBytes = (flushTls R e conn env).1.producedBytes := by
    intro all
    exact flushed_sent (c := e) rfl (by rw [hout, Option.getD_some, all]) sent
  rw [hout, Option.getD_some] at took
  rw [outcome]
  cases out with
  | nil =>
      refine ⟨whole ?_, still⟩
      cases env.nextWrite with
      | ok n => exact List.take_nil
      | interrupted | wouldBlock | fatal => rfl
  | cons b out =>
      cases hr : env.nextWrite with
      | ok n =>
          rw [hr] at whole took
          simp only [flushOutcome]
          split_ifs with fits
          · exact ⟨whole (List.take_of_length_le fits), still⟩
          · rcases took with ⟨all, _⟩ | ⟨_, closing, _⟩
            · have lengths : (List.take n (b :: out)).length = (b :: out).length :=
                congrArg List.length all
              rw [List.length_take] at lengths
              omega
            · exact ⟨order, closing⟩
      | wouldBlock =>
          rw [hr] at took
          rcases took with ⟨all, _⟩ | ⟨_, closing, other | idle⟩
          · cases all
          · exact absurd rfl other
          · exact ⟨order, closing, idle⟩
      | interrupted | fatal =>
          rw [hr] at took
          rcases took with ⟨all, _⟩ | ⟨_, closing, _⟩
          · cases all
          · exact ⟨order, closing⟩

/-- How `TCPWriteHandle::write` may end. -/
inductive Wrote (R : Rustls σ) (d : Cfg σ) : Option Nat → Prop where
  | sent (n : Nat) : d.kernelBytes = d.producedBytes → d.lost ∨ d.armed ∨ d.tr.state.writeBuf = [] ∧
      n = 0 → d.quiet R ∨ d.tr.closing = true → Wrote R d (some n)
  | refused : d.kernelBytes = d.producedBytes → d.lost ∨ d.armed → d.tr.state.writeBuf ≠ [] →
      Wrote R d none
  | failed : d.kernelBytes <+: d.producedBytes → d.tr.closing = true → Wrote R d none
  | blocked : d.kernelBytes <+: d.producedBytes → d.tr.closing = true → d.tr.state.writeBuf = [] →
      d.tr.state.tlsPendingClose = false → Wrote R d (some 0)

/-- A flush changes rustls and the log only. -/
structure Flushed (c d : Cfg σ) : Prop where
  buf : d.tr.state.writeBuf = c.tr.state.writeBuf
  closing : d.tr.closing = c.tr.closing
  pending : d.tr.state.tlsPendingClose = c.tr.state.tlsPendingClose
  stack : d.stack = c.stack
  armed : c.armed → d.armed
  lost : c.lost → d.lost

theorem flushTls_flushed (c : Cfg σ) (conn : σ) (env : Env) : Flushed c (flushTls R c conn env).1 :=
  ⟨rfl, rfl, rfl, rfl, id, lost_mono rfl⟩

theorem Base.flushed {c : Cfg σ} (base : Base c) (conn : σ)
    (env : Env) : Base (flushTls R c conn env).1 :=
  ⟨rfl, base.size, base.chunks, base.noAttach, base.bottom, fun k hk =>
    lost_mono (c := c) rfl (base.lostFrames k hk)⟩

theorem Base.encrypted {c : Cfg σ} (base : Base c) (conn : σ) {left : List Bytes} {popped : Nat}
    (obs : List Obs) (suffix : left <:+ c.tr.state.writeBuf)
    (size : popped + held left = held c.tr.state.writeBuf) : Base
    (encrypted c conn left popped obs) where
  tls := rfl
  size := by
    have before := base.size
    simp only [Tcp.encrypted, Cfg.setState]
    omega
  chunks chunk hchunk := base.chunks chunk (suffix.mem hchunk)
  noAttach := base.noAttach
  bottom := base.bottom
  lostFrames k hk := lost_mono (c := c) rfl (base.lostFrames k hk)

theorem writeEncrypted_spec {c : Cfg σ} {conn : σ} {env : Env} (base : Base c) (free : c.stack = [])
    (paid : c.kernelBytes = c.producedBytes) (rest : c.lost ∨ c.armed ∨ c.tr.state.writeBuf = [])
    (clean : Clean (FlushOk c) c (writeEncrypted R c conn env).1) :
    Base (writeEncrypted R c conn env).1 ∧ (writeEncrypted R c conn env).1.stack = [] ∧
      Wrote R (writeEncrypted R c conn env).1 (writeEncrypted R c conn env).2.1 := by
  obtain ⟨suffix, size, ended, logged⟩ := encryptLoop_spec (R := R) conn c.tr.state.writeBuf
  have silent : ∀ o ∈ (encryptLoop R conn c.tr.state.writeBuf).2.2.2.2, o.Silent := by
    intro o ho
    obtain ⟨data, taken, ok, rfl⟩ := logged o ho
    exact ⟨rfl, rfl⟩
  have looped := encryptLoop_traced (R := R) conn c.tr.state.writeBuf
  simp only [writeEncrypted] at clean ⊢
  rcases hloop : encryptLoop R conn c.tr.state.writeBuf with ⟨conn', left, popped, ok, obs⟩
  rw [hloop] at suffix size ended silent looped
  simp only [hloop] at clean
  have base' := base.encrypted conn' obs suffix size
  have paid' : (encrypted c conn' left popped obs).kernelBytes =
      (encrypted c conn' left popped obs).producedBytes := by
    simp only [Cfg.kernelBytes, Cfg.producedBytes, encrypted, List.flatMap_append]
    rw [flatMap_nil_of fun o ho => (silent o ho).1, flatMap_nil_of fun o ho => (silent o ho).2]
    exact congrArg (· ++ []) paid
  have idle : c.tr.state.writeBuf = [] → left = [] ∧ popped = 0 := by
    intro empty
    rw [empty] at suffix size
    exact ⟨List.suffix_nil.mp suffix, Nat.eq_zero_of_add_eq_zero_right size⟩
  cases ok with
  | false =>
      have full : left ≠ [] := fun empty => by simpa using ended.mpr empty
      refine ⟨base', free, .refused paid' ?_ full⟩
      rcases rest with lost | armed | empty
      · exact .inl (lost_mono (c := c) rfl lost)
      · exact .inr armed
      · exact absurd (idle empty).1 full
  | true =>
      have done : Traced c (encrypted c conn' left popped obs) := ⟨rfl, obs, rfl, looped⟩
      have flushed := flushTls_traced (R := R) (encrypted c conn' left popped obs) conn' env
      have frame := flushTls_flushed (R := R) (encrypted c conn' left popped obs) conn' env
      have base'' := base'.flushed (R := R) conn' env
      have second : Clean (FlushOk c) (encrypted c conn' left popped obs)
          (flushTls R (encrypted c conn' left popped obs) conn' env).1 := by
        refine (Clean.split ?_ done flushed).2
        rcases hflush : flushTls R (encrypted c conn' left popped obs) conn' env with
          ⟨d, conn'', outcome, env'⟩
        simp only [hflush] at clean
        cases outcome <;> exact clean
      have spec := flushTls_spec paid' second
      rcases hflush : flushTls R (encrypted c conn' left popped obs) conn' env with
        ⟨d, conn'', outcome, env'⟩
      rw [hflush] at spec base'' frame
      have hstack : d.stack = [] := frame.stack.trans free
      simp only [hflush]
      cases outcome with
      | failed => exact ⟨base'', hstack, .failed spec.1 (frame.closing.trans spec.2)⟩
      | blocked =>
          obtain ⟨empty, none⟩ := idle spec.2.2.1
          rw [none]
          exact ⟨base'', hstack, .blocked spec.1 (frame.closing.trans spec.2.1)
            (frame.buf.trans empty) (frame.pending.trans spec.2.2.2)⟩
      | sent =>
          refine ⟨base'', hstack, .sent popped spec.1 ?_ (spec.2.imp_right fun closing =>
            frame.closing.trans closing)⟩
          rcases rest with lost | armed | empty
          · exact .inl (frame.lost (lost_mono (c := c) rfl lost))
          · exact .inr (.inl (frame.armed armed))
          · exact .inr (.inr ⟨frame.buf.trans (idle empty).1, (idle empty).2⟩)

theorem FlushOk.later {c d : Cfg σ} {o : Obs} (ok : FlushOk c o) (frame : Flushed c d) :
    FlushOk d o := by
  cases o with
  | flushed alert out more r =>
      simp only [FlushOk, frame.closing, frame.buf, frame.pending]
      exact ok
  | tlsError more | closeNotify more => exact ok.imp_right (.imp frame.armed frame.lost)
  | callback | accepted | write | shutdown | recv | recvTls | fed | encrypted | raised => trivial

theorem writeTls_spec {c : Cfg σ} {conn : σ} {env : Env} (base : Base c) (good : Good R c)
    (free : c.stack = []) (clean : Clean (FlushOk c) c (writeTls R c conn env).1) :
    Base (writeTls R c conn env).1 ∧ (writeTls R c conn env).1.stack = [] ∧
      Wrote R (writeTls R c conn env).1 (writeTls R c conn env).2.1 := by
  have flushed := flushTls_traced (R := R) c conn env
  have frame := flushTls_flushed (R := R) c conn env
  have base' := base.flushed (R := R) conn env
  have there : (flushTls R c conn env).1.tr.state.tlsConn = some (flushTls R c conn env).2.1 := rfl
  have spec := @flushTls_spec σ R c c conn env good.sent
  rcases hflush : flushTls R c conn env with ⟨d, conn', outcome, env'⟩
  simp only [writeTls, hflush] at clean ⊢
  rw [hflush] at spec base' flushed frame there
  have hstack : d.stack = [] := frame.stack.trans free
  cases outcome with
  | failed =>
      have ended := spec clean
      exact ⟨base', hstack, .failed ended.1 (frame.closing.trans ended.2)⟩
  | blocked =>
      have ended := spec clean
      exact ⟨base', hstack, .blocked ended.1 (frame.closing.trans ended.2.1)
        (frame.buf.trans ended.2.2.1) (frame.pending.trans ended.2.2.2)⟩
  | sent =>
      have rest : d.lost ∨ d.armed ∨ d.tr.state.writeBuf = [] := by
        rcases good.rest with lost | ⟨armed | ⟨_, empty⟩, _⟩
        · exact .inl (frame.lost lost)
        · exact .inr (.inl (frame.armed armed))
        · exact .inr (.inr (frame.buf.trans empty))
      simp only at clean ⊢
      split_ifs at clean ⊢
      · obtain ⟨first, second⟩ := clean.split flushed (writeEncrypted_traced there env')
        exact writeEncrypted_spec base' hstack (spec first).1 rest fun obs hobs o ho =>
          (second obs hobs o ho).later frame
      · obtain ⟨sent, still⟩ := spec clean
        refine ⟨base', hstack, .sent 0 sent
          (rest.imp_right (.imp_right fun empty => ⟨empty, rfl⟩)) ?_⟩
        exact still.imp_right fun closing => frame.closing.trans closing

theorem Inv.writeHandleRun {c : Cfg σ} {env : Env} (base : Base c) (good : Good R c)
    (free : c.stack = []) (clean : Clean (FlushOk c) c (writeHandleRun R c env)) : Inv R
    (writeHandleRun R c env) := by
  obtain ⟨conn, hconn⟩ := Option.isSome_iff_exists.mp base.tls
  simp only [Tcp.writeHandleRun, hconn] at clean ⊢
  split_ifs at clean ⊢
  · exact Inv.calm ⟨base, .inl good⟩ (.lostCall none .callConnLost rfl id id (.inl rfl))
  · have wrote := writeTls_traced (R := R) hconn env
    have spec := @writeTls_spec σ R c conn env base good free
    rcases hwrite : writeTls R c conn env with ⟨d, ret, env'⟩
    rw [hwrite] at wrote spec
    simp only [hwrite] at clean ⊢
    cases ret with
    | some n =>
        have rest := clean.split wrote (written_traced wrote.tls n env')
        obtain ⟨base', free', outcome⟩ : Base d ∧ d.stack = [] ∧ Wrote R d (some n) := spec rest.1
        cases outcome with
        | sent _ sent left still => exact Inv.written base' free' sent left still rest.2
        | blocked order closing empty idle =>
            simp only [Tcp.written, Nat.lt_irrefl, false_and, if_false, Tcp.afterWrite, empty,
              if_true, idle, Bool.false_eq_true]
            exact dead_closeFromWriteHandle base' free' order closing false env'
    | none =>
        have rest := clean.split wrote (closeFromWriteHandle_traced wrote.tls true env')
        obtain ⟨base', free', outcome⟩ : Base d ∧ d.stack = [] ∧ Wrote R d none := spec rest.1
        cases outcome with
        | refused sent left full =>
            have good' : Good R d :=
              ⟨sent, left.imp_right fun armed => ⟨.inl armed, by simp [free']⟩⟩
            exact Inv.closeFromWriteHandle ⟨base', .inl good'⟩ free'
              (fun empty => absurd empty full) rest.2
        | failed order closing =>
            exact dead_closeFromWriteHandle base' free' order closing true env'

theorem Base.pop {c : Cfg σ} (base : Base c) {frame : Frame} {stack : List Frame}
    (h : c.stack = frame :: stack) : Base { c with stack := stack } ∧
    (frame.nested = false → stack = []) := by
  have bottom := base.bottom
  rw [h] at bottom
  have later : ∀ other ∈ stack, other ∈ c.stack :=
    fun other hmem => h ▸ List.mem_cons_of_mem frame hmem
  refine ⟨⟨base.tls, base.size, base.chunks, fun hmem => base.noAttach (later _ hmem), ?_,
    fun k hk => base.lostFrames k (later _ hk)⟩, ?_⟩
  · intro other hmem
    have hne : stack ≠ [] := by
      rintro rfl
      cases hmem
    rw [List.dropLast_cons_of_ne_nil hne] at bottom
    exact bottom other (List.mem_cons_of_mem frame hmem)
  · intro handle
    by_contra hne
    rw [List.dropLast_cons_of_ne_nil hne] at bottom
    rw [bottom frame (by simp)] at handle
    cases handle

theorem Good.pop {c : Cfg σ} (good : Good R c) {frame : Frame} {stack : List Frame}
    (h : c.stack = frame :: stack) : Good R { c with stack := stack } := by
  refine ⟨good.sent, ?_⟩
  rcases good.rest with lost | ⟨rest, still⟩
  · exact .inl lost
  · exact .inr ⟨rest, fun hmem => still (h ▸ List.mem_cons_of_mem frame hmem)⟩

theorem Dying.pop {c : Cfg σ} (dying : Dying c) {frame : Frame} {stack : List Frame}
    (h : c.stack = frame :: stack) : Dying { c with stack := stack } :=
  ⟨dying.order, dying.lost, dying.closing, fun hmem =>
    dying.noResume (h ▸ List.mem_cons_of_mem frame hmem)⟩

theorem Inv.pop {c : Cfg σ} (inv : Inv R c) {frame : Frame} {stack : List Frame}
    (h : c.stack = frame :: stack) (other : frame ≠ .lost .writeHandle) : Inv R
    { c with stack := stack } := by
  refine ⟨(inv.base.pop h).1, ?_⟩
  rcases inv.state with good | dead
  · exact .inl (good.pop h)
  · refine .inr ⟨dead.toDying.pop h, fun bound => ?_⟩
    have hmem := dead.unbound bound
    rw [h] at hmem
    exact (List.mem_cons.mp hmem).resolve_left other.symm

theorem Inv.after {c : Cfg σ} {frame : Frame} {stack : List Frame} {r : Ret} {env : Env}
    (inv : Inv R c) (h : c.stack = frame :: stack)
    (clean : Clean (FlushOk c) { c with stack := stack }
      (frame.after R { c with stack := stack } r env)) :
    Inv R (frame.after R { c with stack := stack } r env) := by
  obtain ⟨base, bottom⟩ := inv.base.pop h
  cases frame with
  | attach => exact absurd (by rw [h]; simp) inv.base.noAttach
  | connectionMade | pause => exact inv.pop h (by simp)
  | getBuffer =>
      have popped := inv.pop h (by simp)
      cases r with
      | buffer size => exact (popped.calm (.emit _ ⟨rfl, rfl⟩)).received (bottom rfl) _ _
      | falsy | truthy | raised => exact popped.calm (.same rfl id id id)
  | data ended =>
      have popped := inv.pop h (by simp)
      cases ended with
      | true => exact popped.recvEof (bottom rfl)
      | false => exact popped.readRound (bottom rfl) clean
  | eof => exact (inv.pop h (by simp)).eofReceived (bottom rfl) clean
  | lost k =>
      cases k with
      | writeHandle =>
          have lost : c.lost := inv.base.lostFrames .writeHandle (by rw [h]; simp)
          rcases inv.state with good | dead
          · exact Inv.finishWrite ⟨base, .inl (good.pop h)⟩ (fun _ => .inl lost) clean
          · exact (dead.toDying.pop h).finishWrite base env
      | callConnLost | tryWrite | recvEof
      | readHandle => exact (inv.pop h (by simp)).tcpStreamClose clean
  | resume =>
      have mem : Frame.resume ∈ c.stack := by rw [h]; simp
      rcases inv.state with good | dead
      · have still : c.lost ∨ c.quiet R ∨ c.tr.closing = true :=
          good.rest.imp_right fun rest => rest.2 mem
        have rest : c.lost ∨ c.armed ∨ c.tr.state.writeBuf = [] :=
          good.rest.imp_right fun rest => rest.1.imp_right And.right
        exact Inv.afterWrite base (bottom rfl) good.sent rest still clean
      · exact absurd mem dead.noResume

theorem Inv.step {c d : Cfg σ} {a : Act × Env} (inv : Inv R c) (careful : Careful R c a)
    (h : step R c a = some d) : Inv R d := by
  have clean : Clean (FlushOk c) c d := fun obs hlog => careful d obs h hlog
  obtain ⟨act, env⟩ := a
  cases (step_stepped h).2 with
  | call m => exact inv.method m clean
  | server aborts => exact inv.method _ clean
  | ret r frame stack hstack => exact inv.after hstack (clean.same rfl)
  | poll => exact inv.calm (.same rfl id id id)
  | fire dir free =>
      have taken : Inv R { c with tables := { c.tables with event := none } } :=
        inv.calm (.same rfl id id id)
      simp only [fire] at clean ⊢
      split_ifs at clean ⊢ with bound
      · cases dir with
        | readable => exact taken.readRound free clean
        | writable =>
            rcases taken.state with good | dead
            · exact Inv.writeHandleRun taken.base good free clean
            · have hmem := dead.unbound bound
              rw [show ({ c with tables := { c.tables with event := none } } : Cfg σ).stack = []
                from free] at hmem
              cases hmem
      · exact taken
  | made free =>
      have ready : Inv R { c with tables := { c.tables with pendingMade := false }, exposed :=
          true } :=
        inv.calm (.same rfl id id id)
      exact ready.calm (.call _ _ (by simp) (by simp) (by simp) (.inr free))

theorem TlsStart.inv {c : Cfg σ} (hstart : TlsStart R c) (ready : c.armed ∨ c.quiet R) :
    Inv R c := by
  obtain ⟨tls, buf, log⟩ := hstart.fresh
  have rest : c.tr.state.writeBufDsize = 0 ∧ c.stack = [] := by
    cases hstart with
    | accepted => exact ⟨rfl, rfl⟩
    | connected =>
        simp only [Tcp.connected]
        split_ifs <;> exact ⟨rfl, rfl⟩
  obtain ⟨size, stack⟩ := rest
  refine ⟨⟨tls, by rw [size, buf, held_nil], by simp [buf], by simp [stack], by simp [stack],
    by simp [stack]⟩, .inl ⟨by simp [Cfg.kernelBytes, Cfg.producedBytes, log],
    .inr ⟨?_, by simp [stack]⟩⟩⟩
  rcases ready with armed | quiet
  · exact .inl armed
  · exact .inr ⟨quiet, buf⟩

/-- A run of careful steps sends what rustls produced in order and, until the
connection is lost, all of it, and keeps `WRITABLE` registered while something is left.
A new connection is registered for what rustls wants to send first; a server has
nothing to send before the client speaks. -/
theorem tls_outgoing (R : Rustls σ) (actions : List (Act × Env)) (start c : Cfg σ)
    (hstart : TlsStart R start) (ready : start.armed ∨ start.quiet R)
    (h : Runs.run (step R) start actions = some c)
    (careful : Runs.Guarded (step R) (Careful R) start actions) : Outgoing R c :=
  (Runs.run_preserves (fun _ _ _ inv ok hstep => Inv.step inv ok hstep) h
    (hstart.inv ready) careful).outgoing

/-- Two records, of which the kernel takes `n` bytes and one byte. -/
def twoRecords (n : Nat) : List (Act × Env) :=
  [(.poll .readable, ⟨[], [], 0⟩), (.fire, ⟨[.data [22]], [], 0⟩), (.made, ⟨[], [], 0⟩),
    (.call (.write [1, 2, 3]), ⟨[], [], 0⟩), (.ret .falsy, ⟨[], [], 0⟩),
    (.poll .writable, ⟨[], [], 0⟩), (.fire, ⟨[], [.ok n], 0⟩), (.call (.write [4]), ⟨[], [], 0⟩),
    (.poll .writable, ⟨[], [], 0⟩), (.fire, ⟨[], [.ok 1], 0⟩)]

/-- The kernel takes one byte of the first record; the other two are discarded and the
second record follows. -/
theorem tornRecord_followed :
    ¬ ∀ c, Runs.Reachable (step (clearTls 4096 8)) (accepted 3 (some []) false 1000) c →
      Outgoing (clearTls 4096 8) c := by
  intro always
  obtain ⟨c, hrun, hsent, hproduced⟩ :
    ∃ c, Runs.run (step (clearTls 4096 8)) (accepted 3 (some []) false 1000)
      (twoRecords 1) = some c ∧ c.kernelBytes = [1, 4] ∧ c.producedBytes = [1, 2, 3, 4] :=
      ⟨_, rfl, rfl, rfl⟩
  have order := (always c ⟨_, hrun⟩).order
  rw [hsent, hproduced] at order
  exact absurd order (by decide)

theorem careful_of_log {c d : Cfg σ} {a : Act × Env} (obs : List Obs) (hstep : step R c a = some d)
    (hlog : d.log = c.log ++ obs) (ok : ∀ o ∈ obs, FlushOk c o) : Careful R c a := by
  intro e more he hmore
  cases hstep.symm.trans he
  rw [hlog] at hmore
  exact List.append_cancel_left hmore ▸ ok

/-- Both records are taken whole. -/
theorem wholeRecords_sent :
    ∃ c, Runs.run (step (clearTls 4096 8)) (accepted 3 (some []) false 1000)
    (twoRecords 3) = some c ∧
      c.kernelBytes = [1, 2, 3, 4] ∧ Outgoing (clearTls 4096 8) c := by
  refine ⟨_, rfl, rfl, ?_⟩
  refine tls_outgoing (clearTls 4096 8) (twoRecords 3) _ _ (.accepted 3 [] false 1000)
    (.inr fun conn hconn => by cases hconn; rfl) rfl ?_
  refine Runs.guarded_cons rfl (careful_of_log [] rfl rfl (by simp)) ?_
  refine Runs.guarded_cons rfl (careful_of_log [.recvTls [22], .fed [22] 1] rfl rfl
    (by simp [FlushOk])) ?_
  refine Runs.guarded_cons rfl (careful_of_log [.callback .connectionMade []] rfl rfl
    (by simp [FlushOk])) ?_
  refine Runs.guarded_cons rfl (careful_of_log [.accepted [1, 2, 3]] rfl rfl (by simp [FlushOk])) ?_
  refine Runs.guarded_cons rfl (careful_of_log [] rfl rfl (by simp)) ?_
  refine Runs.guarded_cons rfl (careful_of_log [] rfl rfl (by simp)) ?_
  refine Runs.guarded_cons rfl (careful_of_log [.flushed false (some []) false (.ok 3),
    .encrypted [1, 2, 3] [1, 2, 3] true, .flushed false (some [1, 2, 3]) false (.ok 3)] rfl rfl
    (by simp [FlushOk, WriteResult.taken])) ?_
  refine Runs.guarded_cons rfl (careful_of_log [.accepted [4]] rfl rfl (by simp [FlushOk])) ?_
  refine Runs.guarded_cons rfl (careful_of_log [] rfl rfl (by simp)) ?_
  exact Runs.guarded_cons rfl (careful_of_log [.flushed false (some []) false (.ok 1),
    .encrypted [4] [4] true, .flushed false (some [4]) false (.ok 1)] rfl rfl
    (by simp [FlushOk, WriteResult.taken])) trivial

end TokioLoop.Tcp
