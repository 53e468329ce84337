import Mathlib.Data.List.Basic

/-! Finite runs of a partial deterministic machine. A machine is a function
`step : σ → α → Option σ`; the action carries every choice the environment makes,
and `none` means that the action is not enabled. A guarded run is one in which
every action meets a condition on the state it is taken in. -/
namespace Runs

variable {σ α : Type*}

/-- Execute the actions from left to right; a disabled action has no run. -/
def run (step : σ → α → Option σ) : σ → List α → Option σ
  | s, [] => some s
  | s, a :: rest => (step s a).bind fun t => run step t rest

/-- Every action of the list meets `G` in the state in which the run takes it. -/
def Guarded (step : σ → α → Option σ) (G : σ → α → Prop) : σ → List α → Prop
  | _, [] => True
  | s, a :: rest => G s a ∧ ∀ t, step s a = some t → Guarded step G t rest

/-- `P` holds in every state the run visits, the first and the last included. -/
def Always (step : σ → α → Option σ) (P : σ → Prop) : σ → List α → Prop
  | s, [] => P s
  | s, a :: rest => P s ∧ ∀ t, step s a = some t → Always step P t rest

/-- The states some run from `s` ends in. -/
def Reachable (step : σ → α → Option σ) (s t : σ) : Prop := ∃ actions, run step s actions = some t

variable {step : σ → α → Option σ} {s t u : σ} {a : α} {actions more : List α}

@[simp] theorem run_nil : run step s [] = some s := rfl

theorem run_cons : run step s (a :: actions) = (step s a).bind fun t => run step t actions := rfl

theorem run_cons_iff :
    run step s (a :: actions) = some u ↔ ∃ t, step s a = some t ∧ run step t actions = some u := by
  rw [run_cons, Option.bind_eq_some_iff]

theorem run_append_iff :
    run step s (actions ++ more) = some u ↔
      ∃ t, run step s actions = some t ∧ run step t more = some u := by
  induction actions generalizing s with
  | nil => simp
  | cons a actions ih =>
      simp only [List.cons_append, run_cons_iff, ih]
      constructor
      · rintro ⟨v, hv, w, hw, hu⟩
        exact ⟨w, ⟨v, hv, hw⟩, hu⟩
      · rintro ⟨w, ⟨v, hv, hw⟩, hu⟩
        exact ⟨v, hv, w, hw, hu⟩

theorem Reachable.refl : Reachable step s s := ⟨[], rfl⟩

theorem Reachable.head (first : step s a = some t) (rest : Reachable step t u) :
    Reachable step s u := by
  obtain ⟨actions, h⟩ := rest
  exact ⟨a :: actions, run_cons_iff.mpr ⟨t, first, h⟩⟩

theorem Reachable.trans (front : Reachable step s t) (back : Reachable step t u) :
    Reachable step s u := by
  obtain ⟨actions, h⟩ := front
  obtain ⟨more, h'⟩ := back
  exact ⟨actions ++ more, run_append_iff.mpr ⟨t, h, h'⟩⟩

/-- A condition on actions alone guards every run of such actions. -/
theorem guarded_of_forall {C : α → Prop} (h : ∀ a ∈ actions, C a) :
    Guarded step (fun _ a => C a) s actions := by
  induction actions generalizing s with
  | nil => trivial
  | cons a actions ih =>
      exact ⟨h a (by simp), fun t _ => ih fun b hb => h b (List.mem_cons_of_mem a hb)⟩

theorem guarded_cons {G : σ → α → Prop} (first : step s a = some t) (good : G s a)
    (rest : Guarded step G t actions) : Guarded step G s (a :: actions) := by
  refine ⟨good, fun u hu => ?_⟩
  rwa [Option.some.inj (hu.symm.trans first)]

theorem Guarded.and {G H : σ → α → Prop} (hg : Guarded step G s actions)
    (hh : Guarded step H s actions) : Guarded step (fun s a => G s a ∧ H s a) s actions := by
  induction actions generalizing s with
  | nil => trivial
  | cons a actions ih => exact ⟨⟨hg.1, hh.1⟩, fun t ht => ih (hg.2 t ht) (hh.2 t ht)⟩

/-- A guard that keeps an invariant and with it gives another guard. -/
theorem Guarded.mono {G H : σ → α → Prop} {I : σ → Prop}
    (one : ∀ s a t, I s → G s a → step s a = some t → I t) (gives : ∀ s a, I s → G s a → H s a)
    (hs : I s) (guarded : Guarded step G s actions) : Guarded step H s actions := by
  induction actions generalizing s with
  | nil => trivial
  | cons a actions ih =>
      exact ⟨gives s a hs guarded.1, fun t ht => ih (one s a t hs guarded.1 ht) (guarded.2 t ht)⟩

/-- The guard in the state a part of the run leads to. -/
theorem Guarded.next {G : σ → α → Prop} (guarded : Guarded step G s (actions ++ a :: more))
    (h : run step s actions = some t) : G t a := by
  induction actions generalizing s with
  | nil => exact Option.some.inj h ▸ guarded.1
  | cons b actions ih =>
      obtain ⟨v, first, rest⟩ := run_cons_iff.mp h
      exact ih (guarded.2 v first) rest

theorem guarded_cons_iff {G : σ → α → Prop} :
    Guarded step G s (a :: actions) ↔ G s a ∧ ∀ t ∈ step s a, Guarded step G t actions := Iff.rfl

instance guardedDecidable {G : σ → α → Prop} [∀ s a, Decidable (G s a)] :
    ∀ (s : σ) (actions : List α), Decidable (Guarded step G s actions)
  | _, [] => isTrue trivial
  | s, a :: actions =>
      have : ∀ t, Decidable (Guarded step G t actions) := fun t => guardedDecidable t actions
      decidable_of_iff (G s a ∧ ∀ t ∈ step s a, Guarded step G t actions) guarded_cons_iff.symm

/-- The two parts of a guarded run. -/
theorem Guarded.split {G : σ → α → Prop} (guarded : Guarded step G s (actions ++ more))
    (h : run step s actions = some t) : Guarded step G s actions ∧ Guarded step G t more := by
  induction actions generalizing s with
  | nil => exact ⟨trivial, Option.some.inj h ▸ guarded⟩
  | cons b actions ih =>
      obtain ⟨v, first, rest⟩ := run_cons_iff.mp h
      obtain ⟨front, back⟩ := ih (guarded.2 v first) rest
      exact ⟨guarded_cons first guarded.1 front, back⟩

/-- Invariant rule for guarded runs. -/
theorem run_preserves {G : σ → α → Prop} {I : σ → Prop}
    (one : ∀ s a t, I s → G s a → step s a = some t → I t)
    (h : run step s actions = some t) (hs : I s) (guarded : Guarded step G s actions) : I t := by
  induction actions generalizing s with
  | nil => exact Option.some.inj h ▸ hs
  | cons a actions ih =>
      obtain ⟨v, first, rest⟩ := run_cons_iff.mp h
      exact ih rest (one s a v hs guarded.1 first) (guarded.2 v first)

/-- Invariant rule for arbitrary runs. -/
theorem run_invariant {I : σ → Prop} (one : ∀ s a t, I s → step s a = some t → I t)
    (h : run step s actions = some t) (hs : I s) : I t := by
  induction actions generalizing s with
  | nil => exact Option.some.inj h ▸ hs
  | cons a actions ih =>
      obtain ⟨v, first, rest⟩ := run_cons_iff.mp h
      exact ih rest (one s a v hs first)

theorem Reachable.invariant {I : σ → Prop} (one : ∀ s a t, I s → step s a = some t → I t)
    (h : Reachable step s t) (hs : I s) : I t := by
  obtain ⟨actions, h⟩ := h
  exact run_invariant one h hs

/-- Exactness rule. If, under an invariant, an admitted step keeps `P` exactly when
it meets `G`, and a lost `P` never comes back, then a run of admitted actions ends
in `P` exactly when every one of its steps meets `G`. -/
theorem run_exact {C : α → Prop} {G : σ → α → Prop} {I P : σ → Prop}
    (inv : ∀ s a t, C a → I s → step s a = some t → I t)
    (keep : ∀ s a t, C a → I s → P s → step s a = some t → (P t ↔ G s a))
    (gone : ∀ s a t, C a → I s → ¬ P s → step s a = some t → ¬ P t)
    (h : run step s actions = some t) (admitted : ∀ a ∈ actions, C a) (hs : I s) (hp : P s) :
    P t ↔ Guarded step G s actions := by
  induction actions generalizing s with
  | nil => exact Option.some.inj h ▸ iff_of_true hp trivial
  | cons a actions ih =>
      obtain ⟨v, first, rest⟩ := run_cons_iff.mp h
      have ha : C a := admitted a (by simp)
      have later : ∀ b ∈ actions, C b := fun b hb => admitted b (List.mem_cons_of_mem a hb)
      have hv := inv s a v ha hs first
      have hkeep := keep s a v ha hs hp first
      by_cases good : G s a
      · rw [ih rest later hv (hkeep.mpr good)]
        constructor
        · intro guarded
          refine ⟨good, fun w hw => ?_⟩
          rwa [Option.some.inj (hw.symm.trans first)]
        · intro whole
          exact whole.2 v first
      · have lost := run_preserves (I := fun x => I x ∧ ¬ P x) (G := fun _ b => C b)
          (fun x b y hx hb hy => ⟨inv x b y hb hx.1 hy, gone x b y hb hx.1 hx.2 hy⟩)
          rest ⟨hv, fun hpv => good (hkeep.mp hpv)⟩ (guarded_of_forall later)
        exact iff_of_false lost.2 fun whole => good whole.1

theorem Always.start {P : σ → Prop} (h : Always step P s actions) : P s := by
  cases actions with
  | nil => exact h
  | cons a actions => exact h.1

theorem Always.last {P : σ → Prop} (always : Always step P s actions)
    (h : run step s actions = some t) :
    P t := by
  induction actions generalizing s with
  | nil => exact Option.some.inj h ▸ always
  | cons a actions ih =>
      obtain ⟨v, first, rest⟩ := run_cons_iff.mp h
      exact ih (always.2 v first) rest

theorem Always.mono {P Q : σ → Prop} (weaker : ∀ s, P s → Q s) (h : Always step P s actions) :
    Always step Q s actions := by
  induction actions generalizing s with
  | nil => exact weaker s h
  | cons a actions ih => exact ⟨weaker s h.1, fun t ht => ih (h.2 t ht)⟩

/-- Invariant rule for every state of a guarded run. -/
theorem always_of_guarded {G : σ → α → Prop} {I : σ → Prop}
    (one : ∀ s a t, I s → G s a → step s a = some t → I t) (hs : I s)
    (guarded : Guarded step G s actions) : Always step I s actions := by
  induction actions generalizing s with
  | nil => exact hs
  | cons a actions ih => exact ⟨hs, fun t ht => ih (one s a t hs guarded.1 ht) (guarded.2 t ht)⟩

/-- Exactness rule for a property that may be lost and come back: if, under an
invariant, an admitted step from `P` keeps it exactly when the step meets `G`, then `P`
holds in every state of a run of admitted actions exactly when every step of the run
meets `G`. -/
theorem always_iff_guarded_admitted {C : α → Prop} {G : σ → α → Prop} {I P : σ → Prop}
    (inv : ∀ s a t, C a → I s → step s a = some t → I t)
    (keep : ∀ s a t, C a → I s → P s → step s a = some t → (P t ↔ G s a))
    (h : run step s actions = some t) (admitted : ∀ a ∈ actions, C a) (hs : I s) (hp : P s) :
    Always step P s actions ↔ Guarded step G s actions := by
  induction actions generalizing s with
  | nil => exact iff_of_true hp trivial
  | cons a actions ih =>
      obtain ⟨v, first, rest⟩ := run_cons_iff.mp h
      have ha : C a := admitted a (by simp)
      have after : ∀ b ∈ actions, C b := fun b hb => admitted b (List.mem_cons_of_mem a hb)
      have hv := inv s a v ha hs first
      have hkeep := keep s a v ha hs hp first
      constructor
      · intro always
        have later := always.2 v first
        exact guarded_cons first (hkeep.mp later.start) ((ih rest after hv later.start).mp later)
      · intro guarded
        refine ⟨hp, fun w hw => ?_⟩
        obtain rfl := Option.some.inj (hw.symm.trans first)
        exact (ih rest after hv (hkeep.mpr guarded.1)).mpr (guarded.2 w first)

/-- The same for runs of any actions. -/
theorem always_iff_guarded {G : σ → α → Prop} {I P : σ → Prop}
    (inv : ∀ s a t, I s → step s a = some t → I t)
    (keep : ∀ s a t, I s → P s → step s a = some t → (P t ↔ G s a))
    (h : run step s actions = some t) (hs : I s) (hp : P s) :
    Always step P s actions ↔ Guarded step G s actions :=
  always_iff_guarded_admitted (C := fun _ => True) (fun s a t _ => inv s a t)
      (fun s a t _ => keep s a t) h
    (fun _ _ => trivial) hs hp

/-- Exactness rule for a loss that is announced by `D` before it shows in `P`: a run that
ends with nothing announced keeps `P` throughout exactly when each of its steps meets `G`. -/
theorem always_iff_guarded_settled {G : σ → α → Prop} {I P D : σ → Prop}
    (inv : ∀ s a t, I s → P s → step s a = some t → P t → I t)
    (keep : ∀ s a t, I s → P s → ¬ D s → step s a = some t → (P t ∧ ¬ D t ↔ G s a))
    (doomed : ∀ s a t, I s → P s → D s → step s a = some t → P t → D t)
    (h : run step s actions = some t) (hs : I s) (hp : P s) (hd : ¬ D s) :
    (Guarded step G s actions → Always step P s actions) ∧
      (¬ D t → Always step P s actions → Guarded step G s actions) := by
  have stays : ∀ (actions : List α) (s : σ), run step s actions = some t → I s → D s →
      Always step P s actions → D t := by
    intro actions
    induction actions with
    | nil =>
        intro s h _ hd _
        exact Option.some.inj h ▸ hd
    | cons a actions ih =>
        intro s h hs hd always
        obtain ⟨v, first, rest⟩ := run_cons_iff.mp h
        have later := always.2 v first
        exact ih v rest (inv s a v hs always.1 first later.start)
          (doomed s a v hs always.1 hd first later.start) later
  induction actions generalizing s with
  | nil => exact ⟨fun _ => hp, fun _ _ => trivial⟩
  | cons a actions ih =>
      obtain ⟨v, first, rest⟩ := run_cons_iff.mp h
      have hkeep := keep s a v hs hp hd first
      constructor
      · intro guarded
        obtain ⟨hpv, hdv⟩ := hkeep.mpr guarded.1
        refine ⟨hp, fun w hw => ?_⟩
        obtain rfl := Option.some.inj (hw.symm.trans first)
        exact (ih rest (inv s a w hs hp first hpv) hpv hdv).1 (guarded.2 w first)
      · intro settled always
        have later := always.2 v first
        have hv := inv s a v hs hp first later.start
        have hdv : ¬ D v := fun hdv => settled (stays actions v rest hv hdv later)
        exact guarded_cons first (hkeep.mp ⟨later.start, hdv⟩)
          ((ih rest hv later.start hdv).2 settled later)

/-- Two guards that agree on every step taken from a state with an invariant which the
first one keeps guard the same completed runs. -/
theorem guarded_congr_kept {G H : σ → α → Prop} {I : σ → Prop}
    (inv : ∀ s a t, I s → G s a → step s a = some t → I t)
    (same : ∀ s a t, I s → step s a = some t → (G s a ↔ H s a)) (h : run step s actions = some t)
    (hs : I s) : Guarded step G s actions ↔ Guarded step H s actions := by
  induction actions generalizing s with
  | nil => exact Iff.rfl
  | cons a actions ih =>
      obtain ⟨v, first, rest⟩ := run_cons_iff.mp h
      have here := same s a v hs first
      constructor
      · intro guarded
        exact guarded_cons first (here.mp guarded.1)
          ((ih rest (inv s a v hs guarded.1 first)).mp (guarded.2 v first))
      · intro guarded
        have good := here.mpr guarded.1
        exact guarded_cons first good ((ih rest (inv s a v hs good first)).mpr (guarded.2 v first))

/-- Two guards that agree on every step taken from a state with the invariant guard the
same completed runs. -/
theorem guarded_congr_run {G H : σ → α → Prop} {I : σ → Prop}
    (inv : ∀ s a t, I s → step s a = some t → I t)
    (same : ∀ s a t, I s → step s a = some t → (G s a ↔ H s a)) (h : run step s actions = some t)
    (hs : I s) : Guarded step G s actions ↔ Guarded step H s actions :=
  guarded_congr_kept (fun s a t hs _ => inv s a t hs) same h hs

/-- Two guards that agree on every action of a state with the invariant guard the
same runs. -/
theorem guarded_congr {G H : σ → α → Prop} {I : σ → Prop}
    (inv : ∀ s a t, I s → step s a = some t → I t) (same : ∀ s a, I s → (G s a ↔ H s a))
    (hs : I s) : Guarded step G s actions ↔ Guarded step H s actions := by
  induction actions generalizing s with
  | nil => exact Iff.rfl
  | cons a actions ih =>
      have later : (∀ t, step s a = some t → Guarded step G t actions) ↔
          ∀ t, step s a = some t → Guarded step H t actions := by
        constructor
        · intro h t ht
          exact (ih (inv s a t hs ht)).mp (h t ht)
        · intro h t ht
          exact (ih (inv s a t hs ht)).mpr (h t ht)
      exact and_congr (same s a hs) later

/-- Every entry of a history stands in the relation `Q` to what was recorded before it. -/
def EachAfter {β : Type*} (Q : List β → β → Prop) (history : List β) : Prop :=
  ∀ before x after, history = before ++ x :: after → Q before x

theorem eachAfter_nil {β : Type*} {Q : List β → β → Prop} : EachAfter Q [] := by
  intro before x after split
  cases (List.append_eq_nil_iff.mp split.symm).2

theorem EachAfter.concat {β : Type*} {Q : List β → β → Prop} {history : List β} {y : β}
    (each : EachAfter Q history) (last : Q history y) : EachAfter Q (history ++ [y]) := by
  intro before x after split
  rcases List.append_eq_append_iff.mp split with
    ⟨between, hbefore, hrest⟩ | ⟨between, hhistory, hrest⟩
  · cases between with
    | nil =>
        rw [List.append_nil] at hbefore
        cases hrest
        exact hbefore ▸ last
    | cons head tail => cases (List.append_eq_nil_iff.mp (List.cons.inj hrest).2.symm).2
  · cases between with
    | nil =>
        rw [List.append_nil] at hhistory
        cases hrest
        exact hhistory ▸ last
    | cons head tail =>
        obtain ⟨rfl, _⟩ := List.cons.inj hrest
        exact each before x tail hhistory

end Runs
