import Mathlib.Init

/-! Code that may raise and keeps what it has done so far, as in a language with
exceptions and mutable state. `call` runs it; its equations follow the operators. -/

/-- A computation on a state of type `σ` that returns an `α` or raises an `ε`. -/
abbrev Raising (σ ε α : Type) := ExceptT ε (StateM σ) α

namespace Raising

variable {σ ε α β : Type}

/-- The outcome, and the state in either case. -/
def call (p : Raising σ ε α) (s : σ) : Except ε α × σ := p.run.run s

@[simp] theorem call_pure (a : α) (s : σ) : call (pure a : Raising σ ε α) s = (.ok a, s) := rfl

@[simp] theorem call_throw (e : ε) (s : σ) : call (throw e : Raising σ ε α) s = (.error e, s) := rfl

@[simp] theorem call_get (s : σ) : call (get : Raising σ ε σ) s = (.ok s, s) := rfl

@[simp] theorem call_modify (f : σ → σ)
    (s : σ) : call (modify f : Raising σ ε PUnit) s = (.ok ⟨⟩, f s) := rfl

/-- An outcome that leaves the state alone. -/
def lift (r : Except ε α) : Raising σ ε α := ExceptT.mk (pure r)

@[simp] theorem call_lift (r : Except ε α) (s : σ) : call (lift r : Raising σ ε α) s = (r, s) := rfl

/-- A computation on the first part of a state. -/
def onFst {τ : Type} (p : Raising σ ε α) : Raising (σ × τ) ε α :=
  ExceptT.mk fun s => ((call p s.1).1, (call p s.1).2, s.2)

@[simp] theorem call_onFst {τ : Type} (p : Raising σ ε α) (s : σ × τ) :
    call (onFst p) s = ((call p s.1).1, (call p s.1).2, s.2) := rfl

/-- What follows a computation runs on its result, and not at all if it raised. -/
def andThen (f : α → Raising σ ε β) : Except ε α × σ → Except ε β × σ
  | (.ok a, t) => call (f a) t
  | (.error e, t) => (.error e, t)

@[simp] theorem andThen_ok (f : α → Raising σ ε β) (a : α)
    (t : σ) : andThen f (.ok a, t) = call (f a) t := rfl

@[simp] theorem andThen_error (f : α → Raising σ ε β) (e : ε) (t : σ) :
    andThen f (.error e, t) = (.error e, t) := rfl

@[simp] theorem call_bind (p : Raising σ ε α) (f : α → Raising σ ε β) (s : σ) :
    call (p >>= f) s = andThen f (call p s) := by
  simp only [call, ExceptT.run_bind, StateT.run_bind]
  rcases p.run.run s with ⟨e | a, t⟩
  · rfl
  · rfl

@[simp] theorem call_map (f : α → β) (p : Raising σ ε α) (s : σ) :
    call (f <$> p) s = andThen (fun a => pure (f a)) (call p s) := by
  rw [map_eq_pure_bind, call_bind]

/-- What the handler makes of a computation. -/
def orElse (f : ε → Raising σ ε α) : Except ε α × σ → Except ε α × σ
  | (.ok a, t) => (.ok a, t)
  | (.error e, t) => call (f e) t

@[simp] theorem orElse_ok (f : ε → Raising σ ε α) (a : α)
    (t : σ) : orElse f (.ok a, t) = (.ok a, t) := rfl

@[simp] theorem orElse_error (f : ε → Raising σ ε α) (e : ε)
    (t : σ) : orElse f (.error e, t) = call (f e) t := rfl

@[simp] theorem call_tryCatch (p : Raising σ ε α) (f : ε → Raising σ ε α) (s : σ) :
    call (tryCatch p f) s = orElse f (call p s) := by
  simp only [call, tryCatch, tryCatchThe, MonadExceptOf.tryCatch, ExceptT.tryCatch, ExceptT.run_mk,
    StateT.run_bind]
  change (StateT.run p.run s >>= _) = _
  rcases p.run.run s with ⟨e | a, t⟩
  · rfl
  · rfl

end Raising
