/-!
# Computations that keep their state when they fail

A computation reads and changes a state, and returns a value or fails; in both cases the state that
it reached is at hand. What was done before a failure is not undone.

* `Attempt` — such computations, a monad.
* `Attempt.state`, `Attempt.update`, `Attempt.fail` — the basic ones.
-/

namespace Castellano

/-- What a computation ends with: a value or the cause of a failure, and the state reached. -/
inductive Attempt.Result (ε σ α : Type) where
  | ok (value : α) (state : σ)
  | error (cause : ε) (state : σ)
deriving DecidableEq, Repr

/-- The state that was reached. -/
def Attempt.Result.state {ε σ α : Type} : Attempt.Result ε σ α → σ
  | ok _ s | error _ s => s

/-- A computation with state `σ` and failures `ε`. -/
structure Attempt (ε σ α : Type) where
  run : σ → Attempt.Result ε σ α

namespace Attempt

variable {ε σ α β : Type}

instance : Monad (Attempt ε σ) where
  pure a := ⟨fun s => .ok a s⟩
  bind x f := ⟨fun s =>
    match x.run s with
    | .ok a s' => (f a).run s'
    | .error e s' => .error e s'⟩

/-- The state. -/
def state : Attempt ε σ σ := ⟨fun s => .ok s s⟩

/-- Changes the state. -/
def update (f : σ → σ) : Attempt ε σ Unit := ⟨fun s => .ok () (f s)⟩

/-- Fails. -/
def fail (e : ε) : Attempt ε σ α := ⟨fun s => .error e s⟩

/-- What fails without a state fails in every state. -/
instance : MonadLift (Except ε) (Attempt ε σ) where
  monadLift
    | .ok a => pure a
    | .error e => fail e

@[simp]
theorem run_pure (a : α) (s : σ) : (pure a : Attempt ε σ α).run s = .ok a s := rfl

@[simp]
theorem run_bind (x : Attempt ε σ α) (f : α → Attempt ε σ β) (s : σ) :
    (x >>= f).run s =
      match x.run s with
      | .ok a s' => (f a).run s'
      | .error e s' => .error e s' := rfl

@[simp]
theorem run_state (s : σ) : (state : Attempt ε σ σ).run s = .ok s s := rfl

@[simp]
theorem run_update (f : σ → σ) (s : σ) : (update f : Attempt ε σ Unit).run s = .ok () (f s) := rfl

@[simp]
theorem run_fail (e : ε) (s : σ) : (fail e : Attempt ε σ α).run s = .error e s := rfl

end Attempt

end Castellano
