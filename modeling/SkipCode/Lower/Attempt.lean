import SkipCode.Lower.Error

/-!
# Attempts

An attempt changes a state and may fail; what it changed before it failed stays changed. So a
failing step of a block or of the class storage leaves its traces, as it does in the state of a
unit.
-/

namespace SkipCode

/-- A computation on `σ` that may fail without undoing what it did. -/
abbrev Attempt (σ : Type) := ExceptT LowerError (StateM σ)

namespace Attempt

variable {σ τ α β : Type}

/-- Runs an attempt: its answer and the state it leaves. -/
def run (m : Attempt σ α) (s : σ) : Except LowerError α × σ := (ExceptT.run m).run s

@[simp] theorem run_pure (a : α) (s : σ) : run (pure a : Attempt σ α) s = (.ok a, s) := rfl

@[simp] theorem run_throw (e : LowerError) (s : σ) :
    run (throw e : Attempt σ α) s = (.error e, s) := rfl

/-- An attempt goes on where the one before succeeded, with the state it left. -/
theorem run_bind (m : Attempt σ α) (f : α → Attempt σ β) (s : σ) :
    run (m >>= f) s =
      match run m s with
      | (.ok a, s) => run (f a) s
      | (.error e, s) => (.error e, s) := by
  simp only [run, ExceptT.run_bind, StateT.run_bind]
  cases h : (ExceptT.run m).run s with
  | mk r t => cases r <;> rfl

/-- An attempt on a part of the state. -/
def zoom (view : τ → σ) (put : σ → τ → τ) (m : Attempt σ α) : Attempt τ α :=
  ExceptT.mk fun t =>
    let (r, s) := Attempt.run m (view t)
    (r, put s t)

/-- Changes the state by a step that either succeeds or changes nothing. -/
def modifyM (f : σ → Except LowerError σ) : Attempt σ Unit := do
  set (← (f (← get) : Except LowerError σ))

end Attempt

end SkipCode
