/-! # Attempts

Everything that builds a class file works on a state and may fail, and what was
done before a failure stays done: a constant whose last part does not fit has
still left its other parts in the pool. An attempt is therefore a state
transformer whose result, good or bad, comes with the state it leaves behind.

The equations below take a sequence of two attempts apart, by how it ended. -/

namespace JvmAsm

/-- A change of a state that may fail and keeps what it did before failing. -/
abbrev Attempt (ε σ α : Type) := EStateM ε σ α

namespace Attempt

variable {ε σ α β : Type}

/-- Fails and changes nothing. -/
@[inline] def fail (cause : ε) : Attempt ε σ α := fun s => .error cause s

/-- Goes on with what was found, if it was. -/
def ofExcept : Except ε α → Attempt ε σ α
  | .ok a => pure a
  | .error cause => fail cause

theorem bind_eq_ok {first : Attempt ε σ α} {next : α → Attempt ε σ β} {s s'' : σ} {b : β} :
    (first >>= next) s = .ok b s'' ↔ ∃ a s', first s = .ok a s' ∧ next a s' = .ok b s'' := by
  simp only [bind, EStateM.bind]
  cases first s <;> simp [and_assoc]

theorem bind_eq_error {first : Attempt ε σ α} {next : α → Attempt ε σ β} {s s'' : σ} {e : ε} :
    (first >>= next) s = .error e s'' ↔
      first s = .error e s'' ∨ ∃ a s', first s = .ok a s' ∧ next a s' = .error e s'' := by
  simp only [bind, EStateM.bind]
  cases first s <;> simp [and_assoc]

@[simp] theorem pure_eq_ok {a a' : α} {s s' : σ} :
    (pure a : Attempt ε σ α) s = .ok a' s' ↔ a = a' ∧ s = s' := by
  simp [pure, EStateM.pure]

@[simp] theorem pure_eq_error {a : α} {e : ε} {s s' : σ} :
    (pure a : Attempt ε σ α) s = .error e s' ↔ False := by
  simp [pure, EStateM.pure]

/-- The state an attempt leaves behind, however it ended. -/
def after (attempt : Attempt ε σ α) (s : σ) : σ :=
  match attempt s with
  | .ok _ s' => s'
  | .error _ s' => s'

end Attempt

end JvmAsm
