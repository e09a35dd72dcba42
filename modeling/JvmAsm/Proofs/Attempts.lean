import JvmAsm.Attempt
import Mathlib.Order.Defs.Unbundled

/-! # Reasoning about attempts

An attempt leaves a state behind however it ends.  So there are two questions to ask of it.
What holds of the state **in any case**: this is a relation between the state before and after,
and if it is a preorder, attempts that keep it compose (`Keeps`).  And what holds **if it
fails**: there the cause matters too, and of two attempts in a row the first must be known to
have kept something when the second fails (`Fails.bind`). -/

namespace JvmAsm.Attempt

/-! ## Answers in another form -/

section

variable {ε σ α β : Type} {attempt : Attempt ε σ α} {f : α → β} {s s' : σ} {b : β} {e : ε}

/-- An answer in another form leaves the state the attempt left. -/
theorem map_eq_ok : (f <$> attempt) s = .ok b s' ↔ ∃ a, attempt s = .ok a s' ∧ f a = b := by
  simp only [Functor.map, EStateM.map]
  cases attempt s with
  | ok a s₁ =>
    constructor
    · intro h
      cases h
      exact ⟨a, rfl, rfl⟩
    · rintro ⟨_, h, rfl⟩
      cases h
      rfl
  | error e s₁ => simp

/-- An attempt whose answer is only given another form. -/
theorem bind_pure_eq_ok : (attempt >>= fun a => pure (f a)) s = .ok b s' ↔
    ∃ a, attempt s = .ok a s' ∧ f a = b := by
  rw [bind_eq_ok]
  constructor
  · rintro ⟨a, middle, first, last⟩
    obtain ⟨ha, rfl⟩ := pure_eq_ok.mp last
    exact ⟨a, first, ha⟩
  · rintro ⟨a, first, ha⟩
    exact ⟨a, s', first, pure_eq_ok.mpr ⟨ha, rfl⟩⟩

theorem bind_pure_eq_error : (attempt >>= fun a => pure (f a)) s = .error e s' ↔
    attempt s = .error e s' := by
  rw [bind_eq_error]
  constructor
  · rintro (first | ⟨a, middle, -, last⟩)
    · exact first
    · exact (pure_eq_error.mp last).elim
  · exact .inl

end

/-! ## In any case -/

section

variable {ε σ α β : Type} {R : σ → σ → Prop}

/-- However it ends, the attempt leaves a state that is related to the one it found. -/
def Keeps (R : σ → σ → Prop) (attempt : Attempt ε σ α) : Prop := ∀ s, R s (attempt.after s)

theorem after_of_ok {attempt : Attempt ε σ α} {s s' : σ} {a : α} (h : attempt s = .ok a s') :
    attempt.after s = s' := by
  rw [after, h]

theorem after_of_error {attempt : Attempt ε σ α} {s s' : σ} {e : ε} (h : attempt s = .error e s') :
    attempt.after s = s' := by
  rw [after, h]

theorem after_congr {attempt other : Attempt ε σ α} {s s' : σ} (h : attempt s = other s') :
    attempt.after s = other.after s' := by
  rw [after, h, after]

/-- In particular when the attempt succeeds… -/
theorem Keeps.ok {attempt : Attempt ε σ α} (h : attempt.Keeps R) {s s' : σ} {a : α}
    (run : attempt s = .ok a s') : R s s' :=
  after_of_ok run ▸ h s

/-- …and when it fails. -/
theorem Keeps.error {attempt : Attempt ε σ α} (h : attempt.Keeps R) {s s' : σ} {e : ε}
    (run : attempt s = .error e s') : R s s' :=
  after_of_error run ▸ h s

/-- Both ends of an attempt have to be looked at. -/
theorem keeps_of {attempt : Attempt ε σ α} (ok : ∀ s a s', attempt s = .ok a s' → R s s')
    (error : ∀ s e s', attempt s = .error e s' → R s s') : attempt.Keeps R := by
  intro s
  cases run : attempt s with
  | ok a s' =>
    rw [after_of_ok run]
    exact ok s a s' run
  | error e s' =>
    rw [after_of_error run]
    exact error s e s' run

variable [IsPreorder σ R]

/-- An attempt behind a check that refuses without changing anything. -/
theorem Keeps.guarded {attempt guarded : Attempt ε σ α} (h : attempt.Keeps R)
    (either : ∀ s, (∃ e, guarded s = .error e s) ∨ guarded s = attempt s) : guarded.Keeps R := by
  intro s
  rcases either s with ⟨e, refused⟩ | passed
  · rw [after_of_error refused]
    exact refl_of R s
  · rw [after_congr passed]
    exact h s

theorem keeps_pure (a : α) : (pure a : Attempt ε σ α).Keeps R := fun s => refl_of R s

theorem keeps_fail (cause : ε) : (fail cause : Attempt ε σ α).Keeps R := fun s => refl_of R s

/-- A sequence of attempts goes as far as it can: the relation holds wherever it stops. -/
theorem Keeps.bind {first : Attempt ε σ α} {next : α → Attempt ε σ β} (hfirst : first.Keeps R)
    (hnext : ∀ a, (next a).Keeps R) : (first >>= next).Keeps R := by
  refine keeps_of (fun s b s'' run => ?_) (fun s e s'' run => ?_)
  · obtain ⟨a, s', run₁, run₂⟩ := bind_eq_ok.mp run
    exact trans_of R (hfirst.ok run₁) ((hnext a).ok run₂)
  · rcases bind_eq_error.mp run with run₁ | ⟨a, s', run₁, run₂⟩
    · exact hfirst.error run₁
    · exact trans_of R (hfirst.ok run₁) ((hnext a).error run₂)

/-- …and so does a walk through a list, by induction over it. -/
theorem keeps_mapM {step : α → Attempt ε σ β} (items : List α) (h : ∀ item, (step item).Keeps R) :
    (items.mapM step).Keeps R := by
  induction items with
  | nil => exact keeps_pure []
  | cons item items ih =>
    rw [List.mapM_cons]
    exact (h item).bind fun b => ih.bind fun bs => keeps_pure (b :: bs)

theorem keeps_forM {step : α → Attempt ε σ PUnit} (items : List α)
    (h : ∀ item, (step item).Keeps R) : (items.forM step).Keeps R := by
  induction items with
  | nil => exact fun s => refl_of R s
  | cons item items ih => exact (h item).bind fun _ => ih

end

/-! ## Failures -/

section

variable {ε σ α β : Type} {E E' : ε → σ → σ → Prop} {attempt : Attempt ε σ α}

/-- Whatever the attempt fails for, this relates the cause and the states before and after. -/
def Fails (E : ε → σ → σ → Prop) (attempt : Attempt ε σ α) : Prop :=
  ∀ ⦃s e s'⦄, attempt s = .error e s' → E e s s'

theorem Fails.imp (h : attempt.Fails E) (more : ∀ e s s', E e s s' → E' e s s') :
    attempt.Fails E' :=
  fun _ _ _ run => more _ _ _ (h run)

theorem fails_pure (a : α) : (pure a : Attempt ε σ α).Fails E :=
  fun _ _ _ run => (pure_eq_error.mp run).elim

theorem fails_fail {cause : ε} (h : ∀ s, E cause s s) : (fail cause : Attempt ε σ α).Fails E := by
  intro s e s' run
  cases run
  exact h s

/-- An attempt that never fails. -/
theorem fails_of_ok (h : ∀ s, ∃ a s', attempt s = .ok a s') : attempt.Fails E := by
  intro s e s' run
  obtain ⟨a, s'', ok⟩ := h s
  cases ok.symm.trans run

/-- **Two attempts in a row.**  When the second fails, the first succeeded and did what it always
does. -/
theorem Fails.bind {R : σ → σ → Prop} {next : α → Attempt ε σ β} (first : attempt.Fails E)
    (kept : attempt.Keeps R) (second : ∀ a, (next a).Fails E)
    (later : ∀ e s s' s'', R s s' → E e s' s'' → E e s s'') : (attempt >>= next).Fails E := by
  intro s e s'' run
  rcases bind_eq_error.mp run with run | ⟨a, s', run, run'⟩
  · exact first run
  · exact later e s s' s'' (kept.ok run) (second a run')

/-- Only the attempt itself can fail, not the form its answer is put into. -/
theorem Fails.bind_pure {f : α → β} (h : attempt.Fails E) :
    (attempt >>= fun a => pure (f a)).Fails E :=
  fun _ _ _ run => h (bind_pure_eq_error.mp run)

/-- Causes do not depend on how far a list was worked through. -/
theorem fails_mapM {P : ε → Prop} {step : α → Attempt ε σ β} (items : List α)
    (h : ∀ item, (step item).Fails fun e _ _ => P e) :
    (items.mapM step).Fails fun e _ _ => P e := by
  induction items with
  | nil => exact fails_pure []
  | cons item items ih =>
    rw [List.mapM_cons]
    have kept : (step item).Keeps fun _ _ => True := fun _ => trivial
    exact (h item).bind kept (fun b => ih.bind_pure) fun _ _ _ _ _ failed => failed

end

end JvmAsm.Attempt
