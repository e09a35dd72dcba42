import Mathlib.Data.List.Forall2

/-! # Checks in sequence

Linking, encoding and resolving are sequences of checks: a check answers a value
or the first cause of failure.  The facts here take such sequences apart.  A
sequence that succeeds is made of checks that all succeeded, and a walk along a
list then relates the list to the answers element by element; a walk that fails
does so with the failure of one element.

`FailsOnly allowed check` says that every way `check` can fail is among those
allowed.  It follows the structure of a check, so which failures a long sequence
can end in is read off its parts. -/

namespace JvmAsm.Check

variable {ε α β : Type}

/-- A sequence of checks passes if both do. -/
theorem bind_eq_ok {first : Except ε α} {next : α → Except ε β} {b : β} :
    first >>= next = .ok b ↔ ∃ a, first = .ok a ∧ next a = .ok b := by
  cases first with
  | error e => simp [bind, Except.bind]
  | ok a => simp [bind, Except.bind]

/-- The first failure is the one reported. -/
theorem bind_eq_error {first : Except ε α} {next : α → Except ε β} {e : ε} :
    first >>= next = .error e ↔ first = .error e ∨ ∃ a, first = .ok a ∧ next a = .error e := by
  cases first with
  | error e' => simp [bind, Except.bind]
  | ok a => simp [bind, Except.bind]

@[simp] theorem pure_eq_ok {a b : α} : (pure a : Except ε α) = .ok b ↔ a = b := by
  simp [pure, Except.pure]

@[simp] theorem pure_ne_error {a : α} {e : ε} : ¬ (pure a : Except ε α) = .error e := by
  simp [pure, Except.pure]

variable {check : α → Except ε β} {items : List α} {answers : List β}

/-- A walk that succeeds answers, element by element, what the checks answer. -/
theorem forall₂_of_mapM (h : items.mapM check = .ok answers) :
    List.Forall₂ (fun item answer => check item = .ok answer) items answers := by
  induction items generalizing answers with
  | nil =>
    rw [List.mapM_nil, pure_eq_ok] at h
    subst h
    exact .nil
  | cons item items ih =>
    rw [List.mapM_cons] at h
    obtain ⟨answer, hanswer, h⟩ := bind_eq_ok.mp h
    obtain ⟨rest, hrest, h⟩ := bind_eq_ok.mp h
    rw [pure_eq_ok] at h
    subst h
    exact .cons hanswer (ih hrest)

/-- A walk fails with the failure of one of the elements. -/
theorem exists_of_mapM_eq_error {e : ε} (h : items.mapM check = .error e) :
    ∃ item ∈ items, check item = .error e := by
  induction items with
  | nil => exact absurd h pure_ne_error
  | cons item items ih =>
    rw [List.mapM_cons] at h
    rcases bind_eq_error.mp h with h | ⟨answer, -, h⟩
    · exact ⟨item, List.mem_cons_self, h⟩
    · rcases bind_eq_error.mp h with h | ⟨rest, -, h⟩
      · obtain ⟨other, hmem, hother⟩ := ih h
        exact ⟨other, List.mem_cons_of_mem item hmem, hother⟩
      · exact absurd h pure_ne_error

/-- Checks that keep their answers keep them along a walk. -/
theorem mapM_mono {check' : α → Except ε β}
    (keeps : ∀ item answer, check item = .ok answer → check' item = .ok answer)
    (h : items.mapM check = .ok answers) : items.mapM check' = .ok answers := by
  induction items generalizing answers with
  | nil => exact h
  | cons item items ih =>
    rw [List.mapM_cons] at h ⊢
    obtain ⟨answer, hanswer, h⟩ := bind_eq_ok.mp h
    obtain ⟨rest, hrest, h⟩ := bind_eq_ok.mp h
    exact bind_eq_ok.mpr ⟨answer, keeps item answer hanswer, bind_eq_ok.mpr ⟨rest, ih hrest, h⟩⟩

theorem length_of_mapM (h : items.mapM check = .ok answers) : answers.length = items.length :=
  (forall₂_of_mapM h).length_eq.symm

theorem getElem?_of_forall₂ {R : α → β → Prop} {as : List α} {bs : List β} {i : Nat} {a : α}
    (h : List.Forall₂ R as bs) (ha : as[i]? = some a) : ∃ b, bs[i]? = some b ∧ R a b := by
  induction h generalizing i with
  | nil => cases ha
  | @cons a' b' as bs head _ ih =>
    cases i with
    | zero =>
      obtain rfl : a' = a := Option.some.inj ha
      exact ⟨b', rfl, head⟩
    | succ i => exact ih ha

/-- Everything on the right is related to something on the left. -/
theorem exists_of_forall₂ {R : α → β → Prop} {as : List α} {bs : List β} {b : β}
    (h : List.Forall₂ R as bs) (hb : b ∈ bs) : ∃ a ∈ as, R a b := by
  induction h with
  | nil => cases hb
  | @cons a' b' as bs head _ ih =>
    rcases List.mem_cons.mp hb with rfl | hb
    · exact ⟨a', List.mem_cons_self, head⟩
    · obtain ⟨a, ha, related⟩ := ih hb
      exact ⟨a, List.mem_cons_of_mem a' ha, related⟩

/-- A walk along numbered elements, by position. -/
theorem getElem?_of_mapM_zipIdx {check : α × Nat → Except ε β} {i : Nat} {item : α}
    (h : items.zipIdx.mapM check = .ok answers) (hi : items[i]? = some item) :
    ∃ answer, answers[i]? = some answer ∧ check (item, i) = .ok answer := by
  have numbered : items.zipIdx[i]? = some (item, i) := by
    rw [List.getElem?_zipIdx, hi]
    simp
  exact getElem?_of_forall₂ (forall₂_of_mapM h) numbered

/-! ## Which checks pass -/

/-- The check answers. -/
def Passes (check : Except ε α) : Prop := ∃ a, check = .ok a

section Passes

variable {first : Except ε α} {next : α → Except ε β} {condition : Prop} [Decidable condition]

@[simp] theorem passes_ok (a : α) : Passes (.ok a : Except ε α) := ⟨a, rfl⟩

@[simp] theorem passes_pure (a : α) : Passes (pure a : Except ε α) := ⟨a, rfl⟩

@[simp] theorem not_passes_error (e : ε) : ¬ Passes (.error e : Except ε α) := by
  rintro ⟨a, h⟩
  cases h

/-- What is checked second may depend on the answer of the first. -/
theorem passes_bind : Passes (first >>= next) ↔ ∃ a, first = .ok a ∧ Passes (next a) := by
  simp only [Passes, bind_eq_ok]
  exact ⟨fun ⟨b, a, ha, hb⟩ => ⟨a, ha, b, hb⟩, fun ⟨a, ha, b, hb⟩ => ⟨b, a, ha, hb⟩⟩

/-- A check whose answer does not decide about the next one. -/
theorem passes_bind_of_iff {P : Prop} (h : ∀ a, first = .ok a → (Passes (next a) ↔ P)) :
    Passes (first >>= next) ↔ Passes first ∧ P := by
  rw [passes_bind]
  constructor
  · rintro ⟨a, ha, hnext⟩
    exact ⟨⟨a, ha⟩, (h a ha).mp hnext⟩
  · rintro ⟨⟨a, ha⟩, hP⟩
    exact ⟨a, ha, (h a ha).mpr hP⟩

/-- What is answered in the end does not matter. -/
theorem passes_bind_pure (answer : α → β) :
    Passes (first >>= fun a => pure (answer a)) ↔ Passes first := by
  rw [passes_bind_of_iff fun _ _ => iff_true_intro (passes_pure _), and_true]

theorem passes_ite_error {e : ε} :
    Passes (if condition then first else .error e) ↔ condition ∧ Passes first := by
  by_cases h : condition <;> simp [h]

theorem passes_error_ite {e : ε} :
    Passes (if condition then .error e else first) ↔ ¬ condition ∧ Passes first := by
  by_cases h : condition <;> simp [h]

/-- **A walk passes if and only if every element does.** -/
theorem passes_mapM : Passes (items.mapM check) ↔ ∀ item ∈ items, Passes (check item) := by
  induction items with
  | nil => simp
  | cons item items ih =>
    rw [List.mapM_cons, passes_bind_of_iff fun _ _ => passes_bind_pure _, ih, List.forall_mem_cons]

/-- A walk along numbered elements passes if and only if it does at every position. -/
theorem passes_mapM_zipIdx {check : α × Nat → Except ε β} :
    Passes (items.zipIdx.mapM check) ↔
      ∀ i item, items[i]? = some item → Passes (check (item, i)) := by
  rw [passes_mapM]
  constructor
  · intro h i item hitem
    exact h (item, i) (List.mem_zipIdx_iff_getElem?.mpr hitem)
  · intro h numbered hmem
    exact h numbered.2 numbered.1 (List.mem_zipIdx_iff_getElem?.mp hmem)

end Passes

/-! ## Which failures there can be -/

/-- Every failure of the check is allowed. -/
def FailsOnly (allowed : ε → Prop) (check : Except ε α) : Prop :=
  ∀ e, check = .error e → allowed e

namespace FailsOnly

variable {allowed allowed' : ε → Prop} {first : Except ε α} {next : α → Except ε β}

theorem ok (a : α) : FailsOnly allowed (.ok a : Except ε α) := fun _ => nofun

theorem error {e : ε} (h : allowed e) : FailsOnly allowed (.error e : Except ε α) := by
  intro e' he
  obtain rfl := Except.error.inj he
  exact h

theorem mono (h : FailsOnly allowed first) (sub : ∀ e, allowed e → allowed' e) :
    FailsOnly allowed' first := fun e he => sub e (h e he)

/-- Failures of a sequence are those of its parts. -/
theorem bind (h : FailsOnly allowed first)
    (h' : ∀ a, first = .ok a → FailsOnly allowed (next a)) :
    FailsOnly allowed (first >>= next) := by
  intro e he
  rcases bind_eq_error.mp he with he | ⟨a, ha, he⟩
  · exact h e he
  · exact h' a ha e he

theorem mapM (h : ∀ item ∈ items, FailsOnly allowed (check item)) :
    FailsOnly allowed (items.mapM check) := by
  intro e he
  obtain ⟨item, hmem, hitem⟩ := exists_of_mapM_eq_error he
  exact h item hmem e hitem

theorem ite {condition : Prop} [Decidable condition] {other : Except ε α}
    (h : condition → FailsOnly allowed first) (h' : ¬ condition → FailsOnly allowed other) :
    FailsOnly allowed (if condition then first else other) := by
  split
  · exact h (by assumption)
  · exact h' (by assumption)

end FailsOnly

end JvmAsm.Check
