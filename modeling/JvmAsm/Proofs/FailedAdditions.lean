import JvmAsm.Proofs.PoolPermanence
import JvmAsm.Proofs.TextEncoding

/-! # What a failed addition leaves behind

An addition interns the parts of a constant before the constant itself, and each of them
can turn out too long, or one too many.  Nothing is taken back then.  So a failed
addition has many possible outcomes; what they have in common is that the pool only
gained something, and only parts of the constant.

`Gained touched pool pool'` says so from outside, in terms of what the pool answers:
entries keep constants and indices, what is new was absent and is `touched`, and counts
of uses change only for touched constants, while the pool is growing.  It follows from
`Grows`, which is about the steps in between (`Grows.gained`).

A count is a 32-bit number and starts again from zero behind the last one, so that it is not
enough to say that it rises: any number is some number of uses more than any other.  What
keeps it meaningful is that one addition counts few uses, a part of the constant at most as
often as it occurs there (`counting_add`): counts rise, unless they pass the last number. -/

namespace JvmAsm

namespace Pool

open Constant (PartOf)

/-! ## Counting -/

section

variable {touched : Constant → Prop} {pool pool' : Pool}

/-- Counting a use of one entry leaves the others alone. -/
theorem references?_bump (growing : pool.state = .growing) (entry other : Entry) :
    (pool.bump entry).references? other =
      if entry = other then (pool.references? other).map (· + 1) else pool.references? other := by
  obtain ⟨rank⟩ := entry
  obtain ⟨rank'⟩ := other
  rw [bump_of_growing growing]
  simp only [references?, Array.getElem?_modify, Entry.mk.injEq]
  split
  · rw [Option.map_map, Option.map_map]
    rfl
  · rfl

theorem references?_pushed (constant : Constant) (children : List Entry) (entry : Entry) :
    (pool.pushed constant children).references? entry =
      if entry.rank = pool.slots.size then some 1 else pool.references? entry := by
  rw [references?, pushed, Array.getElem?_push]
  split
  · rfl
  · rfl

/-- **One step counts a use of a touched constant**, or nothing. -/
theorem Step.references? (h : Step touched pool pool') {entry : Entry} {constant : Constant}
    (present : pool.constant? entry = some constant) :
    pool'.references? entry = pool.references? entry ∨
      pool.state = .growing ∧ touched constant := by
  cases h with
  | @bump other counts growing known ours =>
    rw [references?_bump growing]
    by_cases same : other = entry
    · subst same
      obtain rfl : counts = constant := Option.some.inj (known.symm.trans present)
      exact .inr ⟨growing, ours⟩
    · rw [if_neg same]
      exact .inl rfl
  | push unsealed fresh short spells fits ours =>
    rw [references?_pushed, if_neg (Nat.ne_of_lt (rank_lt_of_constant? present))]
    exact .inl rfl

theorem Grows.references? (h : Grows touched pool pool') {entry : Entry} {constant : Constant}
    (present : pool.constant? entry = some constant) :
    pool'.references? entry = pool.references? entry ∨
      pool.state = .growing ∧ touched constant := by
  induction h with
  | refl => exact .inl rfl
  | tail grows step ih =>
    have change := step.references? (Grows.constant? grows present)
    rw [Grows.state_eq grows] at change
    rcases ih with same | counted
    · rwa [same] at change
    · exact .inr counted

/-! ## How many uses -/

/-- What was there is counted at most as many times more as it was asked for, with 32 bits. -/
def CountsUp (asked : List Constant) (pool pool' : Pool) : Prop :=
  ∀ entry constant count, pool.constant? entry = some constant →
    pool.references? entry = some count →
    ∃ more ≤ asked.count constant, ∃ count', pool'.references? entry = some count' ∧
      count'.toNat = (count.toNat + more) % 2 ^ 32

variable {asked asked' : List Constant} {pool'' : Pool}

theorem CountsUp.mono (h : CountsUp asked pool pool') (more : asked.Sublist asked') :
    CountsUp asked' pool pool' := by
  intro entry constant count present counted
  obtain ⟨times, few, rest⟩ := h entry constant count present counted
  exact ⟨times, Nat.le_trans few (more.count_le constant), rest⟩

/-- **Uses add up.** -/
theorem CountsUp.trans (h : CountsUp asked pool pool')
    (keeps : ∀ entry constant, pool.constant? entry = some constant →
      pool'.constant? entry = some constant)
    (h' : CountsUp asked' pool' pool'') : CountsUp (asked ++ asked') pool pool'' := by
  intro entry constant count present counted
  obtain ⟨times, few, count', counted', sum⟩ := h entry constant count present counted
  obtain ⟨times', few', count'', counted'', sum'⟩ :=
    h' entry constant count' (keeps entry constant present) counted'
  refine ⟨times + times', ?_, count'', counted'', ?_⟩
  · rw [List.count_append]
    omega
  · rw [sum', sum, Nat.mod_add_mod, Nat.add_assoc]

/-- **The pool with more constants, all of them `touched`.** -/
structure Gained (touched : Constant → Prop) (pool pool' : Pool) : Prop where
  state : pool'.state = pool.state
  /-- Every entry keeps its constant. -/
  constant : ∀ entry constant, pool.constant? entry = some constant →
    pool'.constant? entry = some constant
  /-- Every entry keeps its index, or goes on without one. -/
  index : ∀ entry constant, pool.constant? entry = some constant →
    pool'.index entry = pool.index entry
  /-- Any other entry is for a touched constant that was absent. -/
  new : ∀ entry constant, pool'.constant? entry = some constant →
    pool.constant? entry = some constant ∨ pool.get? constant = none ∧ touched constant
  /-- Counts change only for touched constants, while the pool is growing. -/
  references : ∀ entry constant, pool.constant? entry = some constant →
    pool'.references? entry = pool.references? entry ∨
      pool.state = .growing ∧ touched constant
  invariant : pool'.Invariant

theorem index_of_growing (growing : pool.state = .growing) (entry : Entry) :
    pool.index entry = .error .poolNotStable :=
  if_pos growing

theorem Grows.index (h : Grows touched pool pool') (hpool : pool.Invariant) {entry : Entry}
    {constant : Constant} (present : pool.constant? entry = some constant) :
    pool'.index entry = pool.index entry := by
  by_cases growing : pool.state = .growing
  · rw [index_of_growing growing, index_of_growing (h.state_eq.trans growing)]
  · obtain ⟨index, hindex, -, -⟩ := index_of_constant? hpool growing present
    rw [hindex, h.extends.index hindex]

theorem Grows.new (h : Grows touched pool pool') (hpool : pool.Invariant) {entry : Entry}
    {constant : Constant} (present : pool'.constant? entry = some constant) :
    pool.constant? entry = some constant ∨ pool.get? constant = none ∧ touched constant := by
  have found := ((h.invariant hpool).lookup constant entry).mpr present
  cases known : pool.get? constant with
  | some old =>
    have same := (hpool.lookup constant old).mp known
    have found' := ((h.invariant hpool).lookup constant old).mpr (h.constant? same)
    obtain rfl : old = entry := Option.some.inj (found'.symm.trans found)
    exact .inl same
  | none =>
    refine .inr ⟨rfl, ?_⟩
    by_contra other
    rw [h.get?_of_not_touched other, known] at found
    cases found

/-- **A pool that grew gained what was touched.** -/
theorem Grows.gained (h : Grows touched pool pool') (hpool : pool.Invariant) :
    Gained touched pool pool' where
  state := h.state_eq
  constant _ _ := h.constant?
  index _ _ := h.index hpool
  new _ _ := h.new hpool
  references _ _ := h.references?
  invariant := h.invariant hpool

end

/-! ## Failed additions -/

theorem Reachable.perform {pool : Pool} (reached : pool.Reachable) (edit : Edit) :
    (edit.perform.after pool).Reachable := by
  obtain ⟨history, rfl⟩ := reached
  refine ⟨history ++ [edit], ?_⟩
  rw [after, List.foldl_append]
  rfl

end Pool

end JvmAsm
