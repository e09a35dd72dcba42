import JvmAsm.Proofs.PoolPermanence

/-! # Indices and constants

An index is looked up in two ways.  A constant knows its index, which is kept in its
slot; and an index is searched for by halving in the layout.  The two have to agree
after any mixture of layouts and later additions, and they do, since both speak of the
cells of the layout: an entry has the index at which its cell starts
(`index_eq_ok_iff`), and the search finds the cell that starts at an index.

The cells leave no gaps and do not overlap, and a constant is one or two indices wide.
So each index below the size belongs to one entry, as its first or as its second index
(`first_or_second`). -/

namespace JvmAsm

/-- A constant takes one index or two. -/
theorem Constant.width_cases (constant : Constant) : constant.width = 1 ∨ constant.width = 2 := by
  cases constant <;> simp [width]

namespace Pool

variable {pool : Pool} {entry : Entry} {constant : Constant} {index : UInt16}

/-- The index is the second of the two that a constant takes up. -/
def SecondSlot (pool : Pool) (entry : Entry) (index : UInt16) : Prop :=
  ∃ constant first, pool.constant? entry = some constant ∧ constant.width = 2 ∧
    pool.index entry = .ok first ∧ index.toNat = first.toNat + 1

/-- The index is one of those that an entry takes up. -/
def Covers (pool : Pool) (entry : Entry) (index : UInt16) : Prop :=
  pool.index entry = .ok index ∨ pool.SecondSlot entry index

/-- No index is the first and the second of the same entry. -/
theorem SecondSlot.index_ne (h : pool.SecondSlot entry index) : pool.index entry ≠ .ok index := by
  obtain ⟨constant, first, -, -, hfirst, behind⟩ := h
  intro here
  obtain rfl : first = index := Except.ok.inj (hfirst.symm.trans here)
  omega

/-! ## Cells -/

section

variable (hpool : pool.Invariant) (settled : pool.state ≠ .growing)

include hpool settled

/-- An entry has the index at which its cell starts. -/
theorem index_eq_ok_iff :
    pool.index entry = .ok index ↔ (index.toNat, entry) ∈ pool.layout.row := by
  constructor
  · exact mem_cells_of_index hpool settled
  · intro hcell
    obtain ⟨_, other, -, hother, same⟩ := index_of_mem_cells hpool settled hcell
    rw [hother, UInt16.toNat_inj.mp same]

/-- A constant has the index of its entry. -/
theorem indexOf_eq_ok_iff : pool.indexOf constant = .ok index ↔
    ∃ entry, pool.constant? entry = some constant ∧ pool.index entry = .ok index := by
  rw [indexOf, if_neg settled]
  cases found : pool.get? constant with
  | none =>
    constructor
    · intro known
      cases known
    · rintro ⟨entry, present, -⟩
      cases found.symm.trans ((hpool.lookup constant entry).mpr present)
  | some entry =>
    have present := (hpool.lookup constant entry).mp found
    constructor
    · intro known
      exact ⟨entry, present, known⟩
    · rintro ⟨other, present', known⟩
      obtain rfl : entry = other :=
        Option.some.inj (found.symm.trans ((hpool.lookup constant other).mpr present'))
      exact known

/-- **Looking up an index undoes looking up a constant.** -/
theorem constantAt?_iff_indexOf :
    pool.constantAt? index = some constant ↔ pool.indexOf constant = .ok index := by
  rw [constantAt?_eq_some_iff hpool settled, indexOf_eq_ok_iff hpool settled]
  constructor
  · rintro ⟨entry, hcell, present⟩
    exact ⟨entry, present, (index_eq_ok_iff hpool settled).mpr hcell⟩
  · rintro ⟨entry, present, known⟩
    exact ⟨entry, (index_eq_ok_iff hpool settled).mp known, present⟩

/-- An entry takes up the indices that its cell covers. -/
theorem covers_iff : pool.Covers entry index ↔
    ∃ start, (start, entry) ∈ pool.layout.row ∧ start ≤ index.toNat ∧
      index.toNat < start + pool.widthOf entry := by
  constructor
  · rintro (known | ⟨constant, first, present, wide, known, behind⟩)
    · have hcell := (index_eq_ok_iff hpool settled).mp known
      have positive : 0 < pool.widthOf entry := widthOf_pos hpool settled hcell
      exact ⟨index.toNat, hcell, Nat.le_refl _, by omega⟩
    · have width := widthOf_of_constant? present
      exact ⟨first.toNat, (index_eq_ok_iff hpool settled).mp known, by omega, by omega⟩
  · rintro ⟨start, hcell, low, high⟩
    obtain ⟨constant, first, present, known, rfl⟩ := index_of_mem_cells hpool settled hcell
    rw [widthOf_of_constant? present] at high
    by_cases here : first = index
    · exact .inl (here ▸ known)
    · -- The cell starts before the index, so it is wide.
      have apart : first.toNat ≠ index.toNat := fun same => here (UInt16.toNat_inj.mp same)
      rcases constant.width_cases with narrow | wide
      · omega
      · exact .inr ⟨constant, first, present, wide, known, by omega⟩

/-- No index is taken up twice. -/
theorem Covers.unique {other : Entry} (h : pool.Covers entry index)
    (h' : pool.Covers other index) : entry = other := by
  obtain ⟨start, hcell, covers⟩ := (covers_iff hpool settled).mp h
  obtain ⟨start', hcell', covers'⟩ := (covers_iff hpool settled).mp h'
  have same :=
    (hpool.settled settled).contiguous.eq_of_covers index.toNat hcell covers hcell' covers'
  exact (Prod.mk.inj same).2

/-- The indices from 1 on and below the size are taken up. -/
theorem exists_covers_iff : (∃ entry, pool.Covers entry index) ↔ index ≠ 0 ∧ index < pool.size := by
  have laidOut := hpool.settled settled
  have size : index < pool.size ↔ index.toNat < pool.layout.stop.toNat := by
    rw [UInt16.lt_iff_toNat_lt, hpool.toNat_size, laidOut.stop]
  have first : index ≠ 0 ↔ 1 ≤ index.toNat := by
    rw [ne_eq, ← UInt16.toNat_inj, UInt16.toNat_zero]
    omega
  rw [size, first]
  constructor
  · rintro ⟨entry, covers⟩
    obtain ⟨start, hcell, low, high⟩ := (covers_iff hpool settled).mp covers
    have bounds := laidOut.contiguous.bounds hcell
    dsimp only at bounds
    omega
  · rintro ⟨low, high⟩
    obtain ⟨⟨start, entry⟩, hcell, covers⟩ := laidOut.contiguous.exists_covers low high
    exact ⟨entry, (covers_iff hpool settled).mpr ⟨start, hcell, covers⟩⟩

/-- **Each index belongs to one entry**, as its first or as its second, and not as both. -/
theorem first_or_second (low : index ≠ 0) (high : index < pool.size) :
    (∃! entry, pool.index entry = .ok index) ∧ (∀ entry, ¬ pool.SecondSlot entry index) ∨
      (∃! entry, pool.SecondSlot entry index) ∧ ∀ entry, pool.index entry ≠ .ok index := by
  obtain ⟨entry, covers⟩ := (exists_covers_iff hpool settled).mpr ⟨low, high⟩
  have only {other : Entry} (h : pool.Covers other index) : other = entry :=
    h.unique hpool settled covers
  rcases covers with first | second
  · refine .inl ⟨⟨entry, first, fun other h => only (.inl h)⟩, ?_⟩
    intro other h
    obtain rfl := only (.inr h)
    exact h.index_ne first
  · refine .inr ⟨⟨entry, second, fun other h => only (.inr h)⟩, ?_⟩
    intro other h
    obtain rfl := only (.inl h)
    exact second.index_ne h

/-- There is a constant at an index if and only if an entry has it. -/
theorem constantAt?_eq_none_iff :
    pool.constantAt? index = none ↔ ∀ entry, pool.index entry ≠ .ok index := by
  rw [Option.eq_none_iff_forall_ne_some]
  constructor
  · intro absent entry known
    obtain ⟨constant, present⟩ := exists_constant?_of_index known
    refine absent constant ((constantAt?_iff_indexOf hpool settled).mpr ?_)
    exact (indexOf_eq_ok_iff hpool settled).mpr ⟨entry, present, known⟩
  · intro unused constant found
    obtain ⟨entry, -, known⟩ :=
      (indexOf_eq_ok_iff hpool settled).mp ((constantAt?_iff_indexOf hpool settled).mp found)
    exact unused entry known

end

/-! ## All pools -/

theorem constantAt?_of_growing (hpool : pool.Invariant) (growing : pool.state = .growing)
    (index : UInt16) : pool.constantAt? index = none := by
  obtain ⟨hlayout, -⟩ := hpool.growing growing
  rw [constantAt?, hlayout]
  rfl

/-- The states in which indices are fixed. -/
theorem settled_iff : pool.state = .stable ∨ pool.state = .sealed ↔ pool.state ≠ .growing := by
  cases pool.state <;> simp

/-- **Indices and constants look each other up.**  In every reachable pool:

* a constant is found at an index if and only if the pool is stable or sealed and the index is the
  constant's;
* there is no constant at index 0, at the second index of a wide number, from the size of the pool
  on, and as long as the pool is growing, and everywhere else there is one;
* once indices are fixed, each index from 1 on and below the size is either the index of exactly one
  entry, or the second index of exactly one that takes two. -/
theorem indices_and_constants_agree {pool : Pool} (reached : pool.Reachable) (index : UInt16) :
    (∀ constant, pool.constantAt? index = some constant ↔
      (pool.state = .stable ∨ pool.state = .sealed) ∧ pool.indexOf constant = .ok index) ∧
    (pool.constantAt? index = none ↔
      index = 0 ∨ (∃ entry, pool.SecondSlot entry index) ∨ pool.size ≤ index ∨
        pool.state = .growing) ∧
    ((pool.state = .stable ∨ pool.state = .sealed) → 1 ≤ index → index < pool.size →
      (∃! entry, pool.index entry = .ok index) ∧ (∀ entry, ¬ pool.SecondSlot entry index) ∨
        (∃! entry, pool.SecondSlot entry index) ∧ ∀ entry, pool.index entry ≠ .ok index) := by
  have hpool := reached.invariant
  have positive : 1 ≤ index → index ≠ 0 := by
    rintro low rfl
    exact absurd low (by decide)
  rw [settled_iff]
  by_cases growing : pool.state = .growing
  · have nowhere := constantAt?_of_growing hpool growing index
    refine ⟨fun constant => ?_, ?_, fun settled => absurd growing settled⟩
    · rw [nowhere]
      simp [growing]
    · simp [nowhere, growing]
  · refine ⟨fun constant => ?_, ?_, fun _ low high =>
      first_or_second hpool growing (positive low) high⟩
    · rw [constantAt?_iff_indexOf hpool growing]
      simp [growing]
    · rw [constantAt?_eq_none_iff hpool growing]
      constructor
      · intro unused
        by_cases inside : index ≠ 0 ∧ index < pool.size
        · rcases first_or_second hpool growing inside.1 inside.2 with
            ⟨⟨entry, first, -⟩, -⟩ | ⟨⟨entry, second, -⟩, -⟩
          · exact absurd first (unused entry)
          · exact .inr (.inl ⟨entry, second⟩)
        · rw [not_and_or, not_not, UInt16.not_lt] at inside
          rcases inside with zero | beyond
          · exact .inl zero
          · exact .inr (.inr (.inl beyond))
      · intro reason entry first
        obtain ⟨low, high⟩ := (exists_covers_iff hpool growing).mp ⟨entry, .inl first⟩
        rcases reason with zero | ⟨other, second⟩ | beyond | still
        · exact low zero
        · obtain rfl : other = entry := Covers.unique hpool growing (.inr second) (.inl first)
          exact second.index_ne first
        · exact absurd high (UInt16.not_lt.mpr beyond)
        · exact growing still

/-- The pool of `quoteThenLong` was laid out by use and then took a long number: the text stands
first although it came second, and the number covers the last two indices. -/
theorem quoteThenLong_indices_agree :
    (empty.after quoteThenLong).Reachable ∧
      (empty.after quoteThenLong).constantAt? 1 = some (.string "a") ∧
      (empty.after quoteThenLong).constantAt? 4 = none ∧
      ((∃! entry, (empty.after quoteThenLong).SecondSlot entry 4) ∧
        ∀ entry, (empty.after quoteThenLong).index entry ≠ .ok 4) := by
  have reached : (empty.after quoteThenLong).Reachable := ⟨quoteThenLong, rfl⟩
  have closed : (empty.after quoteThenLong).state = .sealed := by rw [after_quoteThenLong]
  have second : (empty.after quoteThenLong).SecondSlot ⟨2⟩ 4 := by
    rw [after_quoteThenLong]
    exact ⟨.long 1, 3, rfl, rfl, rfl, rfl⟩
  obtain ⟨found, -, -⟩ := indices_and_constants_agree reached 1
  obtain ⟨-, absent, one⟩ := indices_and_constants_agree reached 4
  refine ⟨reached, (found _).mpr ⟨.inr closed, ?_⟩, absent.mpr (.inr (.inl ⟨⟨2⟩, second⟩)), ?_⟩
  · have settled := settled_of_state closed (by decide)
    refine (indexOf_eq_ok_iff reached.invariant settled).mpr ⟨⟨1⟩, ?_, ?_⟩
    · rw [after_quoteThenLong]
      rfl
    · rw [after_quoteThenLong]
      rfl
  · rcases one (.inr closed) (by decide) (by rw [after_quoteThenLong]; decide) with
      ⟨-, none_second⟩ | only
    · exact absurd second (none_second ⟨2⟩)
    · exact only

end Pool

end JvmAsm
