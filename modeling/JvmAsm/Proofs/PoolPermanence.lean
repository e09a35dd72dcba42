import JvmAsm.Proofs.PoolExtension
import JvmAsm.Proofs.PoolRoundTrip

/-! # Entries and indices are permanent

An entry is handed out once and used much later, and an index ends up in bytes that
nobody rewrites.  So whatever happens to a pool must leave both alone.  `Extends` says
so of one edit; here it is carried along whole runs, together with the other direction:
below the size of a stable pool nothing new ever appears, not even at the second index
of a wide constant (`Extends.constantAt?`).  The reason is that the indices below the
size are all taken: each is covered by some constant, a constant keeps its place and
its width, and no index is covered twice.

States go one way, from growing to stable to sealed, one step at a time
(`PoolState.Next`).  A sealed pool refuses every edit that would change it, and is the
same pool for ever. -/

namespace JvmAsm

/-- **The one way from state to state.** -/
inductive PoolState.Next : PoolState → PoolState → Prop
  /-- Indices were fixed. -/
  | settle : Next .growing .stable
  /-- The pool was sealed. -/
  | close : Next .stable .sealed

namespace Pool

/-! ## Indices -/

section

variable {pool pool' : Pool} (hpool : pool.Invariant) (settled : pool.state ≠ .growing)

include hpool settled

/-- The constant at an index is that of the entry which stands there. -/
theorem constantAt?_eq_some_iff {index : UInt16} {constant : Constant} :
    pool.constantAt? index = some constant ↔
      ∃ entry, (index.toNat, entry) ∈ pool.layout.row ∧
        pool.constant? entry = some constant := by
  simp only [constantAt?, Option.bind_eq_some_iff, get?_layout_eq_some_iff hpool settled,
    UInt16.toNat_toUInt64]

/-- An entry stands in the layout under its index. -/
theorem mem_cells_of_index {entry : Entry} {index : UInt16}
    (h : pool.index entry = .ok index) :
    (index.toNat, entry) ∈ pool.layout.row := by
  obtain ⟨constant, present⟩ := exists_constant?_of_index h
  obtain ⟨index', hindex', -, hcell⟩ := index_of_constant? hpool settled present
  obtain rfl : index = index' := Except.ok.inj (h.symm.trans hindex')
  exact hcell

variable (hpool' : pool'.Invariant) (settled' : pool'.state ≠ .growing) (h : pool.Extends pool')

include hpool' settled' h

/-- What stands in the layout stays where it is. -/
theorem Extends.mem_cells {start : Nat} {entry : Entry}
    (hcell : (start, entry) ∈ pool.layout.row) :
    (start, entry) ∈ pool'.layout.row := by
  obtain ⟨_, index, -, hindex, rfl⟩ := index_of_mem_cells hpool settled hcell
  exact mem_cells_of_index hpool' settled' (h.index hindex)

/-- **Below the size of a stable pool nothing new appears.** -/
theorem Extends.constantAt? {index : UInt16} (below : index < pool.size) :
    pool'.constantAt? index = pool.constantAt? index := by
  have laidOut := hpool.settled settled
  have laidOut' := hpool'.settled settled'
  have below : index.toNat < pool.layout.stop.toNat := by
    rw [laidOut.stop, ← hpool.toNat_size]
    exact UInt16.lt_iff_toNat_lt.mp below
  refine Option.ext fun constant => ?_
  rw [constantAt?_eq_some_iff hpool settled, constantAt?_eq_some_iff hpool' settled']
  constructor
  · rintro ⟨entry', hcell', present'⟩
    -- The index is covered by a constant of the old pool, which still covers it.
    have low := (laidOut'.contiguous.bounds hcell').1
    obtain ⟨⟨start, entry⟩, hcell, covers⟩ := laidOut.contiguous.exists_covers low below
    obtain ⟨other, present, -⟩ := (mem_cells_iff hpool settled).mp hcell
    have width : pool'.widthOf entry = pool.widthOf entry := by
      rw [widthOf_of_constant? present, widthOf_of_constant? (h.constant? present)]
    have wide := widthOf_pos hpool' settled' hcell'
    have same : (start, entry) = (index.toNat, entry') := by
      refine laidOut'.contiguous.eq_of_covers index.toNat
        (h.mem_cells hpool settled hpool' settled' hcell) ?_ hcell' ?_
      · rw [width]
        exact covers
      · dsimp only at wide ⊢
        omega
    obtain ⟨rfl, rfl⟩ := Prod.mk.inj same
    obtain rfl : other = constant :=
      Option.some.inj ((h.constant? present).symm.trans present')
    exact ⟨entry, hcell, present⟩
  · rintro ⟨entry, hcell, present⟩
    exact ⟨entry, h.mem_cells hpool settled hpool' settled' hcell, h.constant? present⟩

end

/-! ## States -/

theorem state_add (pool : Pool) (hpool : pool.Invariant) (constant : Constant) :
    ((Pool.add constant).after pool).state = pool.state := by
  have adds := adds_add constant hpool
  unfold Attempt.after
  cases run : Pool.add constant pool with
  | ok entry pool' => exact (adds.ok entry pool' run).1.state_eq
  | error cause pool' => exact (adds.error cause pool' run).state_eq

/-- **One edit leaves the state alone or takes it one step further.** -/
theorem Does.next {pool pool' : Pool} {edit : Edit} (h : Does pool edit pool')
    (hpool : pool.Invariant) : Relation.ReflGen PoolState.Next pool.state pool'.state := by
  cases h with
  | add constant =>
    rw [state_add pool hpool constant]
  | settle settles growing all =>
    rw [growing]
    exact .single .settle
  | close stable =>
    rw [stable]
    exact .single .close
  | idle untimely => exact .refl

/-- No edit changes a sealed pool. -/
theorem Does.eq_of_sealed {pool pool' : Pool} {edit : Edit} (h : Does pool edit pool')
    (closed : pool.state = .sealed) : pool' = pool := by
  cases h with
  | add constant => rw [Attempt.after, add_of_sealed closed]
  | settle settles growing all => cases growing.symm.trans closed
  | close stable => cases stable.symm.trans closed
  | idle untimely => rfl

/-! ## Runs -/

theorem extends_after {pool : Pool} (hpool : pool.Invariant) (later : List Edit) :
    Extends pool (pool.after later) := by
  induction later generalizing pool with
  | nil => exact .refl pool
  | cons edit later ih => exact (extends_perform hpool edit).trans (ih (hpool.perform edit))

theorem next_after {pool : Pool} (hpool : pool.Invariant) (later : List Edit) :
    Relation.ReflTransGen PoolState.Next pool.state (pool.after later).state := by
  induction later generalizing pool with
  | nil => exact .refl
  | cons edit later ih =>
    have step := (does_perform pool edit).next hpool
    exact step.to_reflTransGen.trans (ih (hpool.perform edit))

theorem after_of_sealed {pool : Pool} (closed : pool.state = .sealed) (later : List Edit) :
    pool.after later = pool := by
  induction later with
  | nil => rfl
  | cons edit later ih =>
    show (edit.perform.after pool).after later = pool
    rw [(does_perform pool edit).eq_of_sealed closed, ih]

/-- There is no way back to growing. -/
theorem settled_after {pool : Pool} (hpool : pool.Invariant) (settled : pool.state ≠ .growing)
    (later : List Edit) : (pool.after later).state ≠ .growing := by
  intro growing
  have back := next_after hpool later
  rw [growing] at back
  rcases back.cases_tail with same | ⟨state, -, step⟩
  · exact settled same.symm
  · cases step

/-- The pool comes from a fresh one by some history. -/
def Reachable (pool : Pool) : Prop := ∃ history, empty.after history = pool

theorem Reachable.invariant {pool : Pool} (reached : pool.Reachable) : pool.Invariant := by
  obtain ⟨history, rfl⟩ := reached
  exact invariant_empty.after history

/-- **Entries and indices are permanent.**  From a reachable pool on, whatever is done and
however it ends:

* every entry keeps its constant;
* once indices are fixed, every entry keeps its index, and below the size of the pool every index
  keeps its constant or stays without one;
* each edit takes the state at most one step further, so the states of a run follow each other in
  the one order there is;
* a sealed pool stays the same, and so do the bytes that are written of it. -/
theorem entries_and_indices_are_permanent {pool : Pool} (reached : pool.Reachable)
    (later : List Edit) :
    (∀ entry constant, pool.constant? entry = some constant →
      (pool.after later).constant? entry = some constant) ∧
    (pool.state ≠ .growing →
      (∀ entry constant, pool.constant? entry = some constant →
        ∃ index, pool.index entry = .ok index ∧ (pool.after later).index entry = .ok index) ∧
      ∀ index, index < pool.size → (pool.after later).constantAt? index = pool.constantAt? index) ∧
    (∀ edit : Edit, Relation.ReflGen PoolState.Next pool.state (edit.perform.after pool).state) ∧
    Relation.ReflTransGen PoolState.Next pool.state (pool.after later).state ∧
    (pool.state = .sealed →
      pool.after later = pool ∧
        ∀ sink, (pool.after later).write sink = pool.write sink) := by
  have hpool := reached.invariant
  have kept := extends_after hpool later
  refine ⟨fun entry constant => kept.constant?, fun settled => ⟨?_, ?_⟩,
    fun edit => (does_perform pool edit).next hpool, next_after hpool later, fun closed => ?_⟩
  · intro entry constant present
    obtain ⟨index, hindex, -, -⟩ := index_of_constant? hpool settled present
    exact ⟨index, hindex, kept.index hindex⟩
  · intro index below
    exact kept.constantAt? hpool settled (hpool.after later)
      (settled_after hpool settled later) below
  · rw [after_of_sealed closed]
    exact ⟨rfl, fun _ => rfl⟩

/-- One wide number, with its indices fixed. -/
def oneLong : List Edit := [.add (.long 1), .stabilize]

theorem after_oneLong : empty.after oneLong =
    { slots := #[⟨.long 1, [], 1, some 1⟩]
      lookup := (∅ : Std.HashMap Constant Entry).insert (.long 1) ⟨0⟩
      layout := ⟨#[(1, ⟨0⟩)], 3⟩
      state := .stable
      nextSlot := 3 } := by
  have short : excess? (.long 1) = none := rfl
  simp [oneLong, empty, after, Attempt.after, Edit.perform, add, addWithin, intern, short,
    Constant.height, Constant.width, push, maxCount, Pool.stabilize, layOut, entries,
    List.range_succ, place, OffsetTable.startingAt, OffsetTable.push, bind, EStateM.bind, pure,
    EStateM.pure]

/-- A later text goes behind the number: it keeps index 1, and nothing moves into index 2.  The
sealed pool of `quoteThenLong` does not take the text at all. -/
theorem oneLong_is_permanent :
    (empty.after oneLong).state = .stable ∧
      ((empty.after oneLong).after [.add (.string "b"), .optimize, .close]).index ⟨0⟩ = .ok 1 ∧
      ((empty.after oneLong).after [.add (.string "b"), .optimize, .close]).constantAt? 2 = none ∧
      (empty.after quoteThenLong).after [.add (.string "b")] = empty.after quoteThenLong := by
  have stable : (empty.after oneLong).state = .stable := by rw [after_oneLong]
  obtain ⟨-, fixed, -⟩ := entries_and_indices_are_permanent ⟨oneLong, rfl⟩
    [.add (.string "b"), .optimize, .close]
  obtain ⟨indices, constants⟩ := fixed (settled_of_state stable (by decide))
  obtain ⟨-, -, -, -, same⟩ := entries_and_indices_are_permanent ⟨quoteThenLong, rfl⟩
    [.add (.string "b")]
  refine ⟨stable, ?_, ?_, (same (by rw [after_quoteThenLong])).1⟩
  · obtain ⟨index, known, kept⟩ := indices ⟨0⟩ (.long 1) (by rw [after_oneLong]; rfl)
    obtain rfl : index = 1 := by
      rw [after_oneLong] at known
      exact (Except.ok.inj known).symm
    exact kept
  · rw [constants 2 (by rw [after_oneLong]; decide), after_oneLong]
    simp [constantAt?, OffsetTable.get?, OffsetTable.seek]

end Pool

end JvmAsm
