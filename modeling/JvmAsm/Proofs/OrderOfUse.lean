import JvmAsm.Proofs.ReferenceCounts

/-! # The order of use

A pool that is put in the order of use gives the lowest indices to the constants that were
asked for most.  Entries with equal counts keep their order of insertion, since the sorting is
stable (`filter_entriesByUse`), so the order of any two entries is a matter of their counts and
ranks alone (`Precedes`), and the index of an entry is one more than the widths of all that
precede it.

Together with what the counts count this says which constants get short indices
(`counts_decide_the_order`). -/

namespace JvmAsm

namespace Contiguous

variable {α : Type} {width : α → Nat} {start stop : Nat} {cells : List (Nat × α)}
  {before : α → α → Prop} (asymm : ∀ a b, before a b → ¬ before b a)

include asymm

/-- Where cells stand in an order, each starts behind those that come before it. -/
theorem start_eq [DecidableRel before] (h : Contiguous width start cells stop)
    (sorted : (cells.map Prod.snd).Pairwise before) {cell : Nat × α} (hcell : cell ∈ cells) :
    cell.1 = start + (((cells.map Prod.snd).filter (before · cell.2)).map width).sum := by
  induction cells generalizing start with
  | nil => cases hcell
  | cons head cells ih =>
    obtain ⟨hoffset, htail⟩ := h
    rw [List.map_cons, List.pairwise_cons] at sorted
    rcases List.mem_cons.mp hcell with rfl | hcell
    · have none : (List.map Prod.snd (cell :: cells)).filter (before · cell.2) = [] := by
        rw [List.filter_eq_nil_iff]
        intro other hother
        rw [decide_eq_true_eq]
        rcases List.mem_cons.mp hother with rfl | hother
        · exact fun same => asymm _ _ same same
        · exact asymm _ _ (sorted.1 other hother)
      rw [none]
      exact hoffset
    · have first : before head.2 cell.2 := sorted.1 cell.2 (List.mem_map_of_mem hcell)
      rw [List.map_cons, List.filter_cons_of_pos (by simpa using first), List.map_cons,
        List.sum_cons, ih htail sorted.2 hcell]
      omega

/-- There, offsets compare as elements do. -/
theorem start_lt_iff (h : Contiguous width start cells stop)
    (wide : ∀ cell ∈ cells, 0 < width cell.2) (sorted : (cells.map Prod.snd).Pairwise before)
    {cell other : Nat × α} (hcell : cell ∈ cells) (hother : other ∈ cells) :
    cell.1 < other.1 ↔ before cell.2 other.2 := by
  obtain ⟨i, hi, rfl⟩ := List.mem_iff_getElem.mp hcell
  obtain ⟨j, hj, rfl⟩ := List.mem_iff_getElem.mp hother
  have offsets := List.pairwise_iff_getElem.mp h.pairwise
  have elements := List.pairwise_iff_getElem.mp (List.pairwise_map.mp sorted)
  rcases Nat.lt_trichotomy i j with lt | rfl | gt
  · have := offsets i j hi hj lt
    have := wide _ hcell
    exact iff_of_true (by omega) (elements i j hi hj lt)
  · exact iff_of_false (Nat.lt_irrefl _) fun same => asymm _ _ same same
  · have := offsets j i hj hi gt
    have := wide _ hother
    exact iff_of_false (by omega) (asymm _ _ (elements j i hj hi gt))

end Contiguous

namespace Pool

variable {pool : Pool}

/-! ## Which entry comes first -/

/-- How often the constant of an entry was asked for, as far as it was counted. -/
def uses (pool : Pool) (entry : Entry) : Nat := ((pool.references? entry).getD 0).toNat

/-- One entry has more uses than another, or as many and was inserted first. -/
def Precedes (pool : Pool) (a b : Entry) : Prop :=
  pool.uses b < pool.uses a ∨ pool.uses a = pool.uses b ∧ a.rank < b.rank

instance (pool : Pool) : DecidableRel pool.Precedes :=
  fun a b => inferInstanceAs (Decidable (_ ∨ _ ∧ a.rank < b.rank))

theorem Precedes.asymm {a b : Entry} (h : pool.Precedes a b) : ¬ pool.Precedes b a := by
  unfold Precedes at h ⊢
  omega

/-! ## Sorting -/

/-- What the sorting compares. -/
def atLeast (pool : Pool) (a b : Entry) : Bool := decide (pool.uses b ≤ pool.uses a)

theorem atLeast_trans (a b c : Entry) (hab : pool.atLeast a b = true)
    (hbc : pool.atLeast b c = true) : pool.atLeast a c = true := by
  rw [atLeast, decide_eq_true_eq] at hab hbc ⊢
  omega

theorem atLeast_total (a b : Entry) : (pool.atLeast a b || pool.atLeast b a) = true := by
  rw [Bool.or_eq_true, atLeast, atLeast, decide_eq_true_eq, decide_eq_true_eq]
  omega

theorem entriesByUse_eq (pool : Pool) :
    pool.entriesByUse = pool.entries.mergeSort pool.atLeast :=
  rfl

theorem entriesByUse_perm (pool : Pool) : pool.entriesByUse.Perm pool.entries :=
  List.mergeSort_perm _ _

/-- **Sorting is stable**: entries with equal counts stay in the order of insertion. -/
theorem filter_entriesByUse (pool : Pool) (count : Nat) :
    pool.entriesByUse.filter (pool.uses · = count) = pool.entries.filter (pool.uses · = count) := by
  have alike : (pool.entries.filter (pool.uses · = count)).Pairwise (pool.atLeast · ·) := by
    refine List.pairwise_of_forall_mem_list fun a ha b hb => ?_
    have huses := of_decide_eq_true (List.mem_filter.mp ha).2
    have huses' := of_decide_eq_true (List.mem_filter.mp hb).2
    rw [atLeast, huses, huses', decide_eq_true_eq]
  have kept := (List.sublist_mergeSort atLeast_trans atLeast_total alike
    List.filter_sublist).filter (pool.uses · = count)
  rw [← entriesByUse_eq, List.filter_filter] at kept
  simp only [Bool.and_self] at kept
  exact (kept.eq_of_length ((pool.entriesByUse_perm.filter _).length_eq).symm).symm

/-- **The sorted entries precede each other.** -/
theorem pairwise_entriesByUse (pool : Pool) : pool.entriesByUse.Pairwise pool.Precedes := by
  rw [List.pairwise_iff_forall_sublist]
  intro a b inOrder
  have fewer : pool.uses b ≤ pool.uses a := by
    have sorted := List.pairwise_mergeSort (@atLeast_trans pool) (@atLeast_total pool) pool.entries
    exact of_decide_eq_true (List.pairwise_iff_forall_sublist.mp sorted inOrder)
  rcases Nat.lt_or_eq_of_le fewer with less | same
  · exact .inl less
  · -- Both are among the entries with this count, which kept their order.
    have inserted : [a, b].Sublist pool.entries := by
      have kept := inOrder.filter (pool.uses · = pool.uses a)
      rw [filter_entriesByUse] at kept
      simp only [List.filter_cons, same, decide_true, if_true, List.filter_nil] at kept
      exact kept.trans List.filter_sublist
    have ranks : pool.entries.Pairwise fun a b => a.rank < b.rank := by
      rw [entries, List.pairwise_map]
      exact List.pairwise_lt_range
    exact .inr ⟨same.symm, List.pairwise_iff_forall_sublist.mp ranks inserted⟩

/-! ## Indices -/

theorem references?_place (pool : Pool) (entry other : Entry) :
    (pool.place entry).references? other = pool.references? other := by
  cases hslot : pool.slots[entry.rank]? with
  | none =>
    obtain ⟨slots, lookup, layout, state, nextSlot⟩ := pool
    dsimp only at hslot
    rw [place]
    simp only [hslot]
  | some slot =>
    rw [place_eq hslot, references?, references?, Array.getElem?_setIfInBounds]
    split
    · rename_i same
      rw [← same, hslot]
      have inside := (Array.getElem?_eq_some_iff.mp hslot).1
      rw [if_pos inside]
      rfl
    · rfl

theorem references?_layOut (pool : Pool) (order : List Entry) (entry : Entry) :
    (pool.layOut order).references? entry = pool.references? entry := by
  have walked (walk : Pool) :
      (order.foldl place walk).references? entry = walk.references? entry := by
    induction order generalizing walk with
    | nil => rfl
    | cons other order ih => rw [List.foldl_cons, ih, references?_place]
  exact walked pool

/-- The pool has the constants and counts of another, and indices in the order of use. -/
structure InOrderOfUse (pool final : Pool) : Prop where
  state : final.state = .stable
  constant : ∀ entry, final.constant? entry = pool.constant? entry
  references : ∀ entry, final.references? entry = pool.references? entry
  /-- Every entry starts right behind those that precede it. -/
  contiguous : ∀ entry constant, pool.constant? entry = some constant →
    ∃ index, final.index entry = .ok index ∧
      index.toNat = 1 + ((pool.entries.filter (pool.Precedes · entry)).map pool.widthOf).sum
  order : ∀ a b index index', final.index a = .ok index → final.index b = .ok index' →
    (index < index' ↔ pool.Precedes a b)

/-- **Ordering by use** gives the entry with the most uses the first index. -/
theorem inOrderOfUse_layOut (hpool : pool.Invariant) (growing : pool.state = .growing) :
    pool.InOrderOfUse (pool.layOut pool.entriesByUse) := by
  have hfinal := hpool.layOut growing pool.entriesByUse_perm
  obtain ⟨-, cells, contiguous, -⟩ := hpool.placed growing pool.entriesByUse_perm
  have alike := alike_layOut pool pool.entriesByUse
  have sorted := pool.pairwise_entriesByUse
  rw [← cells] at sorted
  refine ⟨rfl, alike.constant?, references?_layOut pool _, ?_, ?_⟩
  · intro entry constant present
    obtain ⟨index, hindex, -, hcell⟩ :=
      index_of_constant? hfinal nofun ((alike.constant? entry).trans present)
    have start := contiguous.start_eq (fun a b => Precedes.asymm) sorted hcell
    rw [cells, ((pool.entriesByUse_perm.filter _).map _).sum_eq] at start
    exact ⟨index, hindex, start⟩
  · intro a b index index' hindex hindex'
    have wide (cell : Nat × Entry)
        (hcell : cell ∈ (pool.layOut pool.entriesByUse).layout.row) :
        0 < pool.widthOf cell.2 := by
      rw [← alike.widthOf]
      exact widthOf_pos hfinal nofun hcell
    rw [UInt16.lt_iff_toNat_lt]
    exact contiguous.start_lt_iff (fun a b => Precedes.asymm) wide sorted
      (mem_cells_of_index hfinal nofun hindex) (mem_cells_of_index hfinal nofun hindex')

/-- **Counts and the order of use.**  After additions to a fresh pool that all succeeded, the count
of an entry is the number of additions of its constant and of the places where it is a child, with
32 bits; and ordering by use, which succeeds then, arranges indices without a gap by descending
count and order of insertion.  In a pool with fixed indices the count of an entry never changes
again. -/
theorem counts_decide_the_order {constants : List Constant} {last : Option Entry} {pool : Pool}
    (taken : addAll constants empty = .ok last pool) :
    (∀ entry constant, pool.constant? entry = some constant →
      pool.references? entry =
        some (.ofNat (constants.count constant + pool.held.count entry))) ∧
    (∃ final, optimize pool = .ok () final ∧ pool.InOrderOfUse final) ∧
    ∀ settled : Pool, settled.Reachable → settled.state ≠ .growing →
      ∀ (later : List Edit) (entry : Entry) (count : UInt32),
        settled.references? entry = some count →
          (settled.after later).references? entry = some count := by
  obtain ⟨hpool, growing, counted⟩ := counted_addAll taken
  refine ⟨counted.references, ⟨_, ?_, inOrderOfUse_layOut hpool growing⟩, ?_⟩
  · rw [optimize, if_pos growing]
  · intro settled reached fixed later entry count counted
    exact references?_after reached.invariant fixed later counted

/-- A name that is its own type, a number twice, and the name by itself. -/
def nameAndNumber : List Constant :=
  [.nameAndType ⟨"a", "a"⟩, .long 2, .utf8 "a", .long 2]

/-- The pool with these constants, before its indices are fixed. -/
def ofNameAndNumber : Pool where
  slots := #[⟨.utf8 "a", [], 3, none⟩, ⟨.nameAndType ⟨"a", "a"⟩, [⟨0⟩, ⟨0⟩], 1, none⟩,
    ⟨.long 2, [], 2, none⟩]
  lookup := ((∅ : Std.HashMap Constant Entry).insert (.utf8 "a") ⟨0⟩
    |>.insert (.nameAndType ⟨"a", "a"⟩) ⟨1⟩).insert (.long 2) ⟨2⟩
  layout := .startingAt 1
  state := .growing
  nextSlot := 5

theorem addAll_nameAndNumber : addAll nameAndNumber empty = .ok (some ⟨2⟩) ofNameAndNumber := by
  have short : excess? (.utf8 "a") = none := by decide
  have short' : excess? (.nameAndType ⟨"a", "a"⟩) = none := rfl
  have short'' : excess? (.long 2) = none := rfl
  simp [nameAndNumber, ofNameAndNumber, empty, addAll, add, addWithin, intern, short,
    short', short'', Constant.height, Constant.constituents, Constant.width, push, maxCount, bump,
    OffsetTable.startingAt, Std.HashMap.getElem_insert, bind, EStateM.bind, pure, EStateM.pure,
    Functor.map, EStateM.map]

/-- The name stands three times in its own right or as a child, so it comes first; the number takes
two indices behind it.  A number that has its index is not counted any more. -/
theorem name_comes_before_number :
    addAll nameAndNumber empty = .ok (some ⟨2⟩) ofNameAndNumber ∧
      ofNameAndNumber.references? ⟨0⟩ =
        some (.ofNat (nameAndNumber.count (.utf8 "a") + ofNameAndNumber.held.count ⟨0⟩)) ∧
      (∃ final, optimize ofNameAndNumber = .ok () final ∧ final.index ⟨0⟩ = .ok 1 ∧
        final.index ⟨2⟩ = .ok 2 ∧ final.index ⟨1⟩ = .ok 4) ∧
      ((empty.after oneLong).after [.add (.long 1)]).references? ⟨0⟩ = some 1 := by
  obtain ⟨counts, ⟨final, optimized, inOrder⟩, kept⟩ :=
    counts_decide_the_order addAll_nameAndNumber
  have placed (entry : Entry) (constant : Constant)
      (present : ofNameAndNumber.constant? entry = some constant) (start : UInt16)
      (widths : 1 + ((ofNameAndNumber.entries.filter (ofNameAndNumber.Precedes · entry)).map
        ofNameAndNumber.widthOf).sum = start.toNat) : final.index entry = .ok start := by
    obtain ⟨index, hindex, hstart⟩ := inOrder.contiguous entry constant present
    rwa [UInt16.toNat_inj.mp (hstart.trans widths)] at hindex
  refine ⟨addAll_nameAndNumber, counts ⟨0⟩ (.utf8 "a") rfl, ⟨final, optimized, ?_, ?_, ?_⟩, ?_⟩
  · exact placed ⟨0⟩ _ rfl 1 (by decide)
  · exact placed ⟨2⟩ _ rfl 2 (by decide)
  · exact placed ⟨1⟩ _ rfl 4 (by decide)
  · refine kept (empty.after oneLong) ⟨oneLong, rfl⟩ ?_ [.add (.long 1)] ⟨0⟩ 1 ?_
    · rw [after_oneLong]
      decide
    · rw [after_oneLong]
      rfl

end Pool

end JvmAsm
