import JvmAsm.Proofs.Attempts
import JvmAsm.Proofs.FailedAdditions
import Mathlib.Data.List.Count

/-! # What the count of an entry counts

A growing pool counts how often each of its constants is asked for.  A constant is asked
for in two ways: by an addition of its own, or as a part of another constant, but the
latter only if that constant is new; for a constant that is there, only its own count
rises.  So the count of an entry is the number of additions of its constant, and of the
places where it stands as a child of another entry.

In the course of an addition this is not true of the pool: its parts are counted, and
nobody holds them yet.  What is true all along is `Counted asked pool`, where `asked`
lists whatever was asked for and is not held; parts are asked for like any other
constant, and move from `asked` to the children when the constant is pushed
(`Counted.pushed`).  Counts are 32-bit numbers, so all this is true of them up to multiples
of `2 ^ 32`. -/

namespace JvmAsm.Pool

/-! ## Children -/

section

variable {pool pool' : Pool} {asked asked' : List Constant} {constant : Constant}
  {children : List Entry}

/-- The children of all slots of a pool, an entry as often as it is a child. -/
def held (pool : Pool) : List Entry := pool.slots.toList.flatMap PoolSlot.children

theorem Alike.held (h : Alike pool pool') : pool'.held = pool.held := by
  have ofBodies (some : Pool) : some.held = some.bodies.flatMap Prod.snd := by
    rw [Pool.held, Pool.bodies, List.flatMap_map]
  rw [ofBodies, ofBodies, h.bodies]

theorem held_pushed : (pool.pushed constant children).held = pool.held ++ children := by
  rw [held, pushed, Array.toList_push, List.flatMap_append, List.flatMap_singleton]
  rfl

/-- Children were there before the slot that holds them. -/
theorem Content.rank_lt_of_held (h : pool.Content) {entry : Entry} (hentry : entry ∈ pool.held) :
    entry.rank < pool.slots.size := by
  obtain ⟨slot, hslot, hchild⟩ := List.mem_flatMap.mp hentry
  obtain ⟨rank, hrank⟩ := List.mem_iff_getElem?.mp hslot
  rw [Array.getElem?_toList] at hrank
  have before := (h.children rank slot hrank).2 entry hchild
  have inside := (Array.getElem?_eq_some_iff.mp hrank).1
  omega

/-- An entry is a child as often as its constant is a constituent. -/
theorem Spells.count_eq (hpool : pool.Content) (spells : pool.Spells constant children)
    {entry : Entry} {part : Constant} (present : pool.constant? entry = some part) :
    children.count entry = constant.constituents.count part := by
  have one (child : Entry) : (pool.constant? child == some part) = (child == entry) := by
    rw [Bool.eq_iff_iff, beq_iff_eq, beq_iff_eq]
    constructor
    · intro same
      rw [← hpool.lookup] at same present
      exact Option.some.inj (same.symm.trans present)
    · rintro rfl
      exact present
  calc children.count entry
      = (children.map pool.constant?).count (some part) := by
        rw [List.count_eq_countP, List.count_eq_countP, List.countP_map]
        exact List.countP_congr fun child _ => by rw [Function.comp_apply, one]
    _ = (constant.constituents.map some).count (some part) := by rw [spells_iff.mp spells]
    _ = constant.constituents.count part :=
        List.count_map_of_injective _ _ (fun _ _ => Option.some.inj) _

/-! ## Counts -/

/-- **Every count is made up of what was asked for and what is held.** -/
structure Counted (asked : List Constant) (pool : Pool) : Prop where
  present : ∀ constant ∈ asked, ∃ entry, pool.constant? entry = some constant
  references : ∀ entry constant, pool.constant? entry = some constant →
    pool.references? entry = some (.ofNat (asked.count constant + pool.held.count entry))

theorem counted_empty : Counted [] empty where
  present _ h := nomatch h
  references entry constant h := by simp [constant?, empty] at h

/-- The order of asking does not matter. -/
theorem Counted.perm (h : Counted asked pool) (same : asked.Perm asked') :
    Counted asked' pool where
  present constant hconstant := h.present constant (same.mem_iff.mpr hconstant)
  references entry constant present := by
    rw [h.references entry constant present, same.count_eq]

/-- A constant that is there was asked for once more. -/
theorem Counted.bump (h : Counted asked pool) (hpool : pool.Invariant)
    (growing : pool.state = .growing) {entry : Entry}
    (present : pool.constant? entry = some constant) :
    Counted (constant :: asked) (pool.bump entry) where
  present other hother := by
    have alike := alike_bump pool entry
    rcases List.mem_cons.mp hother with rfl | hother
    · exact ⟨entry, (alike.constant? entry).trans present⟩
    · obtain ⟨place, hplace⟩ := h.present other hother
      exact ⟨place, (alike.constant? place).trans hplace⟩
  references other part hpart := by
    rw [(alike_bump pool entry).constant?] at hpart
    rw [references?_bump growing, (alike_bump pool entry).held, h.references other part hpart]
    by_cases same : entry = other
    · subst same
      obtain rfl : constant = part := Option.some.inj (present.symm.trans hpart)
      rw [if_pos rfl, Option.map_some, List.count_cons_self, Nat.add_right_comm,
        UInt32.ofNat_add (_ + _) 1]
      rfl
    · -- Different entries have different constants.
      have apart : constant ≠ part := by
        rintro rfl
        rw [← hpool.lookup] at present hpart
        exact same (Option.some.inj (present.symm.trans hpart))
      rw [if_neg same, List.count_cons_of_ne apart]

/-- **A new constant holds what was asked for on its behalf.** -/
theorem Counted.pushed (h : Counted (constant.constituents ++ asked) pool) (hpool : pool.Invariant)
    (fresh : pool.get? constant = none) (spells : pool.Spells constant children) :
    Counted (constant :: asked) (pool.pushed constant children) where
  present other hother := by
    rcases List.mem_cons.mp hother with rfl | hother
    · exact ⟨⟨pool.slots.size⟩, by rw [constant?_pushed, if_pos rfl]⟩
    · obtain ⟨place, hplace⟩ := h.present other (List.mem_append_right _ hother)
      exact ⟨place, constant?_pushed_of_some _ _ hplace⟩
  references entry part hpart := by
    rw [references?_pushed, held_pushed, List.count_append]
    rw [constant?_pushed] at hpart
    by_cases last : entry.rank = pool.slots.size
    · -- The new entry: nobody asked for its constant before, and nobody holds it.
      rw [if_pos last] at hpart ⊢
      obtain rfl := Option.some.inj hpart
      have unasked : asked.count constant = 0 := by
        refine List.count_eq_zero.mpr fun hmem => ?_
        obtain ⟨place, hplace⟩ := h.present constant (List.mem_append_right _ hmem)
        rw [← hpool.lookup, fresh] at hplace
        cases hplace
      have unheld : pool.held.count entry = 0 := by
        refine List.count_eq_zero.mpr fun hmem => ?_
        exact absurd (hpool.toContent.rank_lt_of_held hmem) (by omega)
      have unheld' : children.count entry = 0 := by
        refine List.count_eq_zero.mpr fun hmem => ?_
        obtain ⟨part, hpart⟩ := spells.exists_constant? hmem
        exact absurd (rank_lt_of_constant? hpart) (by omega)
      rw [List.count_cons_self, unasked, unheld, unheld']
      rfl
    · rw [if_neg last] at hpart ⊢
      have apart : constant ≠ part := by
        rintro rfl
        rw [← hpool.lookup, fresh] at hpart
        cases hpart
      rw [h.references entry part hpart, List.count_append, List.count_cons_of_ne apart,
        spells.count_eq hpool.toContent hpart]
      congr 2
      omega

end

/-! ## Additions -/

/-- What a successful run of an action asks for, of a pool that is growing. -/
def Asks {α : Type} (action : Action α) (constants : List Constant) : Prop :=
  ∀ ⦃pool pool' : Pool⦄ ⦃answer : α⦄ ⦃asked : List Constant⦄, pool.Invariant →
    pool.state = .growing → Counted asked pool → action pool = .ok answer pool' →
    Counted (constants ++ asked) pool'

/-- Constants one after the other, if each is asked for. -/
theorem asks_mapM {add : Constant → Action Entry} (constants : List Constant)
    (adds : ∀ constant ∈ constants, ∀ pool : Pool, pool.Invariant →
      Adds (add constant) pool (Constant.Within · constant) (Constant.PartOf · constant)
        fun entry pool' => pool'.constant? entry = some constant)
    (each : ∀ constant ∈ constants, Asks (add constant) [constant]) :
    Asks (constants.mapM add) constants := by
  induction constants with
  | nil =>
    intro pool pool' answer asked hpool growing counted run
    obtain ⟨rfl, rfl⟩ := Attempt.pure_eq_ok.mp run
    exact counted
  | cons constant constants ih =>
    intro pool pool' answer asked hpool growing counted run
    rw [List.mapM_cons] at run
    obtain ⟨entry, middle, hentry, rest⟩ := Attempt.bind_eq_ok.mp run
    obtain ⟨entries, last, hentries, done⟩ := Attempt.bind_eq_ok.mp rest
    obtain ⟨rfl, rfl⟩ := Attempt.pure_eq_ok.mp done
    have first := each constant List.mem_cons_self hpool growing counted hentry
    have grows := ((adds constant List.mem_cons_self pool hpool).ok entry middle hentry).1
    have others := ih (fun other hother => adds other (List.mem_cons_of_mem constant hother))
      (fun other hother => each other (List.mem_cons_of_mem constant hother))
      (grows.invariant hpool) (grows.state_eq.trans growing) first hentries
    exact others.perm List.perm_middle

/-- One step of the recursion, if the one for the constituents asks for them. -/
theorem asks_intern {parts : List Constant → Action (List Entry)} {constant : Constant}
    (adds : ∀ pool : Pool, pool.Invariant →
      Adds (parts constant.constituents) pool (Constant.PartOf · constant)
        (Constant.PartOf · constant) fun entries pool' =>
          entries.map pool'.constant? = constant.constituents.map some)
    (hparts : Asks (parts constant.constituents) constant.constituents) :
    Asks (intern parts constant) [constant] := by
  intro pool pool' entry asked hpool growing counted run
  rcases intern_cases parts constant pool with ⟨-, done⟩ | ⟨-, ⟨known, hknown, done⟩ |
    ⟨fresh, ⟨length, -, done⟩ | ⟨-, done⟩⟩⟩
  · cases done.symm.trans run
  · cases done.symm.trans run
    exact counted.bump hpool growing ((hpool.lookup constant entry).mp hknown)
  · cases done.symm.trans run
  · obtain ⟨children, middle, hchildren, pushing⟩ := Attempt.bind_eq_ok.mp (done.symm.trans run)
    obtain ⟨grows, spells⟩ := (adds pool hpool).ok children middle hchildren
    have counted' := hparts hpool growing counted hchildren
    rw [push_eq] at pushing
    split at pushing
    · cases pushing
    · cases pushing
      refine counted'.pushed (grows.invariant hpool) ?_ (spells_iff.mpr spells)
      rw [grows.get?_of_not_touched constant.not_partOf_self, fresh]

theorem asks_addWithin {depth : Nat} {constant : Constant} (hdepth : constant.height ≤ depth) :
    Asks (addWithin depth constant) [constant] := by
  induction depth generalizing constant with
  | zero =>
    have atomic := Constant.constituents_of_height hdepth
    refine asks_intern (fun pool _ => adds_none atomic pool) ?_
    intro pool pool' answer asked hpool growing counted run
    obtain ⟨rfl, rfl⟩ := Attempt.pure_eq_ok.mp run
    rw [atomic]
    exact counted
  | succ depth ih =>
    have lower {part : Constant} (direct : part ∈ constant.constituents) : part.height ≤ depth :=
      Constant.height_le_of_mem_constituents hdepth direct
    have adds (part : Constant) (direct : part ∈ constant.constituents) (pool : Pool)
        (hpool : pool.Invariant) := adds_addWithin (lower direct) hpool
    exact asks_intern (fun pool hpool => adds_constituents hpool adds)
      (asks_mapM constant.constituents adds fun part direct => ih (lower direct))

/-- **A successful addition asks for its constant once**, whatever it has to add besides. -/
theorem asks_add (constant : Constant) : Asks (add constant) [constant] :=
  asks_addWithin (Nat.le_refl _)

/-- Additions one after the other, from any pool that is growing. -/
theorem counted_foldlM {constants asked : List Constant} {pool pool' : Pool}
    {answer last : Option Entry} (hpool : pool.Invariant) (growing : pool.state = .growing)
    (counted : Counted asked pool)
    (run : constants.foldlM (fun _ constant => some <$> add constant) answer pool =
      .ok last pool') :
    pool'.Invariant ∧ pool'.state = .growing ∧ Counted (constants ++ asked) pool' := by
  induction constants generalizing pool answer asked with
  | nil =>
    obtain ⟨rfl, rfl⟩ := Attempt.pure_eq_ok.mp run
    exact ⟨hpool, growing, counted⟩
  | cons constant constants ih =>
    rw [List.foldlM_cons] at run
    obtain ⟨_, middle, first, rest⟩ := Attempt.bind_eq_ok.mp run
    obtain ⟨entry, added, -⟩ := Attempt.map_eq_ok.mp first
    obtain ⟨grows, -⟩ := (adds_add constant hpool).ok entry middle added
    have counted' := asks_add constant hpool growing counted added
    obtain ⟨hpool', growing', counted''⟩ :=
      ih (grows.invariant hpool) (grows.state_eq.trans growing) counted' rest
    exact ⟨hpool', growing', counted''.perm List.perm_middle⟩

/-- **What the counts count**, after additions to a fresh pool that all succeeded. -/
theorem counted_addAll {constants : List Constant} {last : Option Entry} {pool : Pool}
    (run : addAll constants empty = .ok last pool) :
    pool.Invariant ∧ pool.state = .growing ∧ Counted constants pool := by
  have counted := counted_foldlM invariant_empty rfl counted_empty run
  rwa [List.append_nil] at counted

/-! ## Counts that no longer change -/

theorem constant?_of_references? {pool : Pool} {entry : Entry} {count : UInt32}
    (counted : pool.references? entry = some count) :
    ∃ constant, pool.constant? entry = some constant := by
  obtain ⟨slot, hslot, -⟩ := Option.map_eq_some_iff.mp counted
  exact ⟨slot.constant, congrArg (Option.map PoolSlot.constant) hslot⟩

/-- Once indices are fixed uses are no longer counted. -/
theorem Does.references? {pool pool' : Pool} {edit : Edit} (h : Does pool edit pool')
    (hpool : pool.Invariant) (settled : pool.state ≠ .growing) {entry : Entry} {count : UInt32}
    (counted : pool.references? entry = some count) : pool'.references? entry = some count := by
  cases h with
  | add constant =>
    obtain ⟨held, present⟩ := constant?_of_references? counted
    have kept {touched : Constant → Prop} {pool' : Pool} (grows : Grows touched pool pool') :
        pool'.references? entry = some count := by
      rcases grows.references? present with same | ⟨growing, -⟩
      · exact same.trans counted
      · exact absurd growing settled
    unfold Attempt.after
    cases run : Pool.add constant pool with
    | ok answer pool' => exact kept ((adds_add constant hpool).ok answer pool' run).1
    | error cause pool' => exact kept ((adds_add constant hpool).error cause pool' run)
  | settle settles growing all => exact absurd growing settled
  | close stable => exact counted
  | idle untimely => exact counted

theorem references?_after {pool : Pool} (hpool : pool.Invariant) (settled : pool.state ≠ .growing)
    (later : List Edit) {entry : Entry} {count : UInt32}
    (counted : pool.references? entry = some count) :
    (pool.after later).references? entry = some count := by
  induction later generalizing pool with
  | nil => exact counted
  | cons edit later ih =>
    have step := does_perform pool edit
    exact ih (hpool.perform edit) (settled_after hpool settled [edit])
      (step.references? hpool settled counted)

end JvmAsm.Pool
