import JvmAsm.Proofs.PoolInvariant
import Mathlib.Logic.Relation

/-! # How additions change a pool

Adding a constant is a recursion over its constituents that can stop half way.
Whatever it does is a sequence of two kinds of steps (`Step`): it counts a use of a
constant that is there, or it pushes a constant whose constituents are there.  A
step says which constant it touches, so that `Grows touched pool pool'` says both
that the pool only grew and by what at most.

`add_adds` is the specification of additions, good or bad: a successful one touches
the constant and its parts, a failing one its proper parts only.  With what one
step keeps, it gives what every history keeps. -/

namespace JvmAsm

/-- What is answered in the end does not matter for the state. -/
theorem Attempt.after_bind_pure {ε σ α β : Type} (attempt : Attempt ε σ α) (answer : α → β)
    (s : σ) :
    after (attempt >>= fun a => pure (answer a)) s = attempt.after s := by
  simp only [after, bind, EStateM.bind]
  cases attempt s <;> rfl

namespace Constant

/-- A constant that nests nothing has no constituents. -/
theorem constituents_of_height {constant : Constant} (h : constant.height ≤ 0) :
    constant.constituents = [] := by
  rw [List.eq_nil_iff_forall_not_mem]
  intro part hpart
  have := height_lt_of_mem_constituents hpart
  omega

theorem height_le_of_mem_constituents {part whole : Constant} {depth : Nat}
    (h : whole.height ≤ depth + 1) (hpart : part ∈ whole.constituents) : part.height ≤ depth := by
  have := height_lt_of_mem_constituents hpart
  omega

/-- A constant and what it is made of, down to a depth, each as often as it occurs. -/
def partsWithin : Nat → Constant → List Constant
  | 0, constant => [constant]
  | depth + 1, constant => constant :: constant.constituents.flatMap (partsWithin depth)

/-- A constant and all it is made of. -/
def parts (constant : Constant) : List Constant := partsWithin constant.height constant

/-- One constant occurs in another, at any depth, and is not the whole of it. -/
def PartOf : Constant → Constant → Prop :=
  Relation.TransGen fun part whole => part ∈ whole.constituents

/-- One constant occurs in another, or is it. -/
def Within : Constant → Constant → Prop :=
  Relation.ReflTransGen fun part whole => part ∈ whole.constituents

theorem PartOf.height_lt {part whole : Constant} (h : PartOf part whole) :
    part.height < whole.height := by
  induction h with
  | single direct => exact height_lt_of_mem_constituents direct
  | tail _ direct ih => exact Nat.lt_trans ih (height_lt_of_mem_constituents direct)

theorem not_partOf_self (constant : Constant) : ¬ PartOf constant constant :=
  fun h => Nat.lt_irrefl _ h.height_lt

theorem Within.partOf {part middle whole : Constant} (h : Within part middle)
    (direct : middle ∈ whole.constituents) : PartOf part whole :=
  Relation.TransGen.tail' h direct

theorem PartOf.within {part whole : Constant} (h : PartOf part whole) : Within part whole :=
  h.to_reflTransGen

end Constant

namespace Pool

open Constant (PartOf Within)

/-! ## Steps -/

/-- One change in the course of an addition, to one of the constants `touched`. -/
inductive Step (touched : Constant → Prop) : Pool → Pool → Prop
  | bump {pool : Pool} {entry : Entry} {constant : Constant}
    (growing : pool.state = .growing) (present : pool.constant? entry = some constant)
    (ours : touched constant) : Step touched pool (pool.bump entry)
  | push {pool : Pool} {constant : Constant} {children : List Entry}
    (unsealed : pool.state ≠ .sealed) (fresh : pool.get? constant = none)
    (short : excess? constant = none) (spells : pool.Spells constant children)
    (fits : pool.nextSlot + constant.width ≤ 65535)
    (ours : touched constant) : Step touched pool (pool.pushed constant children)

/-- Any number of steps. -/
abbrev Grows (touched : Constant → Prop) : Pool → Pool → Prop :=
  Relation.ReflTransGen (Step touched)

section

variable {touched touched' : Constant → Prop} {pool pool' : Pool}

theorem Step.mono (h : Step touched pool pool')
    (more : ∀ constant, touched constant → touched' constant) : Step touched' pool pool' := by
  cases h with
  | bump growing present ours => exact .bump growing present (more _ ours)
  | push unsealed fresh short spells fits ours =>
    exact .push unsealed fresh short spells fits (more _ ours)

theorem Step.invariant (h : Step touched pool pool') (hpool : pool.Invariant) :
    pool'.Invariant := by
  cases h with
  | bump growing present ours => exact hpool.bump _
  | push unsealed fresh short spells fits ours =>
    exact hpool.pushed unsealed fresh short spells fits

theorem Step.state_eq (h : Step touched pool pool') : pool'.state = pool.state := by
  cases h with
  | bump growing present ours => exact state_bump pool _
  | push unsealed fresh short spells fits ours => rfl

theorem Step.constant? (h : Step touched pool pool') {entry : Entry} {constant : Constant}
    (hentry : pool.constant? entry = some constant) : pool'.constant? entry = some constant := by
  cases h with
  | bump growing present ours => rw [(alike_bump pool _).constant?, hentry]
  | push unsealed fresh short spells fits ours => exact constant?_pushed_of_some _ _ hentry

theorem Step.get?_of_not_touched (h : Step touched pool pool') {constant : Constant}
    (other : ¬ touched constant) : pool'.get? constant = pool.get? constant := by
  cases h with
  | bump growing present ours => rw [get?, (alike_bump pool _).lookup, get?]
  | @push new children unsealed fresh short spells fits ours =>
    have apart : new ≠ constant := by
      rintro rfl
      exact other ours
    show (pool.lookup.insert new ⟨pool.slots.size⟩)[constant]? = pool.lookup[constant]?
    rw [Std.HashMap.getElem?_insert, if_neg (by simpa using apart)]

/-! ## Runs -/

theorem Grows.mono (h : Grows touched pool pool')
    (more : ∀ constant, touched constant → touched' constant) : Grows touched' pool pool' := by
  induction h with
  | refl => exact .refl
  | tail _ step ih => exact ih.tail (step.mono more)

theorem Grows.invariant (h : Grows touched pool pool') (hpool : pool.Invariant) :
    pool'.Invariant := by
  induction h with
  | refl => exact hpool
  | tail _ step ih => exact step.invariant ih

theorem Grows.state_eq (h : Grows touched pool pool') : pool'.state = pool.state := by
  induction h with
  | refl => rfl
  | tail _ step ih => rw [step.state_eq, ih]

theorem Grows.constant? (h : Grows touched pool pool') {entry : Entry} {constant : Constant}
    (hentry : pool.constant? entry = some constant) : pool'.constant? entry = some constant := by
  induction h with
  | refl => exact hentry
  | tail _ step ih => exact step.constant? ih

theorem Grows.get?_of_not_touched (h : Grows touched pool pool') {constant : Constant}
    (other : ¬ touched constant) : pool'.get? constant = pool.get? constant := by
  induction h with
  | refl => rfl
  | tail _ step ih => rw [step.get?_of_not_touched other, ih]

end

/-! ## Additions -/

/-- What an attempt does to a pool: succeeding, it touches constants of `whole` and keeps the
promise `post`; failing, it touches constants of `some` only. -/
structure Adds {α : Type} (action : Action α) (pool : Pool) (whole some : Constant → Prop)
    (post : α → Pool → Prop) : Prop where
  ok : ∀ answer pool', action pool = .ok answer pool' → Grows whole pool pool' ∧ post answer pool'
  error : ∀ cause pool', action pool = .error cause pool' → Grows some pool pool'

/-- Constants one after the other, all of them or up to the first that fails. -/
theorem adds_mapM {add : Constant → Action Entry} (constants : List Constant) {pool : Pool}
    (hpool : pool.Invariant)
    (each : ∀ constant ∈ constants, ∀ pool : Pool, pool.Invariant →
      Adds (add constant) pool (Within · constant) (PartOf · constant)
        fun entry pool' => pool'.constant? entry = some constant) :
    Adds (constants.mapM add) pool (fun part => ∃ constant ∈ constants, Within part constant)
      (fun part => ∃ constant ∈ constants, Within part constant)
      fun entries pool' => entries.map pool'.constant? = constants.map some := by
  induction constants generalizing pool with
  | nil =>
    constructor
    · intro answer pool' h
      obtain ⟨rfl, rfl⟩ := Attempt.pure_eq_ok.mp h
      exact ⟨.refl, rfl⟩
    · intro cause pool' h
      exact (Attempt.pure_eq_error.mp h).elim
  | cons constant constants ih =>
    have first := each constant List.mem_cons_self pool hpool
    have others (middle : Pool) (hmiddle : middle.Invariant) := ih hmiddle
      fun other hother => each other (List.mem_cons_of_mem constant hother)
    have ofFirst (part : Constant) (h : Within part constant) :
        ∃ whole ∈ constant :: constants, Within part whole :=
      ⟨constant, List.mem_cons_self, h⟩
    have ofOthers (part : Constant) (h : ∃ whole ∈ constants, Within part whole) :
        ∃ whole ∈ constant :: constants, Within part whole := by
      obtain ⟨whole, hwhole, hpart⟩ := h
      exact ⟨whole, List.mem_cons_of_mem constant hwhole, hpart⟩
    rw [List.mapM_cons]
    constructor
    · intro answer pool' h
      obtain ⟨entry, middle, hentry, h⟩ := Attempt.bind_eq_ok.mp h
      obtain ⟨entries, last, hentries, h⟩ := Attempt.bind_eq_ok.mp h
      obtain ⟨rfl, rfl⟩ := Attempt.pure_eq_ok.mp h
      obtain ⟨grows, present⟩ := first.ok entry middle hentry
      obtain ⟨grows', presents⟩ := (others middle (grows.invariant hpool)).ok entries last hentries
      refine ⟨(grows.mono ofFirst).trans (grows'.mono ofOthers), ?_⟩
      rw [List.map_cons, List.map_cons, grows'.constant? present, presents]
    · intro cause pool' h
      rcases Attempt.bind_eq_error.mp h with h | ⟨entry, middle, hentry, h⟩
      · exact (first.error cause pool' h).mono fun part hpart => ofFirst part hpart.within
      · obtain ⟨grows, -⟩ := first.ok entry middle hentry
        rcases Attempt.bind_eq_error.mp h with h | ⟨entries, last, -, h⟩
        · exact (grows.mono ofFirst).trans
            (((others middle (grows.invariant hpool)).error cause pool' h).mono ofOthers)
        · exact (Attempt.pure_eq_error.mp h).elim

/-- The four ways one step of the recursion can go. -/
theorem intern_cases (parts : List Constant → Action (List Entry)) (constant : Constant)
    (pool : Pool) :
    pool.state = .sealed ∧ intern parts constant pool = .error .poolSealed pool ∨
    pool.state ≠ .sealed ∧
      ((∃ entry, pool.get? constant = some entry ∧
          intern parts constant pool = .ok entry (pool.bump entry)) ∨
        pool.get? constant = none ∧
          ((∃ length, excess? constant = some length ∧
              intern parts constant pool = .error (.utf8TooLong length) pool) ∨
            excess? constant = none ∧
              intern parts constant pool =
                (parts constant.constituents >>= push constant) pool)) := by
  unfold intern get?
  by_cases closed : pool.state = .sealed
  · exact .inl ⟨closed, if_pos closed⟩
  · rw [if_neg closed]
    refine .inr ⟨closed, ?_⟩
    cases pool.lookup[constant]? with
    | some entry => exact .inl ⟨entry, rfl, rfl⟩
    | none =>
      refine .inr ⟨rfl, ?_⟩
      cases excess? constant with
      | some length => exact .inl ⟨length, rfl, rfl⟩
      | none => exact .inr ⟨rfl, rfl⟩

/-- Counting a use is a step, or nothing at all. -/
theorem grows_bump {touched : Constant → Prop} {pool : Pool} {entry : Entry} {constant : Constant}
    (present : pool.constant? entry = some constant) (ours : touched constant) :
    Grows touched pool (pool.bump entry) := by
  by_cases growing : pool.state = .growing
  · exact .single (.bump growing present ours)
  · rw [bump_of_not_growing growing]

/-- One step of the recursion, if the one for the constituents keeps its promise. -/
theorem adds_intern {parts : List Constant → Action (List Entry)} {constant : Constant}
    {pool : Pool} (hpool : pool.Invariant)
    (hparts : Adds (parts constant.constituents) pool (PartOf · constant) (PartOf · constant)
      fun entries pool' => entries.map pool'.constant? = constant.constituents.map some) :
    Adds (intern parts constant) pool (Within · constant) (PartOf · constant)
      fun entry pool' => pool'.constant? entry = some constant := by
  rcases intern_cases parts constant pool with ⟨-, hrun⟩ | ⟨unsealed, ⟨entry, hentry, hrun⟩ |
    ⟨fresh, ⟨length, -, hrun⟩ | ⟨short, hrun⟩⟩⟩
  · -- Sealed: nothing happens.
    constructor
    · intro answer pool' h
      cases hrun.symm.trans h
    · intro cause pool' h
      cases hrun.symm.trans h
      exact .refl
  · -- Present: its use is counted.
    have present := (hpool.lookup constant entry).mp hentry
    constructor
    · intro answer pool' h
      cases hrun.symm.trans h
      exact ⟨grows_bump present .refl, ((alike_bump pool entry).constant? entry).trans present⟩
    · intro cause pool' h
      cases hrun.symm.trans h
  · -- Too long: nothing happens.
    constructor
    · intro answer pool' h
      cases hrun.symm.trans h
    · intro cause pool' h
      cases hrun.symm.trans h
      exact .refl
  · -- New: first the constituents, none of which is the constant itself, then the constant.
    constructor
    · intro answer pool' h
      obtain ⟨children, middle, hchildren, h⟩ := Attempt.bind_eq_ok.mp (hrun.symm.trans h)
      obtain ⟨grows, spells⟩ := hparts.ok children middle hchildren
      rw [push_eq] at h
      split at h
      · cases h
      · rename_i fits
        cases h
        have fresh' : middle.get? constant = none := by
          rw [grows.get?_of_not_touched constant.not_partOf_self, fresh]
        have step : Step (Within · constant) middle (middle.pushed constant children) :=
          .push (grows.state_eq ▸ unsealed) fresh' short (spells_iff.mpr spells)
            (Nat.le_of_not_lt fits) .refl
        refine ⟨(grows.mono fun part => PartOf.within).tail step, ?_⟩
        rw [constant?_pushed, if_pos rfl]
    · intro cause pool' h
      rcases Attempt.bind_eq_error.mp (hrun.symm.trans h) with h | ⟨children, middle, hchildren, h⟩
      · exact hparts.error cause pool' h
      · obtain ⟨grows, -⟩ := hparts.ok children middle hchildren
        rw [push_eq] at h
        split at h
        · cases h
          exact grows
        · cases h

/-- Where there are no constituents there is nothing to do. -/
theorem adds_none {constant : Constant} (atomic : constant.constituents = []) (pool : Pool) :
    Adds (pure []) pool (PartOf · constant) (PartOf · constant)
      fun (entries : List Entry) pool' =>
        entries.map pool'.constant? = constant.constituents.map some := by
  constructor
  · intro answer pool' h
    obtain ⟨rfl, rfl⟩ := Attempt.pure_eq_ok.mp h
    exact ⟨.refl, by rw [atomic]; rfl⟩
  · intro cause pool' h
    exact (Attempt.pure_eq_error.mp h).elim

/-- The constituents of a constant one after the other, if each can be added. -/
theorem adds_constituents {add : Constant → Action Entry} {constant : Constant} {pool : Pool}
    (hpool : pool.Invariant)
    (each : ∀ part ∈ constant.constituents, ∀ pool : Pool, pool.Invariant →
      Adds (add part) pool (Within · part) (PartOf · part)
        fun entry pool' => pool'.constant? entry = some part) :
    Adds (constant.constituents.mapM add) pool (PartOf · constant) (PartOf · constant)
      fun entries pool' => entries.map pool'.constant? = constant.constituents.map some := by
  have parts := adds_mapM constant.constituents hpool each
  have isPart (part : Constant) (h : ∃ whole ∈ constant.constituents, Within part whole) :
      PartOf part constant := by
    obtain ⟨whole, hwhole, hpart⟩ := h
    exact hpart.partOf hwhole
  constructor
  · intro answer pool' h
    obtain ⟨grows, spells⟩ := parts.ok answer pool' h
    exact ⟨grows.mono isPart, spells⟩
  · intro cause pool' h
    exact (parts.error cause pool' h).mono isPart

/-- Constituents nest less deep than the constant, so the recursion reaches all of them. -/
theorem adds_addWithin {depth : Nat} {constant : Constant} (hdepth : constant.height ≤ depth)
    {pool : Pool} (hpool : pool.Invariant) :
    Adds (addWithin depth constant) pool (Within · constant) (PartOf · constant)
      fun entry pool' => pool'.constant? entry = some constant := by
  induction depth generalizing constant pool with
  | zero => exact adds_intern hpool (adds_none (Constant.constituents_of_height hdepth) pool)
  | succ depth ih =>
    refine adds_intern hpool (adds_constituents hpool fun part hpart pool hpool => ?_)
    exact ih (Constant.height_le_of_mem_constituents hdepth hpart) hpool

/-- **What an addition does.**  A successful one leaves the constant in the pool and touches
nothing but it and its parts; a failing one touches its proper parts only. -/
theorem adds_add (constant : Constant) {pool : Pool} (hpool : pool.Invariant) :
    Adds (add constant) pool (Within · constant) (PartOf · constant)
      fun entry pool' => pool'.constant? entry = some constant :=
  adds_addWithin (Nat.le_refl _) hpool

/-- A sealed pool takes no constants. -/
theorem add_of_sealed {pool : Pool} (closed : pool.state = .sealed) (constant : Constant) :
    add constant pool = .error .poolSealed pool := by
  unfold add
  cases constant.height with
  | zero => exact if_pos closed
  | succ depth => exact if_pos closed

theorem Invariant.add {pool : Pool} (h : pool.Invariant) (constant : Constant) :
    ((Pool.add constant).after pool).Invariant := by
  unfold Attempt.after
  cases hrun : Pool.add constant pool with
  | ok entry pool' => exact ((adds_add constant h).ok entry pool' hrun).1.invariant h
  | error cause pool' => exact ((adds_add constant h).error cause pool' hrun).invariant h

/-! ## Histories -/

/-- What an edit does to a pool, whatever it answers. -/
inductive Does (pool : Pool) : Edit → Pool → Prop
  | add (constant : Constant) : Does pool (.add constant) ((Pool.add constant).after pool)
  /-- Indices are given out, in one order or another. -/
  | settle {edit : Edit} {order : List Entry} (settles : edit = .stabilize ∨ edit = .optimize)
    (growing : pool.state = .growing) (all : order.Perm pool.entries) :
    Does pool edit (pool.layOut order)
  | close (stable : pool.state = .stable) : Does pool .close { pool with state := .sealed }
  /-- The edit comes too late, or too early. -/
  | idle {edit : Edit}
    (untimely : (edit = .stabilize ∨ edit = .optimize) ∧ pool.state ≠ .growing ∨
      edit = .close ∧ pool.state ≠ .stable) : Does pool edit pool

theorem does_perform (pool : Pool) (edit : Edit) : Does pool edit (edit.perform.after pool) := by
  cases edit with
  | add constant =>
    rw [Edit.perform, Attempt.after_bind_pure]
    exact .add constant
  | stabilize =>
    show Does pool .stabilize pool.stabilize
    by_cases growing : pool.state = .growing
    · rw [Pool.stabilize, if_pos growing]
      exact .settle (.inl rfl) growing (.refl _)
    · rw [Pool.stabilize, if_neg growing]
      exact .idle (.inl ⟨.inl rfl, growing⟩)
  | optimize =>
    rw [Edit.perform, Attempt.after_bind_pure, Attempt.after, Pool.optimize]
    by_cases growing : pool.state = .growing
    · simp only [if_pos growing]
      exact .settle (.inr rfl) growing (List.mergeSort_perm _ _)
    · simp only [if_neg growing]
      exact .idle (.inl ⟨.inr rfl, growing⟩)
  | close =>
    rw [Edit.perform, Attempt.after_bind_pure, Attempt.after, Pool.close]
    cases state : pool.state with
    | growing => exact .idle (.inr ⟨rfl, by rw [state]; nofun⟩)
    | stable => exact .close state
    | sealed => exact .idle (.inr ⟨rfl, by rw [state]; nofun⟩)

theorem Does.invariant {pool pool' : Pool} {edit : Edit} (h : Does pool edit pool')
    (hpool : pool.Invariant) : pool'.Invariant := by
  cases h with
  | add constant => exact hpool.add constant
  | settle settles growing all => exact hpool.layOut growing all
  | close stable => exact hpool.close stable
  | idle untimely => exact hpool

theorem Invariant.perform {pool : Pool} (h : pool.Invariant) (edit : Edit) :
    (edit.perform.after pool).Invariant :=
  (does_perform pool edit).invariant h

theorem Invariant.after {pool : Pool} (h : pool.Invariant) (history : List Edit) :
    (pool.after history).Invariant := by
  induction history generalizing pool with
  | nil => exact h
  | cons edit history ih => exact ih (h.perform edit)

/-- No constant occurs twice. -/
theorem Content.nodup {pool : Pool} (h : pool.Content) :
    (pool.slots.toList.map PoolSlot.constant).Nodup := by
  refine List.pairwise_iff_getElem.mpr fun i j hi hj hij same => ?_
  have entryAt (rank : Nat) (hrank : rank < (pool.slots.toList.map PoolSlot.constant).length) :
      pool.get? (pool.slots.toList.map PoolSlot.constant)[rank] = some ⟨rank⟩ := by
    have hsize : rank < pool.slots.size := by simpa using hrank
    rw [h.lookup, constant?, Array.getElem?_eq_getElem hsize]
    simp
  have found := entryAt i hi
  rw [same, entryAt j hj] at found
  cases found
  exact Nat.lt_irrefl _ hij

theorem Invariant.toNat_size {pool : Pool} (h : pool.Invariant) :
    pool.size.toNat = pool.nextSlot :=
  toNat_ofNat_of_le h.bound

/-- **Every history keeps the pool consistent.**  After any additions, stabilizations,
optimizations and sealings, in any order and however they ended, slots, look-up, layout and
counter agree; no constant occurs twice, and the size that is written is the counter. -/
theorem every_history_keeps_pool_consistent (history : List Edit) :
    (empty.after history).Invariant ∧
      ((empty.after history).slots.toList.map PoolSlot.constant).Nodup ∧
      (empty.after history).size.toNat = (empty.after history).nextSlot := by
  have invariant := invariant_empty.after history
  exact ⟨invariant, invariant.toContent.nodup, invariant.toNat_size⟩

end Pool

end JvmAsm
