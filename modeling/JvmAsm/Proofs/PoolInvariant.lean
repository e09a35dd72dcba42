import JvmAsm.Pool.Edit
import JvmAsm.Proofs.OffsetSearch
import Mathlib.Data.List.Perm.Basic
import Mathlib.Algebra.BigOperators.Group.List.Basic
import Mathlib.Data.List.Nodup

/-! # What holds of every constant pool

A pool keeps the same constants in four places: slots in the order of insertion,
a hash map from constants to entries, a table of entries by index, and a counter
of the next free index.  `Invariant` says how they agree.

It comes in two parts.  `Content` is about which constants there are and is the
same in all three states; it depends on the slots only through `bodies`, so what
counts references or gives out indices cannot harm it (`Content.of_alike`).
`LaidOut` is about indices once they are fixed.

Each primitive change of a pool keeps the invariant: counting a use (`bump`),
adding a constant whose constituents are present (`pushed`), giving out indices in
any order (`layOut`), sealing. -/

namespace JvmAsm

theorem Constant.width_pos (constant : Constant) : 0 < constant.width := by
  cases constant <;> simp [width]

namespace Pool

/-! ## Statement -/

/-- The number of indices an entry takes up. -/
def widthOf (pool : Pool) (entry : Entry) : Nat := (pool.constant? entry).elim 0 Constant.width

/-- The entries are those of the constant's constituents, one by one. -/
def Spells (pool : Pool) : Constant → List Entry → Prop
  | .refType type, children =>
    ∃ name, children = [name] ∧ pool.constant? name = some (.utf8 type.internalForm)
  | .string text, children =>
    ∃ content, children = [content] ∧ pool.constant? content = some (.utf8 text)
  | .nameAndType member, children =>
    ∃ name descriptor, children = [name, descriptor] ∧
      pool.constant? name = some (.utf8 member.name) ∧
      pool.constant? descriptor = some (.utf8 member.descriptor)
  | .fieldRef member, children | .methodRef member, children
  | .interfaceMethodRef member, children =>
    ∃ owner signature, children = [owner, signature] ∧
      pool.constant? owner = some (.refType member.owner) ∧
      pool.constant? signature = some (.nameAndType member.nameAndType)
  | .utf8 _, children | .integer _, children | .float _, children | .long _, children
  | .double _, children => children = []

/-- Slots, look-up and counter agree. -/
structure Content (pool : Pool) : Prop where
  /-- Looking a constant up and looking at an entry are inverse to each other. -/
  lookup : ∀ constant entry, pool.get? constant = some entry ↔ pool.constant? entry = some constant
  /-- Children are exactly the constituents, and were there before. -/
  children : ∀ (rank : Nat) (slot : PoolSlot), pool.slots[rank]? = some slot →
    pool.Spells slot.constant slot.children ∧ ∀ child ∈ slot.children, child.rank < rank
  /-- Texts fit their length field. -/
  short : ∀ entry constant, pool.constant? entry = some constant → excess? constant = none
  nextSlot : pool.nextSlot = 1 + (pool.slots.toList.map fun slot => slot.constant.width).sum
  bound : pool.nextSlot ≤ 65535

/-- Every entry has its index. -/
structure LaidOut (pool : Pool) : Prop where
  /-- The layout lists every entry exactly once. -/
  once : (pool.layout.row.map Prod.snd).Perm pool.entries
  contiguous : Contiguous pool.widthOf 1 pool.layout.row pool.layout.stop.toNat
  stop : pool.layout.stop.toNat = pool.nextSlot
  /-- The index in an entry's slot is where the entry stands in the layout. -/
  index : ∀ start entry, (start, entry) ∈ pool.layout.row →
    ∃ slot index, pool.slots[entry.rank]? = some slot ∧ slot.index = some index ∧
      index.toNat = start

/-- **What holds of every pool.** -/
structure Invariant (pool : Pool) : Prop extends Content pool where
  growing : pool.state = .growing →
    pool.layout = .startingAt 1 ∧ ∀ slot ∈ pool.slots.toList, slot.index = none
  settled : pool.state ≠ .growing → pool.LaidOut

theorem settled_of_state {pool : Pool} {state : PoolState} (h : pool.state = state)
    (grown : state ≠ .growing) : pool.state ≠ .growing :=
  h ▸ grown

/-- The empty pool begins at index 1. -/
theorem invariant_empty : Invariant empty where
  lookup constant entry := by simp [get?, constant?, empty]
  children rank slot h := by simp [empty] at h
  short entry constant h := by simp [constant?, empty] at h
  nextSlot := rfl
  bound := by decide
  growing _ := ⟨rfl, nofun⟩
  settled h := absurd rfl h

/-! ## Constituents -/

/-- Spelled out or as a list, the constituents are the same. -/
theorem spells_iff {pool : Pool} {constant : Constant} {children : List Entry} :
    pool.Spells constant children ↔
      children.map pool.constant? = constant.constituents.map some := by
  cases constant <;>
    simp only [Spells, Constant.constituents, List.map_cons, List.map_nil, List.map_eq_nil_iff,
      List.map_eq_cons_iff] <;>
    grind

theorem rank_lt_of_constant? {pool : Pool} {entry : Entry} {constant : Constant}
    (h : pool.constant? entry = some constant) : entry.rank < pool.slots.size := by
  obtain ⟨slot, hslot, _⟩ := Option.map_eq_some_iff.mp h
  exact (Array.getElem?_eq_some_iff.mp hslot).1

/-- The children of a constant are in the pool. -/
theorem Spells.exists_constant? {pool : Pool} {constant : Constant} {children : List Entry}
    (h : pool.Spells constant children) {child : Entry} (hchild : child ∈ children) :
    ∃ part, pool.constant? child = some part := by
  have hmem := List.mem_map_of_mem (f := pool.constant?) hchild
  rw [spells_iff.mp h] at hmem
  obtain ⟨part, _, hpart⟩ := List.mem_map.mp hmem
  exact ⟨part, hpart.symm⟩

/-- The constituents of a constant of the pool are in the pool. -/
theorem Content.exists_part {pool : Pool} (h : pool.Content) {entry : Entry} {constant : Constant}
    (present : pool.constant? entry = some constant) {part : Constant}
    (hpart : part ∈ constant.constituents) : ∃ child, pool.constant? child = some part := by
  obtain ⟨slot, hslot, rfl⟩ := Option.map_eq_some_iff.mp present
  have spells := spells_iff.mp (h.children entry.rank slot hslot).1
  have hmem : some part ∈ slot.children.map pool.constant? := by
    rw [spells]
    exact List.mem_map_of_mem hpart
  obtain ⟨child, -, hchild⟩ := List.mem_map.mp hmem
  exact ⟨child, hchild⟩

/-- What a child list spells survives any change that keeps constants. -/
theorem Spells.mono {pool pool' : Pool} {constant : Constant} {children : List Entry}
    (h : pool.Spells constant children)
    (keeps : ∀ entry part, pool.constant? entry = some part → pool'.constant? entry = some part) :
    pool'.Spells constant children := by
  have same : children.map pool'.constant? = children.map pool.constant? := by
    refine List.map_congr_left ?_
    intro child hchild
    obtain ⟨part, hpart⟩ := h.exists_constant? hchild
    rw [hpart, keeps child part hpart]
  rw [spells_iff] at h ⊢
  rw [same, h]

/-! ## Constants stay

Counting and indexing touch neither the constants nor the children of the slots. -/

/-- The constants with their children, in the order of insertion. -/
def bodies (pool : Pool) : List (Constant × List Entry) :=
  pool.slots.toList.map fun slot => (slot.constant, slot.children)

/-- What stays of a slot when indices are given out and uses are counted. -/
theorem getElem?_bodies (pool : Pool) (rank : Nat) :
    pool.bodies[rank]? = pool.slots[rank]?.map fun slot => (slot.constant, slot.children) := by
  rw [bodies, List.getElem?_map, Array.getElem?_toList]

theorem constant?_eq_bodies (pool : Pool) (entry : Entry) :
    pool.constant? entry = pool.bodies[entry.rank]?.map Prod.fst := by
  rw [getElem?_bodies, Option.map_map]
  rfl

/-- Two pools hold the same constants in the same order. -/
structure Alike (pool pool' : Pool) : Prop where
  bodies : pool'.bodies = pool.bodies
  lookup : pool'.lookup = pool.lookup
  nextSlot : pool'.nextSlot = pool.nextSlot

namespace Alike

variable {pool pool' pool'' : Pool}

theorem refl (pool : Pool) : Alike pool pool := ⟨rfl, rfl, rfl⟩

theorem trans (h : Alike pool pool') (h' : Alike pool' pool'') : Alike pool pool'' :=
  ⟨h'.bodies.trans h.bodies, h'.lookup.trans h.lookup, h'.nextSlot.trans h.nextSlot⟩

/-- Entries stand for the same constants. -/
theorem constant? (h : Alike pool pool') (entry : Entry) :
    pool'.constant? entry = pool.constant? entry := by
  rw [constant?_eq_bodies, constant?_eq_bodies, h.bodies]

theorem widthOf (h : Alike pool pool') : pool'.widthOf = pool.widthOf := by
  funext entry
  rw [Pool.widthOf, Pool.widthOf, h.constant?]

theorem size (h : Alike pool pool') : pool'.slots.size = pool.slots.size := by
  have := congrArg List.length h.bodies
  simpa only [Pool.bodies, List.length_map, Array.length_toList] using this

theorem entries (h : Alike pool pool') : pool'.entries = pool.entries := by
  rw [Pool.entries, Pool.entries, h.size]

end Alike

/-- The content of a pool is a matter of its constants only. -/
theorem Content.of_alike {pool pool' : Pool} (h : pool.Content) (alike : Alike pool pool') :
    pool'.Content where
  lookup constant entry := by
    rw [alike.constant?, ← h.lookup, get?, get?, alike.lookup]
  children rank slot' hslot' := by
    have body : pool.bodies[rank]? = some (slot'.constant, slot'.children) := by
      rw [← alike.bodies, getElem?_bodies, hslot', Option.map_some]
    rw [getElem?_bodies] at body
    obtain ⟨slot, hslot, same⟩ := Option.map_eq_some_iff.mp body
    obtain ⟨spells, before⟩ := h.children rank slot hslot
    rw [(Prod.mk.inj same).1, (Prod.mk.inj same).2] at spells
    rw [(Prod.mk.inj same).2] at before
    exact ⟨spells.mono fun entry part hpart => (alike.constant? entry).trans hpart, before⟩
  short entry constant hconstant := h.short entry constant (alike.constant? entry ▸ hconstant)
  nextSlot := by
    have widths (some : Pool) : (some.slots.toList.map fun slot => slot.constant.width) =
        some.bodies.map fun body => body.1.width := by
      rw [bodies, List.map_map]
      rfl
    rw [alike.nextSlot, h.nextSlot, widths, widths, alike.bodies]
  bound := alike.nextSlot ▸ h.bound

/-- Changing a slot but for its constant and children. -/
theorem bodies_setIfInBounds {slots : Array PoolSlot} {rank : Nat} {slot slot' : PoolSlot}
    (hslot : slots[rank]? = some slot) (hconstant : slot'.constant = slot.constant)
    (hchildren : slot'.children = slot.children) :
    ((slots.setIfInBounds rank slot').toList.map fun slot => (slot.constant, slot.children)) =
      slots.toList.map fun slot => (slot.constant, slot.children) := by
  obtain ⟨hrank, rfl⟩ := Array.getElem?_eq_some_iff.mp hslot
  rw [Array.toList_setIfInBounds, List.map_set, hconstant, hchildren]
  refine List.ext_getElem? fun i => ?_
  rw [List.getElem?_set]
  split
  · subst i
    simp [hrank]
  · rfl

/-! ## Counting a use -/

/-- While a pool grows, a use is counted; the number wraps at 32 bits. -/
theorem bump_of_growing {pool : Pool} (h : pool.state = .growing) (entry : Entry) :
    pool.bump entry = { pool with slots := pool.slots.modify entry.rank fun slot =>
      { slot with references := slot.references + 1 } } := by
  obtain ⟨slots, lookup, layout, state, nextSlot⟩ := pool
  subst h
  rfl

theorem bump_of_not_growing {pool : Pool} (h : pool.state ≠ .growing) (entry : Entry) :
    pool.bump entry = pool := by
  obtain ⟨slots, lookup, layout, state, nextSlot⟩ := pool
  cases state with
  | growing => exact absurd rfl h
  | stable => rfl
  | sealed => rfl

theorem state_bump (pool : Pool) (entry : Entry) : (pool.bump entry).state = pool.state := by
  by_cases h : pool.state = .growing
  · rw [bump_of_growing h]
  · rw [bump_of_not_growing h]

/-- Counting moves nothing. -/
theorem alike_bump (pool : Pool) (entry : Entry) : Alike pool (pool.bump entry) := by
  by_cases h : pool.state = .growing
  · rw [bump_of_growing h]
    refine ⟨?_, rfl, rfl⟩
    refine List.ext_getElem? fun rank => ?_
    rw [getElem?_bodies, getElem?_bodies, Array.getElem?_modify]
    split
    · rw [Option.map_map]
      rfl
    · rfl
  · rw [bump_of_not_growing h]
    exact .refl pool

theorem Invariant.bump {pool : Pool} (h : pool.Invariant) (entry : Entry) :
    (pool.bump entry).Invariant := by
  by_cases growing : pool.state = .growing
  · refine ⟨h.toContent.of_alike (alike_bump pool entry), ?_, ?_⟩
    · intro _
      rw [bump_of_growing growing]
      obtain ⟨hlayout, hindex⟩ := h.growing growing
      refine ⟨hlayout, fun slot hslot => ?_⟩
      obtain ⟨rank, hrank⟩ := List.mem_iff_getElem?.mp hslot
      rw [Array.getElem?_toList, Array.getElem?_modify] at hrank
      have among {old : PoolSlot} (hold : pool.slots[rank]? = some old) : old.index = none :=
        hindex old (List.mem_of_getElem? (Array.getElem?_toList.trans hold))
      split at hrank
      · obtain ⟨old, hold, rfl⟩ := Option.map_eq_some_iff.mp hrank
        show old.index = none
        exact among hold
      · exact among hrank
    · intro hstate
      rw [state_bump] at hstate
      exact absurd growing hstate
  · rw [bump_of_not_growing growing]
    exact h

/-! ## A new constant -/

/-- The pool with one more constant. -/
def pushed (pool : Pool) (constant : Constant) (children : List Entry) : Pool where
  slots := pool.slots.push ⟨constant, children, 1,
    if pool.state = .stable then some pool.layout.stop.toUInt16 else none⟩
  lookup := pool.lookup.insert constant ⟨pool.slots.size⟩
  layout := if pool.state = .stable then
      pool.layout.push (.ofNat constant.width) ⟨pool.slots.size⟩
    else pool.layout
  state := pool.state
  nextSlot := pool.nextSlot + constant.width

/-- **A constant goes in unless its slots are beyond the last index.** -/
theorem push_eq (constant : Constant) (children : List Entry) (pool : Pool) :
    push constant children pool =
      if maxCount < pool.nextSlot + constant.width then
        .error (.poolOverflow constant pool.nextSlot) pool
      else
        .ok ⟨pool.slots.size⟩ (pool.pushed constant children) := by
  obtain ⟨slots, lookup, layout, state, nextSlot⟩ := pool
  cases state <;> rfl

section

variable {pool : Pool} {constant : Constant} {children : List Entry}

/-- The new entry stands behind all others. -/
theorem constant?_pushed (entry : Entry) : (pool.pushed constant children).constant? entry =
    if entry.rank = pool.slots.size then some constant else pool.constant? entry := by
  rw [constant?, pushed, Array.getElem?_push]
  split
  · rfl
  · rfl

theorem constant?_pushed_of_some (constant : Constant) (children : List Entry) {entry : Entry}
    {other : Constant} (h : pool.constant? entry = some other) :
    (pool.pushed constant children).constant? entry = some other := by
  rw [constant?_pushed, if_neg (Nat.ne_of_lt (rank_lt_of_constant? h)), h]

theorem widthOf_pushed_of_mem {entry : Entry} (h : entry ∈ pool.entries) :
    (pool.pushed constant children).widthOf entry = pool.widthOf entry := by
  obtain ⟨rank, hrank, rfl⟩ := List.mem_map.mp h
  rw [widthOf, constant?_pushed, if_neg (Nat.ne_of_lt (List.mem_range.mp hrank)), widthOf]

/-- What the pool has to know about a new constant: it is new, short, its parts are there, and it
fits. -/
theorem Content.pushed (h : pool.Content) (fresh : pool.get? constant = none)
    (short : excess? constant = none) (spells : pool.Spells constant children)
    (fits : pool.nextSlot + constant.width ≤ 65535) :
    (pool.pushed constant children).Content where
  lookup other entry := by
    show (pool.lookup.insert constant ⟨pool.slots.size⟩)[other]? = some entry ↔ _
    rw [Std.HashMap.getElem?_insert, constant?_pushed]
    by_cases hother : constant = other
    · subst other
      -- The new constant: no old entry has it.
      have absent : pool.constant? entry ≠ some constant := by
        intro present
        rw [← h.lookup, fresh] at present
        cases present
      obtain ⟨rank⟩ := entry
      by_cases hrank : rank = pool.slots.size <;> simp [hrank, absent, eq_comm]
    · -- Another constant: the new entry does not have it.
      have beyond : pool.get? other ≠ some ⟨pool.slots.size⟩ := by
        intro found
        exact absurd (rank_lt_of_constant? ((h.lookup other _).mp found)) (Nat.lt_irrefl _)
      rw [if_neg (by simpa using hother)]
      by_cases hrank : entry.rank = pool.slots.size
      · obtain rfl : entry = ⟨pool.slots.size⟩ := by rw [← hrank]
        simp only [if_true, Option.some.injEq, hother, iff_false]
        exact beyond
      · rw [if_neg hrank]
        exact h.lookup other entry
  children rank slot hslot := by
    have keeps (entry : Entry) (part : Constant) (hpart : pool.constant? entry = some part) :=
      constant?_pushed_of_some constant children hpart
    rw [Pool.pushed, Array.getElem?_push] at hslot
    split at hslot
    · rename_i hrank
      obtain rfl := Option.some.inj hslot
      refine ⟨spells.mono keeps, fun child hchild => ?_⟩
      obtain ⟨part, hpart⟩ := spells.exists_constant? hchild
      exact hrank ▸ rank_lt_of_constant? hpart
    · obtain ⟨spelled, before⟩ := h.children rank slot hslot
      exact ⟨spelled.mono keeps, before⟩
  short entry other hother := by
    rw [constant?_pushed] at hother
    split at hother
    · exact Option.some.inj hother ▸ short
    · exact h.short entry other hother
  nextSlot := by
    show pool.nextSlot + constant.width = _
    rw [h.nextSlot, Pool.pushed, Array.toList_push, List.map_append, List.sum_append]
    simp [Nat.add_assoc]
  bound := fits

theorem entries_pushed :
    (pool.pushed constant children).entries = pool.entries ++ [⟨pool.slots.size⟩] := by
  rw [entries, entries, pushed, Array.size_push, List.range_succ, List.map_append]
  rfl

/-- An index counts up to the counter, so it is not cut off. -/
theorem toNat_ofNat_of_le {start : Nat} (h : start ≤ 65535) : (UInt16.ofNat start).toNat = start :=
  UInt16.toNat_ofNat_of_lt' (Nat.lt_of_le_of_lt h (by decide))

/-- The offset behind a constant in the layout, as long as there is one. -/
theorem stop_push_width {layout : OffsetTable Entry} (constant : Constant) (entry : Entry)
    (fits : layout.stop.toNat + constant.width ≤ 65535) :
    (layout.push (.ofNat constant.width) entry).stop.toNat =
      layout.stop.toNat + constant.width := by
  have width : (UInt64.ofNat constant.width).toNat = constant.width := by
    cases constant <;> rfl
  have room : layout.stop.toNat + (UInt64.ofNat constant.width).toNat < 2 ^ 64 := by
    rw [width]
    omega
  rw [OffsetTable.stop_push entry room, width]

/-- A constant that comes after the indices were fixed takes the next one. -/
theorem LaidOut.pushed (h : pool.LaidOut) (stable : pool.state = .stable)
    (fits : pool.nextSlot + constant.width ≤ 65535) : (pool.pushed constant children).LaidOut := by
  have hlayout : (pool.pushed constant children).layout =
      pool.layout.push (.ofNat constant.width) ⟨pool.slots.size⟩ := if_pos stable
  have hrow : (pool.pushed constant children).layout.row =
      pool.layout.row ++ [(pool.layout.stop.toNat, ⟨pool.slots.size⟩)] := by
    rw [hlayout, OffsetTable.row_push]
  have hstop : (pool.pushed constant children).layout.stop.toNat =
      pool.layout.stop.toNat + constant.width := by
    rw [hlayout, stop_push_width constant _ (h.stop ▸ fits)]
  constructor
  · rw [hrow, entries_pushed, List.map_append]
    exact h.once.append_right _
  · have old : Contiguous (pool.pushed constant children).widthOf 1 pool.layout.row
        pool.layout.stop.toNat := by
      refine h.contiguous.congr fun cell hcell => widthOf_pushed_of_mem ?_
      exact h.once.mem_iff.mp (List.mem_map_of_mem hcell)
    have new : (pool.pushed constant children).widthOf ⟨pool.slots.size⟩ = constant.width := by
      rw [widthOf, constant?_pushed, if_pos rfl]
      rfl
    rw [hrow, hstop, ← new]
    exact old.concat _
  · rw [hstop, h.stop]
    rfl
  · intro start entry hmem
    rw [hrow] at hmem
    rcases List.mem_append.mp hmem with hold | hnew
    · obtain ⟨slot, index, hslot, hindex⟩ := h.index start entry hold
      refine ⟨slot, index, ?_, hindex⟩
      rw [Pool.pushed, Array.getElem?_push,
        if_neg (Nat.ne_of_lt (Array.getElem?_eq_some_iff.mp hslot).1)]
      exact hslot
    · obtain ⟨rfl, rfl⟩ := Prod.mk.inj (List.mem_singleton.mp hnew)
      refine ⟨_, pool.layout.stop.toUInt16, Array.getElem?_push_size, if_pos stable, ?_⟩
      rw [← UInt16.ofNat_uInt64ToNat, toNat_ofNat_of_le]
      rw [h.stop]
      omega

/-- A stable pool gives it an index at once, and a growing one leaves it without. -/
theorem Invariant.pushed (h : pool.Invariant) (unsealed : pool.state ≠ .sealed)
    (fresh : pool.get? constant = none) (short : excess? constant = none)
    (spells : pool.Spells constant children) (fits : pool.nextSlot + constant.width ≤ 65535) :
    (pool.pushed constant children).Invariant := by
  refine ⟨h.toContent.pushed fresh short spells fits, ?_, ?_⟩
  · intro growing
    have unstable : pool.state ≠ .stable := fun stable => by cases growing.symm.trans stable
    obtain ⟨hlayout, hindex⟩ := h.growing growing
    rw [Pool.pushed, if_neg unstable, if_neg unstable]
    refine ⟨hlayout, fun slot hslot => ?_⟩
    rw [Array.toList_push] at hslot
    rcases List.mem_append.mp hslot with hold | hnew
    · exact hindex slot hold
    · rw [List.mem_singleton.mp hnew]
  · intro grown
    have grown : pool.state ≠ .growing := grown
    have stable : pool.state = .stable := by
      cases hstate : pool.state with
      | growing => exact absurd hstate grown
      | stable => rfl
      | sealed => exact absurd hstate unsealed
    exact (h.settled grown).pushed stable fits

end

/-! ## Giving out indices -/

/-- How far the indices of `pool` have been given out in `walk`: to the entries `done`, in this
order. -/
structure Placed (pool : Pool) (done : List Entry) (walk : Pool) : Prop where
  alike : Alike pool walk
  cells : walk.layout.row.map Prod.snd = done
  contiguous : Contiguous pool.widthOf 1 walk.layout.row walk.layout.stop.toNat
  index : ∀ start entry, (start, entry) ∈ walk.layout.row →
    ∃ slot, walk.slots[entry.rank]? = some slot ∧ slot.index = some (UInt16.ofNat start)

/-- The next index is where the layout stops. -/
theorem place_eq {walk : Pool} {entry : Entry} {slot : PoolSlot}
    (h : walk.slots[entry.rank]? = some slot) :
    walk.place entry =
      { walk with
        slots := walk.slots.setIfInBounds entry.rank
          { slot with index := some walk.layout.stop.toUInt16 }
        layout := walk.layout.push (.ofNat slot.constant.width) entry } := by
  obtain ⟨slots, lookup, layout, state, nextSlot⟩ := walk
  dsimp only at h
  rw [place]
  simp only [h]

/-- One step of the walk: the entry gets its index, and the others keep theirs. -/
theorem Placed.place {pool walk : Pool} {done : List Entry} {entry : Entry}
    (h : Placed pool done walk) (present : entry ∈ pool.entries) (fresh : entry ∉ done)
    (fits : walk.layout.stop.toNat + pool.widthOf entry ≤ 65535) :
    Placed pool (done ++ [entry]) (walk.place entry) := by
  obtain ⟨slot, hslot⟩ : ∃ slot, walk.slots[entry.rank]? = some slot := by
    rw [← h.alike.entries] at present
    obtain ⟨rank, hrank, rfl⟩ := List.mem_map.mp present
    exact ⟨_, Array.getElem?_eq_getElem (List.mem_range.mp hrank)⟩
  have width : pool.widthOf entry = slot.constant.width := by
    rw [← h.alike.widthOf, widthOf, constant?, hslot]
    rfl
  rw [place_eq hslot]
  constructor
  · refine h.alike.trans ⟨?_, rfl, rfl⟩
    exact bodies_setIfInBounds hslot rfl rfl
  · rw [OffsetTable.row_push, List.map_append, h.cells]
    rfl
  · rw [OffsetTable.row_push, stop_push_width _ _ (width ▸ fits), ← width]
    exact h.contiguous.concat entry
  · intro start other hmem
    rw [OffsetTable.row_push] at hmem
    rcases List.mem_append.mp hmem with hold | hnew
    · -- An entry that has its index is not the one at hand.
      have apart : entry.rank ≠ other.rank := by
        intro same
        obtain rfl : entry = other := by
          obtain ⟨rank⟩ := entry
          obtain ⟨rank'⟩ := other
          exact congrArg Entry.mk same
        rw [← h.cells] at fresh
        exact fresh (List.mem_map_of_mem hold)
      obtain ⟨slot', hslot', hindex⟩ := h.index start other hold
      refine ⟨slot', ?_, hindex⟩
      rw [Array.getElem?_setIfInBounds_ne apart, hslot']
    · obtain ⟨rfl, rfl⟩ := Prod.mk.inj (List.mem_singleton.mp hnew)
      have hrank := (Array.getElem?_eq_some_iff.mp hslot).1
      refine ⟨_, Array.getElem?_setIfInBounds_self_of_lt hrank, ?_⟩
      rw [UInt16.ofNat_uInt64ToNat]

/-- So far the layout is as long as the constants in it are wide. -/
theorem Placed.stop_eq {pool walk : Pool} {done : List Entry} (h : Placed pool done walk) :
    walk.layout.stop.toNat = 1 + (done.map pool.widthOf).sum := by
  rw [h.contiguous.stop_eq, ← h.cells, List.map_map]
  rfl

/-- The whole walk, by induction over what is left of it. -/
theorem Placed.foldl {pool walk : Pool} {done rest : List Entry} (h : Placed pool done walk)
    (present : ∀ entry ∈ rest, entry ∈ pool.entries) (nodup : (done ++ rest).Nodup)
    (fits : 1 + ((done ++ rest).map pool.widthOf).sum ≤ 65535) :
    Placed pool (done ++ rest) (rest.foldl Pool.place walk) := by
  induction rest generalizing done walk with
  | nil => simpa using h
  | cons entry rest ih =>
    have fresh : entry ∉ done := by
      intro hdone
      exact (List.nodup_append.mp nodup).2.2 entry hdone entry List.mem_cons_self rfl
    have room : walk.layout.stop.toNat + pool.widthOf entry ≤ 65535 := by
      rw [List.map_append, List.map_cons, List.sum_append, List.sum_cons] at fits
      have := h.stop_eq
      omega
    rw [List.append_cons] at nodup fits ⊢
    refine ih (h.place (present entry List.mem_cons_self) fresh room) ?_ nodup fits
    intro other hother
    exact present other (List.mem_cons_of_mem entry hother)

theorem nodup_entries (pool : Pool) : pool.entries.Nodup :=
  List.nodup_range.map fun _ _ => Entry.mk.inj

theorem map_widthOf_entries (pool : Pool) :
    pool.entries.map pool.widthOf = pool.slots.toList.map fun slot => slot.constant.width := by
  refine List.ext_getElem (by simp [entries]) fun rank hrank hrank' => ?_
  have hsize : rank < pool.slots.size := by simpa using hrank'
  simp [entries, widthOf, constant?, hsize]

/-- **Indices are given out in the given order.** -/
theorem Invariant.placed {pool : Pool} (h : pool.Invariant) (growing : pool.state = .growing)
    {order : List Entry} (all : order.Perm pool.entries) :
    Placed pool order (order.foldl place pool) := by
  obtain ⟨hlayout, -⟩ := h.growing growing
  have start : Placed pool [] pool := by
    constructor
    · exact .refl pool
    · rw [hlayout]
      rfl
    · rw [hlayout]
      exact rfl
    · rw [hlayout]
      exact fun _ _ hmem => nomatch hmem
  have fits : 1 + (order.map pool.widthOf).sum ≤ 65535 := by
    rw [(all.map _).sum_eq, map_widthOf_entries, ← h.nextSlot]
    exact h.bound
  exact start.foldl (fun entry => all.mem_iff.mp) (all.nodup_iff.mpr pool.nodup_entries) fits

/-- Whatever the order, all entries get their indices. -/
theorem Invariant.layOut {pool : Pool} (h : pool.Invariant) (growing : pool.state = .growing)
    {order : List Entry} (all : order.Perm pool.entries) : (pool.layOut order).Invariant := by
  have placed := h.placed growing all
  have alike : Alike pool (pool.layOut order) :=
    ⟨placed.alike.bodies, placed.alike.lookup, placed.alike.nextSlot⟩
  have stop : (order.foldl place pool).layout.stop.toNat = pool.nextSlot := by
    rw [placed.stop_eq, (all.map _).sum_eq, map_widthOf_entries, h.nextSlot]
  refine ⟨h.toContent.of_alike alike, nofun, fun _ => ?_⟩
  constructor
  · show ((order.foldl place pool).layout.row.map Prod.snd).Perm _
    rw [alike.entries, placed.cells]
    exact all
  · rw [alike.widthOf]
    exact placed.contiguous
  · rw [alike.nextSlot]
    exact stop
  · intro start entry hmem
    obtain ⟨slot, hslot, hindex⟩ := placed.index start entry hmem
    refine ⟨slot, _, hslot, hindex, toNat_ofNat_of_le ?_⟩
    have within := (placed.contiguous.bounds hmem).2
    have := h.bound
    omega

theorem Invariant.stabilize {pool : Pool} (h : pool.Invariant) : pool.stabilize.Invariant := by
  unfold Pool.stabilize
  split
  · rename_i growing
    exact h.layOut growing (.refl _)
  · exact h

theorem Invariant.close {pool : Pool} (h : pool.Invariant) (stable : pool.state = .stable) :
    Invariant { pool with state := .sealed } := by
  obtain ⟨once, contiguous, stop, index⟩ := h.settled (settled_of_state stable nofun)
  exact ⟨h.toContent.of_alike ⟨rfl, rfl, rfl⟩, nofun, fun _ => ⟨once, contiguous, stop, index⟩⟩

end Pool

end JvmAsm
