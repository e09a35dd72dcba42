import JvmAsm.Proofs.PoolGrowth
import JvmAsm.Proofs.Starts

/-! # What is known about an entry stays known

Members of a class hold entries, and they are assembled one after the other while
the pool still takes constants.  So an index that ended up in the code of one
method was asked for earlier than the pool was written.  That this does no harm is
a matter of one order on pools: `pool.Extends pool'` says that whatever `pool`
answers about an entry, its constant or its index, `pool'` answers too.

Everything that can happen to a pool goes up in this order: additions
(`Grows.extends`) and all edits (`extends_perform`).  And whatever is computed from a
pool by asking for constants and indices, if it was computed at all, stays the same
further up: the resolved attributes (`Attributes.resolve_mono`) and the assembled code
(`Code.assemble_mono`).

Most actions on a pool do nothing but add constants.  `Interns` is their
specification: the pool has grown when they are done, however they ended. -/

namespace JvmAsm

namespace Pool

/-! ## The order -/

/-- **Whatever `pool` answers about an entry, `pool'` answers too.** -/
structure Extends (pool pool' : Pool) : Prop where
  constant? : ∀ {entry constant}, pool.constant? entry = some constant →
    pool'.constant? entry = some constant
  index : ∀ {entry index}, pool.index entry = .ok index → pool'.index entry = .ok index

namespace Extends

variable {pool pool' pool'' : Pool}

theorem refl (pool : Pool) : Extends pool pool := ⟨id, id⟩

theorem trans (h : Extends pool pool') (h' : Extends pool' pool'') : Extends pool pool'' :=
  ⟨fun known => h'.constant? (h.constant? known), fun known => h'.index (h.index known)⟩

/-- Entries of known constants keep them. -/
theorem map_constant? (h : Extends pool pool') {entries : List Entry} {constants : List Constant}
    (known : entries.map pool.constant? = constants.map some) :
    entries.map pool'.constant? = constants.map some := by
  rw [← known]
  refine List.map_congr_left fun entry hentry => ?_
  have listed : pool.constant? entry ∈ constants.map some := known ▸ List.mem_map_of_mem hentry
  obtain ⟨constant, -, hconstant⟩ := List.mem_map.mp listed
  rw [← hconstant]
  exact h.constant? hconstant.symm

end Extends

/-- An entry has an index if its slot does and indices are fixed. -/
theorem index_eq_ok {pool : Pool} {entry : Entry} {index : UInt16} :
    pool.index entry = .ok index ↔
      pool.state ≠ .growing ∧
        ∃ slot, pool.slots[entry.rank]? = some slot ∧ slot.index = some index := by
  unfold Pool.index
  by_cases growing : pool.state = .growing
  · simp [growing]
  · rw [if_neg growing]
    cases pool.slots[entry.rank]? with
    | none => simp
    | some slot =>
      cases hindex : slot.index with
      | none => simp [hindex]
      | some index' => simp [hindex, growing]

/-- An entry with an index is there. -/
theorem exists_constant?_of_index {pool : Pool} {entry : Entry} {index : UInt16}
    (h : pool.index entry = .ok index) : ∃ constant, pool.constant? entry = some constant := by
  obtain ⟨-, slot, hslot, -⟩ := index_eq_ok.mp h
  refine ⟨slot.constant, ?_⟩
  rw [constant?, hslot, Option.map_some]

/-- As long as indices are not fixed, only constants can be lost. -/
theorem extends_of_growing {pool pool' : Pool} (growing : pool.state = .growing)
    (keeps : ∀ {entry constant}, pool.constant? entry = some constant →
      pool'.constant? entry = some constant) : Extends pool pool' := by
  refine ⟨keeps, ?_⟩
  intro entry index known
  exact absurd growing (index_eq_ok.mp known).1

/-- Distinct entries of a pool can be counted in two bytes. -/
theorem Content.few {pool : Pool} (h : pool.Content) {entries : List Entry} (once : entries.Nodup)
    (known : ∀ entry ∈ entries, ∃ constant, pool.constant? entry = some constant) :
    entries.length ≤ 65535 := by
  have inside : entries ⊆ pool.entries := by
    intro entry hentry
    obtain ⟨constant, hconstant⟩ := known entry hentry
    exact List.mem_map.mpr ⟨entry.rank, List.mem_range.mpr (rank_lt_of_constant? hconstant), rfl⟩
  have fewer := (List.subperm_of_subset once inside).length_le
  have slots := List.length_le_sum_of_one_le
    (pool.slots.toList.map fun slot => slot.constant.width) fun width hwidth => by
      obtain ⟨slot, -, rfl⟩ := List.mem_map.mp hwidth
      exact slot.constant.width_pos
  have next := h.nextSlot
  have bound := h.bound
  rw [List.length_map, Array.length_toList] at slots
  rw [Pool.entries, List.length_map, List.length_range] at fewer
  omega

/-- A use that is counted, or a constant behind the others. -/
theorem Step.extends {touched : Constant → Prop} {pool pool' : Pool} (h : Step touched pool pool') :
    Extends pool pool' := by
  refine ⟨fun known => h.constant? known, ?_⟩
  intro entry index known
  obtain ⟨settled, slot, hslot, hindex⟩ := index_eq_ok.mp known
  cases h with
  | bump growing present ours => exact absurd growing settled
  | push unsealed fresh short spells fits ours =>
    refine index_eq_ok.mpr ⟨settled, slot, ?_, hindex⟩
    have old := (Array.getElem?_eq_some_iff.mp hslot).1
    rw [pushed, Array.getElem?_push, if_neg (Nat.ne_of_lt old), hslot]

theorem Grows.extends {touched : Constant → Prop} {pool pool' : Pool}
    (h : Grows touched pool pool') : Extends pool pool' := by
  induction h with
  | refl => exact .refl _
  | tail _ step ih => exact ih.trans step.extends

theorem alike_place (pool : Pool) (entry : Entry) : Alike pool (pool.place entry) := by
  cases hslot : pool.slots[entry.rank]? with
  | none =>
    have same : pool.place entry = pool := by
      obtain ⟨slots, lookup, layout, state, nextSlot⟩ := pool
      dsimp only at hslot
      simp only [place, hslot]
    rw [same]
    exact .refl pool
  | some slot =>
    rw [place_eq hslot]
    exact ⟨bodies_setIfInBounds hslot rfl rfl, rfl, rfl⟩

/-- Giving out indices moves no constant. -/
theorem alike_layOut (pool : Pool) (order : List Entry) : Alike pool (pool.layOut order) := by
  have walked (order : List Entry) (walk : Pool) (h : Alike pool walk) :
      Alike pool (order.foldl place walk) := by
    induction order generalizing walk with
    | nil => exact h
    | cons entry order ih => exact ih _ (h.trans (alike_place walk entry))
  obtain ⟨bodies, lookup, nextSlot⟩ := walked order pool (.refl pool)
  exact ⟨bodies, lookup, nextSlot⟩

/-- A growing pool has no index to lose. -/
theorem extends_layOut {pool : Pool} (growing : pool.state = .growing) (order : List Entry) :
    Extends pool (pool.layOut order) :=
  extends_of_growing growing fun known => ((alike_layOut pool order).constant? _).trans known

theorem extends_stabilize (pool : Pool) : Extends pool pool.stabilize := by
  unfold stabilize
  split
  · rename_i growing
    exact extends_layOut growing _
  · exact .refl pool

theorem extends_close (pool : Pool) : Extends pool { pool with state := .sealed } := by
  refine ⟨id, ?_⟩
  intro entry index known
  exact index_eq_ok.mpr ⟨nofun, (index_eq_ok.mp known).2⟩

/-! ## Actions that only add constants -/

/-- What an action that only adds constants does: the pool has grown, and after a success the
promise is kept. -/
abbrev Interns {α : Type} (action : Action α) (pool : Pool) (post : α → Pool → Prop) : Prop :=
  Adds action pool (fun _ => True) (fun _ => True) post

/-- A pool with more constants. -/
abbrev Grown : Pool → Pool → Prop := Grows fun _ => True

section

variable {α β : Type} {pool : Pool}

/-- The answer stands for the constant. -/
theorem interns_add (constant : Constant) (hpool : pool.Invariant) :
    Interns (add constant) pool fun entry pool' => pool'.constant? entry = some constant := by
  have adds := adds_add constant hpool
  constructor
  · intro entry pool' h
    obtain ⟨grows, present⟩ := adds.ok entry pool' h
    exact ⟨grows.mono fun _ _ => trivial, present⟩
  · intro cause pool' h
    exact (adds.error cause pool' h).mono fun _ _ => trivial

theorem interns_pure {post : α → Pool → Prop} {answer : α} (h : post answer pool) :
    Interns (pure answer) pool post := by
  constructor
  · intro answer' pool' run
    obtain ⟨rfl, rfl⟩ := Attempt.pure_eq_ok.mp run
    exact ⟨.refl, h⟩
  · intro cause pool' run
    exact (Attempt.pure_eq_error.mp run).elim

theorem interns_fail {post : α → Pool → Prop} (cause : Error) :
    Interns (Attempt.fail cause) pool post := by
  constructor
  · intro answer pool' run
    cases run
  · intro cause' pool' run
    cases run
    exact .refl

/-- What the first action found out is known to the second, whose pool has grown since. -/
theorem interns_bind {first : Action α} {next : α → Action β} {middle : α → Pool → Prop}
    {post : β → Pool → Prop} (hfirst : Interns first pool middle)
    (hnext : ∀ answer pool', Grown pool pool' → middle answer pool' →
      Interns (next answer) pool' post) :
    Interns (first >>= next) pool post := by
  constructor
  · intro answer pool'' run
    obtain ⟨value, pool', run, run'⟩ := Attempt.bind_eq_ok.mp run
    obtain ⟨grown, kept⟩ := hfirst.ok value pool' run
    obtain ⟨grown', kept'⟩ := (hnext value pool' grown kept).ok answer pool'' run'
    exact ⟨grown.trans grown', kept'⟩
  · intro cause pool'' run
    rcases Attempt.bind_eq_error.mp run with run | ⟨value, pool', run, run'⟩
    · exact hfirst.error cause pool'' run
    · obtain ⟨grown, kept⟩ := hfirst.ok value pool' run
      exact grown.trans ((hnext value pool' grown kept).error cause pool'' run')

/-- Two texts in a row, as every declaration of a member starts. -/
theorem interns_twoTexts {first second : String} {next : Entry → Entry → Action α}
    {post : α → Pool → Prop} (hpool : pool.Invariant)
    (hnext : ∀ a b pool', Grown pool pool' → pool'.constant? a = some (.utf8 first) →
      pool'.constant? b = some (.utf8 second) → Interns (next a b) pool' post) :
    Interns (do
      let a ← addUtf8 first
      let b ← addUtf8 second
      next a b) pool post := by
  refine interns_bind (interns_add _ hpool) fun a pool₁ grown₁ ha => ?_
  refine interns_bind (interns_add _ (grown₁.invariant hpool)) fun b pool₂ grown₂ hb => ?_
  exact hnext a b pool₂ (grown₁.trans grown₂) (grown₂.constant? ha) hb

end

/-! ## Edits -/

/-- One case for each kind of edit. -/
theorem Does.extends {pool pool' : Pool} {edit : Edit} (h : Does pool edit pool')
    (hpool : pool.Invariant) : Extends pool pool' := by
  cases h with
  | add constant =>
    have interns := interns_add constant hpool
    unfold Attempt.after
    cases run : Pool.add constant pool with
    | ok entry pool' => exact (interns.ok entry pool' run).1.extends
    | error cause pool' => exact (interns.error cause pool' run).extends
  | settle settles growing all => exact extends_layOut growing _
  | close stable => exact extends_close pool
  | idle untimely => exact .refl pool

theorem extends_perform {pool : Pool} (hpool : pool.Invariant) (edit : Edit) :
    Extends pool (edit.perform.after pool) :=
  (does_perform pool edit).extends hpool

end Pool

/-! ## What is computed from a pool -/

theorem Attributes.payload_constant_eq_ok {pool : Pool} {entry : Entry} {info : Bytes} :
    payload pool (.constant entry) = .ok info ↔
      ∃ index, pool.index entry = .ok index ∧ encode index = info := by
  change encode <$> pool.index entry = .ok info ↔ _
  cases pool.index entry with
  | error cause => simp
  | ok index => simp

attribute [local irreducible] Opcode.form

section

variable {pool pool' : Pool} (h : pool.Extends pool')

include h

namespace Attributes

/-- The bytes of an attribute do not change any more. -/
theorem payload_mono {value : AttributeValue} {info : Bytes}
    (known : payload pool value = .ok info) :
    payload pool' value = .ok info := by
  cases value with
  | bytes bytes => exact known
  | constant entry =>
    obtain ⟨index, hindex, rfl⟩ := payload_constant_eq_ok.mp known
    exact payload_constant_eq_ok.mpr ⟨index, h.index hindex, rfl⟩

theorem resolveOne_mono {named : NamedAttribute} {resolved : Attribute}
    (known : resolveOne pool named = .ok resolved) : resolveOne pool' named = .ok resolved := by
  obtain ⟨nameIndex, hname, known⟩ := Check.bind_eq_ok.mp known
  obtain ⟨info, hinfo, known⟩ := Check.bind_eq_ok.mp known
  exact Check.bind_eq_ok.mpr ⟨nameIndex, h.index hname,
    Check.bind_eq_ok.mpr ⟨info, payload_mono h hinfo, known⟩⟩

/-- Resolved attributes stay as they are. -/
theorem resolve_mono {attributes : Attributes} {resolved : List Attribute}
    (known : attributes.resolve pool = .ok resolved) : attributes.resolve pool' = .ok resolved :=
  Check.mapM_mono (fun _ _ => resolveOne_mono h) known

end Attributes

namespace Code

variable {code : Code}

theorem linkConstant_mono {position : Nat} {opcode : Opcode} {entry : Entry} {reference : PoolRef}
    (known : linkConstant pool position opcode entry = .ok reference) :
    linkConstant pool' position opcode entry = .ok reference := by
  unfold linkConstant at known ⊢
  cases hconstant : pool.constant? entry with
  | none => rw [hconstant] at known; cases known
  | some constant =>
    rw [hconstant] at known
    rw [h.constant? hconstant]
    obtain ⟨index, hindex, known⟩ := Check.bind_eq_ok.mp known
    exact Check.bind_eq_ok.mpr ⟨index, h.index hindex, known⟩

/-- An instruction that can be linked is linked to the same constant later. -/
theorem linkAt_mono {position : Nat} {source : SourceInstruction} {linked : LinkedInstruction}
    (known : code.linkAt pool position source = .ok linked) :
    code.linkAt pool' position source = .ok linked := by
  obtain ⟨opcode, operand⟩ := source
  cases operand with
  | none | int _ | increment _ _ | branch _ | switch _ => exact known
  | constant entry =>
    unfold linkAt at known ⊢
    dsimp only at known ⊢
    split at known
    · cases known
    · rename_i supported
      rw [if_neg supported]
      split at known
      · cases known
      · rename_i shape
        rw [if_neg shape]
        obtain ⟨reference, hreference, known⟩ := Check.bind_eq_ok.mp known
        exact Check.bind_eq_ok.mpr ⟨reference, linkConstant_mono h hreference, known⟩

theorem layout_mono {layout : Layout} (known : code.layout pool = .ok layout) :
    code.layout pool' = .ok layout := by
  obtain ⟨linked, hlinked, known⟩ := Check.bind_eq_ok.mp known
  exact Check.bind_eq_ok.mpr
    ⟨linked, Check.mapM_mono (fun _ _ => linkAt_mono h) hlinked, known⟩

theorem handlerRow_mono {layout : Layout} {handler : Handler} {row : ExceptionHandler}
    (known : code.handlerRow pool layout handler = .ok row) :
    code.handlerRow pool' layout handler = .ok row := by
  obtain ⟨start, hstart, known⟩ := Check.bind_eq_ok.mp known
  obtain ⟨stop, hstop, known⟩ := Check.bind_eq_ok.mp known
  refine Check.bind_eq_ok.mpr ⟨start, hstart, Check.bind_eq_ok.mpr ⟨stop, hstop, ?_⟩⟩
  split at known
  · rename_i range
    rw [if_pos range]
    obtain ⟨target, htarget, known⟩ := Check.bind_eq_ok.mp known
    refine Check.bind_eq_ok.mpr ⟨target, htarget, ?_⟩
    -- Only the class that is caught is asked of the pool.
    cases hentry : handler.catchType with
    | none =>
      simp only [hentry] at known ⊢
      exact known
    | some entry =>
      simp only [hentry] at known ⊢
      obtain ⟨catchType, hcatch, known⟩ := Check.bind_eq_ok.mp known
      exact Check.bind_eq_ok.mpr ⟨catchType, h.index hcatch, known⟩
  · cases known

theorem exceptionTable_mono {layout : Layout} {table : List ExceptionHandler}
    (known : code.exceptionTable pool layout = .ok table) :
    code.exceptionTable pool' layout = .ok table := by
  obtain ⟨rows, hrows, known⟩ := Check.bind_eq_ok.mp known
  exact Check.bind_eq_ok.mpr ⟨rows, Check.mapM_mono (fun _ _ => handlerRow_mono h) hrows, known⟩

/-- **Assembled code stays as it is**, whatever is added to the pool later. -/
theorem assemble_mono {payload : CodeAttribute} (known : code.assemble pool = .ok payload) :
    code.assemble pool' = .ok payload := by
  obtain ⟨layout, chunks, table, attributes, hlayout, hchunks, htable, hattributes, rfl⟩ :=
    assemble_eq_ok.mp known
  exact assemble_eq_ok.mpr ⟨layout, chunks, table, attributes, layout_mono h hlayout, hchunks,
    exceptionTable_mono h htable, Attributes.resolve_mono h hattributes, rfl⟩

end Code

end

end JvmAsm
