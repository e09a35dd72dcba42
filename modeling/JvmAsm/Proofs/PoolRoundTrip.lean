import JvmAsm.Proofs.Outputs
import JvmAsm.Proofs.PoolGrowth
import JvmAsm.Proofs.PoolReader

/-! # A sealed pool reads back

A constant is written with the indices of its children, which are entries; a reader
follows indices through its own table and knows nothing of entries.  In between
stands `position`, the index of a constant by value.  With it the bytes of a
constant (`writtenBytes`) and what a reader makes of them (`written`) depend on the
constant alone, in whatever order indices were given out.

The proof has three parts: what the pool sends is `writtenBytes` of the constants in
the order of the layout (`output_eq`), a reader makes the table `asRead` of it
(`reads_output`), and resolving an index in this table gives the constant that the
pool has there (`value?_asRead`). -/

namespace JvmAsm

/-! ## Sending -/

namespace Output

/-- Outputs without failures, one after the other. -/
theorem each_eq {α : Type} {elements : List α} {output : α → Output} {bytes : α → Bytes}
    (h : ∀ element ∈ elements, output element = ⟨bytes element, none⟩) :
    each elements output = ⟨elements.flatMap bytes, none⟩ := by
  induction elements with
  | nil => rfl
  | cons element elements ih =>
    have following := ih fun other hother => h other (List.mem_cons_of_mem element hother)
    show output element ++ each elements output = _
    rw [h element List.mem_cons_self, following, mk_append, List.flatMap_cons]

end Output

namespace Pool

/-! ## Indices of constants -/

/-- The index of a constant, and zero if it has none. -/
def position (pool : Pool) (constant : Constant) : Nat :=
  match pool.indexOf constant with
  | .ok index => index.toNat
  | .error _ => 0

theorem position_lt (pool : Pool) (constant : Constant) : pool.position constant < 65536 := by
  unfold position
  split
  · exact UInt16.toNat_lt _
  · decide

theorem widthOf_of_constant? {pool : Pool} {entry : Entry} {constant : Constant}
    (h : pool.constant? entry = some constant) : pool.widthOf entry = constant.width := by
  rw [widthOf, h, Option.elim_some]

section

variable {pool : Pool} (hpool : pool.Invariant) (settled : pool.state ≠ .growing)
  {entry : Entry} {constant : Constant}

include hpool settled

/-- What stands in the layout is a constant under its index. -/
theorem index_of_mem_cells {start : Nat} (h : (start, entry) ∈ pool.layout.row) :
    ∃ constant index, pool.constant? entry = some constant ∧ pool.index entry = .ok index ∧
      index.toNat = start := by
  obtain ⟨slot, index, hslot, hindex, hstart⟩ := (hpool.settled settled).index start entry h
  refine ⟨slot.constant, index, ?_, ?_, hstart⟩
  · rw [constant?, hslot, Option.map_some]
  · rw [Pool.index, if_neg settled, hslot]
    simp only [hindex]

/-- The index of a constant is that of its entry. -/
theorem position_of_index {index : UInt16} (present : pool.constant? entry = some constant)
    (h : pool.index entry = .ok index) : pool.position constant = index.toNat := by
  rw [position, indexOf, if_neg settled, (hpool.lookup constant entry).mpr present]
  simp only [h]

/-- Every constant stands in the layout under its index. -/
theorem index_of_constant? (present : pool.constant? entry = some constant) :
    ∃ index : UInt16, pool.index entry = .ok index ∧ pool.position constant = index.toNat ∧
      (index.toNat, entry) ∈ pool.layout.row := by
  have listed : entry ∈ pool.layout.row.map Prod.snd := by
    refine (hpool.settled settled).once.mem_iff.mpr (List.mem_map.mpr ⟨entry.rank, ?_, rfl⟩)
    exact List.mem_range.mpr (rank_lt_of_constant? present)
  obtain ⟨⟨start, other⟩, hcell, hother⟩ := List.mem_map.mp listed
  obtain rfl : other = entry := hother
  obtain ⟨_, index, -, hindex, rfl⟩ := index_of_mem_cells hpool settled hcell
  exact ⟨index, hindex, position_of_index hpool settled present hindex, hcell⟩

/-- The cells of the layout are the constants at their positions. -/
theorem mem_cells_iff {start : Nat} : (start, entry) ∈ pool.layout.row ↔
    ∃ constant, pool.constant? entry = some constant ∧ pool.position constant = start := by
  constructor
  · intro hcell
    obtain ⟨constant, index, present, hindex, hstart⟩ := index_of_mem_cells hpool settled hcell
    exact ⟨constant, present, (position_of_index hpool settled present hindex).trans hstart⟩
  · rintro ⟨constant, present, rfl⟩
    obtain ⟨index, -, hposition, hcell⟩ := index_of_constant? hpool settled present
    rw [hposition]
    exact hcell

/-- A constant lies between 1 and the counter. -/
theorem position_bounds (h : pool.constant? entry = some constant) :
    1 ≤ pool.position constant ∧ pool.position constant < pool.nextSlot := by
  have laidOut := hpool.settled settled
  have bounds := laidOut.contiguous.bounds
    ((mem_cells_iff hpool settled).mpr ⟨constant, h, rfl⟩)
  have width := widthOf_of_constant? h
  have wide := constant.width_pos
  have stop := laidOut.stop
  dsimp only at bounds
  omega

end

/-! ## Constants as they are written -/

/-- What a reader finds for a constant. -/
def written (pool : Pool) : Constant → ReadConstant
  | .utf8 text => .utf8 (ModifiedUtf8.encode text)
  | .integer value => .integer value.toInt
  | .float bits => .float bits.toNat
  | .long value => .long value.toInt
  | .double bits => .double bits.toNat
  | .refType type => .classInfo (pool.position (.utf8 type.internalForm))
  | .string text => .string (pool.position (.utf8 text))
  | .fieldRef member => .fieldRef (pool.position (.refType member.owner))
      (pool.position (.nameAndType member.nameAndType))
  | .methodRef member => .methodRef (pool.position (.refType member.owner))
      (pool.position (.nameAndType member.nameAndType))
  | .interfaceMethodRef member => .interfaceMethodRef (pool.position (.refType member.owner))
      (pool.position (.nameAndType member.nameAndType))
  | .nameAndType member => .nameAndType (pool.position (.utf8 member.name))
      (pool.position (.utf8 member.descriptor))

theorem width_written (pool : Pool) (constant : Constant) :
    (pool.written constant).width = constant.width := by
  cases constant <;> rfl

theorem tag_written (pool : Pool) (constant : Constant) :
    (pool.written constant).tag = constant.tag.toNat := by
  cases constant <;> rfl

/-- The references of a constant are its constituents. -/
theorem references_written (pool : Pool) (constant : Constant) :
    (pool.written constant).references =
      constant.constituents.map fun part => (pool.position part, part.tag.toNat) := by
  cases constant <;> rfl

/-- The bytes of a constant behind its tag. -/
def payloadBytes (pool : Pool) : Constant → Bytes
  | .utf8 text =>
    Bytes.ofNat 2 (ModifiedUtf8.encode text).length ++ ModifiedUtf8.encode text
  | .integer value => encode value
  | .float bits => encode bits
  | .long value => encode value
  | .double bits => encode bits
  | constant => constant.constituents.flatMap fun part => Bytes.ofNat 2 (pool.position part)

/-- The bytes of a constant. -/
def writtenBytes (pool : Pool) (constant : Constant) : Bytes :=
  encode constant.tag ++ pool.payloadBytes constant

/-! ### Reading one -/

theorem reads_position (pool : Pool) (constant : Constant) :
    (Reader.unsigned 2).Reads (Bytes.ofNat 2 (pool.position constant)) (pool.position constant) :=
  Reader.reads_unsigned (pool.position_lt constant)

theorem reads_onePosition (pool : Pool) (make : Nat → ReadConstant) (part : Constant) :
    (do return make (← Reader.unsigned 2) : Reader ReadConstant).Reads
      ([part].flatMap fun part => Bytes.ofNat 2 (pool.position part))
      (make (pool.position part)) := by
  rw [List.flatMap_singleton]
  exact (pool.reads_position part).bind_pure make

theorem reads_twoPositions (pool : Pool) (make : Nat → Nat → ReadConstant)
    (first second : Constant) :
    (Reader.indexPair make).Reads
      ([first, second].flatMap fun part => Bytes.ofNat 2 (pool.position part))
      (make (pool.position first) (pool.position second)) := by
  rw [List.flatMap_cons, List.flatMap_singleton]
  exact (pool.reads_position first).bind ((pool.reads_position second).bind_pure _)

/-- A text that is not too long is read back with its length. -/
theorem reads_text {text : String} (short : excess? (.utf8 text) = none) :
    Reader.text.Reads (Bytes.ofNat 2 (ModifiedUtf8.encode text).length ++ ModifiedUtf8.encode text)
      (ModifiedUtf8.encode text) := by
  have fits : (ModifiedUtf8.encode text).length < 256 ^ 2 := by
    unfold excess? maxCount at short
    dsimp only at short
    split at short
    · cases short
    · omega
  exact (Reader.reads_unsigned fits).bind (Reader.Reads.take _)

theorem reads_payload (pool : Pool) {constant : Constant} (short : excess? constant = none) :
    (Reader.payload constant.tag.toNat).Reads (pool.payloadBytes constant)
      (pool.written constant) := by
  cases constant with
  | utf8 text => exact (reads_text short).bind_pure _
  | integer value => exact (Reader.reads_int32 value).bind_pure _
  | float bits => exact (Reader.reads_uint32 bits).bind_pure _
  | long value => exact (Reader.reads_int64 value).bind_pure _
  | double bits => exact (Reader.reads_uint64 bits).bind_pure _
  | refType type => exact pool.reads_onePosition .classInfo _
  | string text => exact pool.reads_onePosition .string _
  | fieldRef member => exact pool.reads_twoPositions .fieldRef _ _
  | methodRef member => exact pool.reads_twoPositions .methodRef _ _
  | interfaceMethodRef member => exact pool.reads_twoPositions .interfaceMethodRef _ _
  | nameAndType member => exact pool.reads_twoPositions .nameAndType _ _

theorem reads_writtenBytes (pool : Pool) {constant : Constant} (short : excess? constant = none) :
    Reader.constant.Reads (pool.writtenBytes constant) (pool.written constant) :=
  (Reader.reads_unsigned constant.tag.toNat_lt).bind (pool.reads_payload short)

/-! ### Writing one -/

/-- Children are written as the positions of the constituents. -/
theorem each_children {pool : Pool} (hpool : pool.Invariant) (settled : pool.state ≠ .growing)
    {children : List Entry} {parts : List Constant}
    (h : children.map pool.constant? = parts.map some) :
    (Output.each children fun child => .attempt (pool.index child)) =
      ⟨parts.flatMap fun part => Bytes.ofNat 2 (pool.position part), none⟩ := by
  induction parts generalizing children with
  | nil =>
    rw [List.map_nil, List.map_eq_nil_iff] at h
    subst h
    rfl
  | cons part parts ih =>
    rw [List.map_cons] at h
    obtain ⟨child, children, rfl, present, others⟩ := List.map_eq_cons_iff.mp h
    obtain ⟨index, hindex, hposition, -⟩ := index_of_constant? hpool settled present
    show Output.attempt (pool.index child) ++ Output.each children _ = _
    rw [ih others, hindex, List.flatMap_cons, hposition]
    rfl

theorem entryOutput_eq {pool : Pool} (hpool : pool.Invariant) (settled : pool.state ≠ .growing)
    {entry : Entry} {constant : Constant} (present : pool.constant? entry = some constant) :
    pool.entryOutput entry = ⟨pool.writtenBytes constant, none⟩ := by
  obtain ⟨⟨constant, children, references, index⟩, hslot, rfl⟩ :=
    Option.map_eq_some_iff.mp present
  have composite := each_children hpool settled
    (spells_iff.mp (hpool.children entry.rank _ hslot).1)
  rw [entryOutput, hslot]
  cases constant with
  | utf8 _ | integer _ | float _ | long _ | double _ => rfl
  | refType _ | string _ | fieldRef _ | methodRef _ | interfaceMethodRef _ | nameAndType _ =>
    exact congrArg (Output.value _ ++ ·) composite

/-! ## The whole pool -/

/-- The bytes of an entry's constant. -/
def entryBytes (pool : Pool) (entry : Entry) : Bytes :=
  (pool.constant? entry).elim [] pool.writtenBytes

/-- What a reader finds for an entry. -/
def entryView (pool : Pool) (entry : Entry) : ReadConstant :=
  (pool.constant? entry).elim (.utf8 []) pool.written

/-- What a reader makes of the pool. -/
def asRead (pool : Pool) : ReadPool where
  count := pool.nextSlot
  constants := pool.layout.row.map fun cell => (cell.1, pool.entryView cell.2)

section

variable {pool : Pool} (hpool : pool.Invariant)

include hpool

theorem output_eq (closed : pool.state = .sealed) : pool.output =
    ⟨encode pool.size ++ pool.layout.row.flatMap fun cell => pool.entryBytes cell.2,
      none⟩ := by
  have settled := settled_of_state closed nofun
  have entries : (Output.each pool.layout.cells.toList fun cell => pool.entryOutput cell.2) =
      ⟨pool.layout.row.flatMap fun cell => pool.entryBytes cell.2, none⟩ := by
    rw [OffsetTable.row, List.flatMap_map]
    refine Output.each_eq fun cell hcell => ?_
    obtain ⟨constant, present, -⟩ :=
      (mem_cells_iff hpool settled).mp (OffsetTable.mem_row.mpr hcell)
    show pool.entryOutput cell.2 = ⟨pool.entryBytes cell.2, none⟩
    rw [entryOutput_eq hpool settled present, entryBytes, present, Option.elim_some]
  rw [output, if_pos closed]
  exact congrArg (Output.value pool.size ++ ·) entries

theorem reads_output (closed : pool.state = .sealed) :
    Reader.pool.Reads pool.output.bytes pool.asRead := by
  have settled := settled_of_state closed nofun
  have laidOut := hpool.settled settled
  have count := Reader.reads_uint16 pool.size
  rw [hpool.toNat_size] at count
  have constants : (Reader.constants pool.nextSlot 1).Reads
      (pool.layout.row.flatMap fun cell => pool.entryBytes cell.2)
      pool.asRead.constants := by
    refine Reader.reads_constants (laidOut.stop ▸ laidOut.contiguous) fun cell hcell => ?_
    obtain ⟨constant, present, -⟩ := (mem_cells_iff hpool settled).mp hcell
    rw [entryBytes, entryView, widthOf_of_constant? present, present, Option.elim_some,
      Option.elim_some]
    exact ⟨pool.reads_writtenBytes (hpool.short _ _ present), pool.width_written constant⟩
  rw [output_eq hpool closed]
  exact count.bind (constants.bind_pure (ReadPool.mk pool.nextSlot))

end

/-! ## Resolving indices -/

section

variable {pool : Pool} (hpool : pool.Invariant) (settled : pool.state ≠ .growing)
  {entry : Entry} {constant : Constant}

include hpool settled

theorem widthOf_pos {cell : Nat × Entry} (h : cell ∈ pool.layout.row) :
    0 < pool.widthOf cell.2 := by
  obtain ⟨constant, present, -⟩ := (mem_cells_iff hpool settled).mp h
  rw [widthOf_of_constant? present]
  exact constant.width_pos

/-- Looking an index up finds what stands there in the layout. -/
theorem get?_layout_eq_some_iff {start : UInt64} :
    pool.layout.get? start = some entry ↔ (start.toNat, entry) ∈ pool.layout.row :=
  OffsetTable.get?_eq_some_iff (hpool.settled settled).contiguous
    fun _ hcell => widthOf_pos hpool settled hcell

/-- A reader finds at an index what stands there in the layout. -/
theorem constant?_asRead_of_mem {start : Nat} (h : (start, entry) ∈ pool.layout.row) :
    pool.asRead.constant? start = some (pool.entryView entry) := by
  have contiguous := (hpool.settled settled).contiguous
  cases found : pool.asRead.constant? start with
  | none =>
    have apart := List.lookup_eq_none_iff.mp found _
      (List.mem_map_of_mem (f := fun cell => (cell.1, pool.entryView cell.2)) h)
    simp at apart
  | some other =>
    -- No two constants start at the same index.
    obtain ⟨before, after, split, -⟩ := List.lookup_eq_some_iff.mp found
    have hmem : (start, other) ∈ pool.asRead.constants := by
      rw [split]
      exact List.mem_append_right before List.mem_cons_self
    obtain ⟨⟨_, entry'⟩, hcell, same⟩ := List.mem_map.mp hmem
    obtain ⟨rfl, rfl⟩ := Prod.mk.inj same
    rw [OffsetTable.eq_of_mem_contiguous contiguous
      (fun cell hcell => widthOf_pos hpool settled hcell) h hcell]

/-- A reader finds a constant at its position. -/
theorem constant?_asRead (present : pool.constant? entry = some constant) :
    pool.asRead.constant? (pool.position constant) = some (pool.written constant) := by
  rw [constant?_asRead_of_mem hpool settled
    ((mem_cells_iff hpool settled).mpr ⟨constant, present, rfl⟩), entryView, present,
    Option.elim_some]

/-- A reader finds a constant at an index if and only if the pool has it there. -/
theorem constant?_asRead_index (index : UInt16) :
    pool.asRead.constant? index.toNat = (pool.constantAt? index).map pool.written := by
  unfold constantAt?
  rw [← UInt16.toNat_toUInt64]
  cases found : pool.layout.get? index.toUInt64 with
  | some entry =>
    have hcell := (get?_layout_eq_some_iff hpool settled).mp found
    obtain ⟨constant, present, -⟩ := (mem_cells_iff hpool settled).mp hcell
    rw [constant?_asRead_of_mem hpool settled hcell, Option.bind_some, present, entryView, present]
    rfl
  | none =>
    refine List.lookup_eq_none_iff.mpr fun row hrow => ?_
    obtain ⟨⟨start, entry⟩, hcell, rfl⟩ := List.mem_map.mp hrow
    rw [bne_iff_ne]
    rintro rfl
    rw [(get?_layout_eq_some_iff hpool settled).mpr hcell] at found
    cases found

theorem text?_asRead {text : String} (h : ∃ entry, pool.constant? entry = some (.utf8 text)) :
    pool.asRead.text? (pool.position (.utf8 text)) = some text := by
  obtain ⟨entry, present⟩ := h
  rw [ReadPool.text?, constant?_asRead hpool settled present]
  exact ModifiedUtf8.decode?_encode text

theorem className?_asRead {type : RefType}
    (h : ∃ entry, pool.constant? entry = some (.refType type)) :
    pool.asRead.className? (pool.position (.refType type)) = some type.internalForm := by
  obtain ⟨entry, present⟩ := h
  rw [ReadPool.className?, constant?_asRead hpool settled present]
  exact text?_asRead hpool settled (hpool.exists_part present List.mem_cons_self)

theorem texts?_asRead {member : NameAndType}
    (h : ∃ entry, pool.constant? entry = some (.nameAndType member)) :
    pool.asRead.texts? (pool.position (.utf8 member.name))
      (pool.position (.utf8 member.descriptor)) = some member := by
  obtain ⟨entry, present⟩ := h
  have name := text?_asRead hpool settled (hpool.exists_part present List.mem_cons_self)
  have descriptor := text?_asRead hpool settled
    (hpool.exists_part present (List.mem_cons_of_mem _ List.mem_cons_self))
  rw [ReadPool.texts?, name, descriptor]
  rfl

theorem nameAndType?_asRead {member : NameAndType}
    (h : ∃ entry, pool.constant? entry = some (.nameAndType member)) :
    pool.asRead.nameAndType? (pool.position (.nameAndType member)) = some member := by
  have texts := texts?_asRead hpool settled h
  obtain ⟨entry, present⟩ := h
  rw [ReadPool.nameAndType?, constant?_asRead hpool settled present]
  exact texts

/-- The three kinds of member references are resolved alike. -/
theorem member?_asRead {member : MemberRef} (present : pool.constant? entry = some constant)
    (parts : constant.constituents = [.refType member.owner, .nameAndType member.nameAndType]) :
    pool.asRead.member? (pool.position (.refType member.owner))
      (pool.position (.nameAndType member.nameAndType)) =
        some ⟨member.owner.internalForm, member.nameAndType⟩ := by
  have owner := className?_asRead hpool settled
    (hpool.exists_part present (parts ▸ List.mem_cons_self))
  have signature := nameAndType?_asRead hpool settled
    (hpool.exists_part present (parts ▸ List.mem_cons_of_mem _ List.mem_cons_self))
  rw [ReadPool.member?, owner, signature]
  rfl

/-- What a reader makes of a constant is the constant. -/
theorem resolve?_written (present : pool.constant? entry = some constant) :
    pool.asRead.resolve? (pool.written constant) = some constant.value := by
  have text {text : String} (hpart : .utf8 text ∈ constant.constituents) :=
    text?_asRead hpool settled (hpool.exists_part present hpart)
  cases constant with
  | utf8 text =>
    rw [written, ReadPool.resolve?, ModifiedUtf8.decode?_encode]
    rfl
  | integer _ | float _ | long _ | double _ => rfl
  | refType type =>
    rw [written, ReadPool.resolve?, text List.mem_cons_self]
    rfl
  | string content =>
    rw [written, ReadPool.resolve?, text List.mem_cons_self]
    rfl
  | nameAndType member =>
    rw [written, ReadPool.resolve?, texts?_asRead hpool settled ⟨entry, present⟩]
    rfl
  | fieldRef member | methodRef member | interfaceMethodRef member =>
    rw [written, ReadPool.resolve?, member?_asRead hpool settled present rfl]
    rfl

/-- Resolving an index gives the constant that the pool has there. -/
theorem value?_asRead (index : UInt16) :
    pool.asRead.value? index.toNat = (pool.constantAt? index).map Constant.value := by
  rw [ReadPool.value?, constant?_asRead_index hpool settled]
  cases found : pool.constantAt? index with
  | none => rfl
  | some constant =>
    obtain ⟨entry, -, present⟩ := Option.bind_eq_some_iff.mp found
    exact resolve?_written hpool settled present

theorem closed_asRead : pool.asRead.Closed := by
  intro start view hmem reference hreference
  obtain ⟨⟨_, entry⟩, hcell, same⟩ := List.mem_map.mp hmem
  obtain ⟨rfl, rfl⟩ := Prod.mk.inj same
  obtain ⟨constant, present, -⟩ := (mem_cells_iff hpool settled).mp hcell
  rw [entryView, present, Option.elim_some, references_written] at hreference
  obtain ⟨part, hpart, rfl⟩ := List.mem_map.mp hreference
  obtain ⟨child, hchild⟩ := hpool.exists_part present hpart
  obtain ⟨low, high⟩ := position_bounds hpool settled hchild
  exact ⟨low, high, pool.written part, constant?_asRead hpool settled hchild,
    pool.tag_written part⟩

end

/-- The pool is written in full, and a reader that starts from the bytes alone takes all of
them, finds the size of the pool, and resolves every index to the constant that the pool has
there. -/
def ReadsBack (pool : Pool) : Prop :=
  ∃ bytes read,
    pool.write .unbounded = .ok () ⟨bytes.toArray, none⟩ ∧
    Reader.pool.run bytes = some (read, []) ∧
    read.count = pool.size.toNat ∧
    (∀ index : UInt16, (read.constant? index.toNat).map ReadConstant.tag =
      (pool.constantAt? index).map fun constant => constant.tag.toNat) ∧
    (∀ index : UInt16, read.value? index.toNat = (pool.constantAt? index).map Constant.value) ∧
    read.Closed

/-- **Every sealed pool reads back**, whatever happened to it before. -/
theorem sealed_pool_reads_back (history : List Edit)
    (closed : (empty.after history).state = .sealed) : (empty.after history).ReadsBack := by
  have hpool := invariant_empty.after history
  generalize empty.after history = pool at closed hpool
  have settled := settled_of_state closed nofun
  have sent := output_eq hpool closed
  refine ⟨pool.output.bytes, pool.asRead, ?_, ?_, hpool.toNat_size.symm, ?_,
    value?_asRead hpool settled, closed_asRead hpool settled⟩
  · rw [write_eq, Output.send_unbounded, sent]
    rfl
  · have read := reads_output hpool closed []
    rwa [List.append_nil] at read
  · intro index
    rw [constant?_asRead_index hpool settled, Option.map_map]
    congr 1
    funext constant
    exact pool.tag_written constant

/-- A text asked for twice, then indices by use, so that it stands before its characters, then
one more constant. -/
def quoteThenLong : List Edit :=
  [.add (.string "a"), .add (.string "a"), .optimize, .add (.long 1), .close]

theorem after_quoteThenLong : empty.after quoteThenLong =
    { slots := #[⟨.utf8 "a", [], 1, some 2⟩, ⟨.string "a", [⟨0⟩], 2, some 1⟩,
        ⟨.long 1, [], 1, some 3⟩]
      lookup := ((∅ : Std.HashMap Constant Entry).insert (.utf8 "a") ⟨0⟩
        |>.insert (.string "a") ⟨1⟩).insert (.long 1) ⟨2⟩
      layout := ⟨#[(1, ⟨1⟩), (2, ⟨0⟩), (3, ⟨2⟩)], 5⟩
      state := .sealed
      nextSlot := 5 } := by
  have short : excess? (.utf8 "a") = none := by decide
  have short' : excess? (.string "a") = none := rfl
  have short'' : excess? (.long 1) = none := rfl
  simp [quoteThenLong, empty, after, Attempt.after, Edit.perform, add, addWithin, intern, short,
    short', short'', Constant.height, Constant.constituents, Constant.width, push, maxCount, bump,
    optimize, layOut, entriesByUse, entries, List.range_succ, List.mergeSort, references?, place,
    close, OffsetTable.startingAt, OffsetTable.push, bind, EStateM.bind, pure, EStateM.pure]

theorem quoteThenLong_reads_back :
    (empty.after quoteThenLong).state = .sealed ∧
      (empty.after quoteThenLong).index ⟨1⟩ = .ok 1 ∧
      (empty.after quoteThenLong).index ⟨0⟩ = .ok 2 ∧
      (empty.after quoteThenLong).ReadsBack := by
  have closed : (empty.after quoteThenLong).state = .sealed := by rw [after_quoteThenLong]
  refine ⟨closed, ?_, ?_, sealed_pool_reads_back quoteThenLong closed⟩
  · rw [after_quoteThenLong]
    rfl
  · rw [after_quoteThenLong]
    rfl

end Pool

end JvmAsm
