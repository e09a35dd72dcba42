import JvmAsm.Proofs.ClassLinks
import JvmAsm.Proofs.PoolPermanence
import Mathlib.Order.Interval.Set.Defs

/-! # Exception tables

A handler is registered with positions or labels, and its row in the table has byte
offsets.  Offsets are known only when jumps have their final form and switches their
padding, so a row is compared here with the bytes themselves: a reader that knows
nothing about positions takes the code apart and finds an instruction at each of certain
offsets.  The row names three of them, or the end of the code (`ExceptionHandler.Guards`).

Two things make ranges mean the same before and after.  Every instruction takes up at
least one byte, so offsets ascend with positions (`Code.strictMonoOn_start`) and a range
of bytes covers exactly the instructions of a range of positions.  And no offset is
truncated to the two bytes it has in a row, since the length of the code was checked. -/

namespace JvmAsm

/-- **What a row of the exception table says about its handler.**  The handler's targets stand for
the positions `start`, `stop` and `target`; `offsets` are those at which the instructions of the
code were found, and `size` is where the code ends. -/
structure ExceptionHandler.Guards (code : Code) (pool : Pool) (offsets : List Nat) (size : Nat)
    (handler : Handler) (row : ExceptionHandler) (start stop target : Nat) : Prop where
  starts : code.resolve handler.start = .ok start
  stops : code.resolve handler.stop = .ok stop
  handles : code.resolve handler.handler = .ok target
  startPc : offsets[start]? = some row.startPc.toNat
  /-- The end of the code counts as a position here. -/
  endPc : if stop = code.length then row.endPc.toNat = size
    else offsets[stop]? = some row.endPc.toNat
  handlerPc : offsets[target]? = some row.handlerPc.toNat
  nonempty : row.startPc.toNat < row.endPc.toNat
  endPc_le : row.endPc.toNat ≤ size
  handlerPc_lt : row.handlerPc.toNat < size
  catchAll : row.catchType = 0 ↔ handler.catchType = none
  catchType : ∀ entry, handler.catchType = some entry → pool.index entry = .ok row.catchType
  /-- The bytes of the range are those of the instructions in it. -/
  covers : ∀ position offset, offsets[position]? = some offset →
    (row.startPc.toNat ≤ offset ∧ offset < row.endPc.toNat ↔ start ≤ position ∧ position < stop)

namespace Code

variable {code : Code} {pool : Pool} {layout : Layout} {chunks : List Bytes}

/-- A row names no class if and only if the handler does not: no constant has index 0. -/
theorem catchType_eq_zero_iff (hpool : pool.Invariant) (settled : pool.state ≠ .growing)
    {catchType : Option Entry} {index : UInt16} (h : pool.IndexesCatch catchType index.toNat) :
    index = 0 ↔ catchType = none := by
  cases catchType with
  | none => exact ⟨fun _ => rfl, fun _ => UInt16.toNat_inj.mp h⟩
  | some entry =>
    have indexed : pool.Indexes entry index.toNat := h
    constructor
    · rintro rfl
      exact absurd rfl (indexed.ne_zero hpool settled)
    · intro none_caught
      cases none_caught

section

variable (hlayout : code.layout pool = .ok layout) (hchunks : layout.encodeAll = .ok chunks)

include hlayout hchunks

/-- Offsets ascend with positions, up to the end of the code. -/
theorem strictMonoOn_start : StrictMonoOn layout.start (Set.Iic code.length) :=
  fun _ _ _ hj hij => start_lt_start hlayout hchunks hij hj

/-- An offset fits the two bytes it has in a row. -/
theorem toNat_start {position : Nat} (inside : position ≤ code.length) :
    (UInt16.ofNat (layout.start position)).toNat = layout.start position := by
  have below : layout.start position ≤ chunks.flatten.length := by
    rw [← start_length hlayout hchunks]
    exact (strictMonoOn_start hlayout hchunks).monotoneOn inside (Set.mem_Iic.mpr le_rfl) inside
  have short := below.trans (length_flatten_le hlayout hchunks)
  exact UInt16.toNat_ofNat_of_lt' (Nat.lt_succ_of_le short)

/-- The reader finds the instruction of every position, and the offsets it finds them at are the
starts of the layout. -/
theorem exists_offsets : ∃ read, readCode chunks.flatten = some read ∧ read.length = code.length ∧
    (∀ (position : Nat) (source : SourceInstruction), code.instructions[position]? = some source →
      ∃ offset seen, read[position]? = some (offset, seen) ∧ source.opcode.Becomes seen.opcode) ∧
    ∀ position offset, (read.map Prod.fst)[position]? = some offset ↔
      position < code.length ∧ offset = layout.start position := by
  obtain ⟨read, hread, count, found⟩ := exists_read hlayout hchunks
  refine ⟨read, hread, count, ?_, fun position offset => ?_⟩
  · intro position source hsource
    obtain ⟨seen, hseen, readsAs⟩ := found position (Array.getElem?_eq_some_iff.mp hsource).1
    exact ⟨layout.start position, seen, hseen, (readsAs.denotes hsource).1⟩
  · by_cases inside : position < code.length
    · obtain ⟨seen, hseen, -⟩ := found position inside
      simp [hseen, inside, eq_comm]
    · simp [inside, count]

/-- One row. -/
theorem exists_guards (hpool : pool.Invariant) (settled : pool.state ≠ .growing)
    {offsets : List Nat} (found : ∀ position offset, offsets[position]? = some offset ↔
      position < code.length ∧ offset = layout.start position)
    {handler : Handler} {row : ExceptionHandler}
    (h : code.handlerRow pool layout handler = .ok row) :
    ∃ start stop target,
      row.Guards code pool offsets chunks.flatten.length handler start stop target := by
  obtain ⟨start, stop, target, starts, stops, range, within, handles, caught, startPc, endPc,
    handlerPc⟩ := handlerRow_eq_ok h
  obtain ⟨handles, inside⟩ := branchTarget_eq_ok.mp handles
  have ascending := strictMonoOn_start hlayout hchunks
  have ends := start_length hlayout hchunks
  have last : code.length ∈ Set.Iic code.length := Set.mem_Iic.mpr le_rfl
  have hstart : start ∈ Set.Iic code.length := Set.mem_Iic.mpr (by omega)
  have hstop : stop ∈ Set.Iic code.length := Set.mem_Iic.mpr within
  have htarget : target ∈ Set.Iic code.length := Set.mem_Iic.mpr (by omega)
  -- From here on the three numbers of the row are starts, and comparing them is comparing
  -- positions.
  rw [← UInt16.toNat_inj, toNat_start hlayout hchunks hstart] at startPc
  rw [← UInt16.toNat_inj, toNat_start hlayout hchunks hstop] at endPc
  rw [← UInt16.toNat_inj, toNat_start hlayout hchunks htarget] at handlerPc
  refine ⟨start, stop, target, starts, stops, handles, ?_, ?_, ?_, ?_, ?_, ?_,
    catchType_eq_zero_iff hpool settled caught, ?_, ?_⟩
  · exact (found start _).mpr ⟨by omega, startPc⟩
  · split_ifs with final
    · rw [endPc, final, ends]
    · exact (found stop _).mpr ⟨by omega, endPc⟩
  · exact (found target _).mpr ⟨inside, handlerPc⟩
  · rw [startPc, endPc]
    exact ascending hstart hstop range
  · rw [endPc, ← ends]
    exact (ascending.le_iff_le hstop last).mpr within
  · rw [handlerPc, ← ends]
    exact ascending htarget last inside
  · intro entry hentry
    rw [hentry] at caught
    obtain ⟨index, hindex, same⟩ := caught
    rw [hindex, UInt16.toNat_inj.mp same]
  · intro position offset hoffset
    obtain ⟨below, rfl⟩ := (found position offset).mp hoffset
    have hposition : position ∈ Set.Iic code.length := Set.mem_Iic.mpr (by omega)
    rw [startPc, endPc, ascending.le_iff_le hstart hposition, ascending.lt_iff_lt hposition hstop]

end

/-- **The exception table says of byte offsets what the handlers said of positions.**  The code is
read as its instructions, in order and up to wide forms, and the table has a row for each handler,
in the order in which they were registered.  A row begins at the offset of the first instruction of
its range, ends at the offset of the first one behind it or at the end of the code, and leads to the
offset of the handling instruction, none of them truncated; it names the class that is caught, by
its index, or 0 if all exceptions are; and an instruction lies in its range of bytes if and only if
it lies in the handler's range of positions. -/
theorem exception_table_guards_handlers {code : Code} {pool : Pool} {payload : CodeAttribute}
    (reached : pool.Reachable) (settled : pool.state ≠ .growing)
    (h : code.assemble pool = .ok payload) :
    payload.code.bytes.length ≤ 65535 ∧
      ∃ read, readCode payload.code.bytes = some read ∧ read.length = code.length ∧
        (∀ (position : Nat) (source : SourceInstruction),
          code.instructions[position]? = some source →
          ∃ offset seen, read[position]? = some (offset, seen) ∧
            source.opcode.Becomes seen.opcode) ∧
        List.Forall₂ (fun handler row => ∃ start stop target, row.Guards code pool
            (read.map Prod.fst) payload.code.bytes.length handler start stop target)
          code.handlers.toList payload.exceptionTable := by
  obtain ⟨layout, chunks, table, attributes, hlayout, hchunks, htable, -, rfl⟩ :=
    assemble_eq_ok.mp h
  obtain ⟨read, hread, count, same, found⟩ := exists_offsets hlayout hchunks
  refine ⟨length_flatten_le hlayout hchunks, read, hread, count, same, ?_⟩
  refine (Check.forall₂_of_mapM (exceptionTable_eq_ok htable).1).imp ?_
  intro handler row hrow
  exact exists_guards hlayout hchunks reached.invariant settled found hrow

/-- A pool with one class. -/
def oneClass : List Pool.Edit := [.add (.classNamed Sample.exception), .stabilize]

theorem after_oneClass : Pool.empty.after oneClass =
    { slots := #[⟨.utf8 "E", [], 1, some 1⟩, ⟨.classNamed Sample.exception, [⟨0⟩], 1, some 2⟩]
      lookup := ((∅ : Std.HashMap Constant Entry).insert (.utf8 "E") ⟨0⟩).insert
        (.classNamed Sample.exception) ⟨1⟩
      layout := ⟨#[(1, ⟨0⟩), (2, ⟨1⟩)], 3⟩
      state := .stable
      nextSlot := 3 } := by cbv

/-- Padding stands between the switch and its cases.  The first handler catches the class and its
range ends behind the code, at a label; the second catches everything. -/
def guardedSwitch : Code :=
  { Code.empty 0 with
    instructions := #[⟨0, .none⟩, ⟨0xaa, .switch (.table 0 [.position 2] (.label ⟨0⟩))⟩,
      ⟨Opcode.ret, .none⟩]
    labels := #[some 2, some 3]
    handlers := #[⟨.position 1, .label ⟨1⟩, .label ⟨0⟩, some ⟨1⟩⟩,
      ⟨.position 0, .position 1, .position 2, none⟩] }

theorem guardedSwitch_table :
    let pool := Pool.empty.after oneClass
    let payload : CodeAttribute := ⟨16, 0, ⟨[0, 0xaa, 0, 0, 0, 0, 0, 19, 0, 0, 0, 0, 0, 0, 0, 0,
      0, 0, 0, 19, 0xb1]⟩, [⟨1, 21, 20, 2⟩, ⟨0, 1, 20, 0⟩], []⟩
    pool.Reachable ∧ pool.state ≠ .growing ∧ guardedSwitch.assemble pool = .ok payload ∧
      payload.code.bytes.length ≤ 65535 ∧
      ∃ read, readCode payload.code.bytes = some read ∧ read.length = guardedSwitch.length ∧
        (∀ (position : Nat) (source : SourceInstruction),
          guardedSwitch.instructions[position]? = some source →
          ∃ offset seen, read[position]? = some (offset, seen) ∧
            source.opcode.Becomes seen.opcode) ∧
        List.Forall₂ (fun handler row => ∃ start stop target, row.Guards guardedSwitch pool
            (read.map Prod.fst) payload.code.bytes.length handler start stop target)
          guardedSwitch.handlers.toList payload.exceptionTable := by
  intro pool payload
  have reached : pool.Reachable := ⟨oneClass, rfl⟩
  have settled : pool.state ≠ .growing := by
    rw [show pool = _ from after_oneClass]
    decide
  have assembled : guardedSwitch.assemble pool = .ok payload := by
    rw [show pool = _ from after_oneClass]
    decide +kernel
  exact ⟨reached, settled, assembled, exception_table_guards_handlers reached settled assembled⟩

end Code

end JvmAsm
