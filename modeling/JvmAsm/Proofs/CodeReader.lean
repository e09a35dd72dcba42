import JvmAsm.Opcode
import JvmAsm.Proofs.Reading

/-! # Reading code

A reader of encoded instructions, made from the description of the instruction
set alone: which opcodes there are and what follows each of them
(`operandShape?`), and nothing else.  It knows neither the table of opcodes the
assembler goes by nor how lengths were computed, so that what it reads is evidence.

Code is read **linearly**: the first instruction starts at 0, and every other one
where the one before it ended.  Where an instruction starts matters twice.
The operand of a switch is brought to a multiple of four from the start of the code,
and displacements count from the start of their instruction; so `readCode` answers
every instruction together with its start. -/

namespace JvmAsm

/-- What follows an opcode. -/
inductive OperandShape where
  | nothing
  | unsignedByte
  | signedByte
  | signedShort
  /-- The index of a constant, in one byte. -/
  | narrowIndex
  /-- The index of a constant, in two bytes. -/
  | index
  /-- The index of an interface method, a count of argument slots, and one more byte. -/
  | interfaceMethod
  | branch
  | wideBranch
  | increment
  | tableSwitch
  | lookupSwitch
  deriving DecidableEq, Repr

/-- What follows each opcode.  Three instructions with operands of their own kind
(`invokedynamic`, `wide`, `multianewarray`) are not read, and neither are the bytes
without a meaning. -/
def operandShape? (opcode : Nat) : Option OperandShape :=
  if opcode ≤ 0x0f then some .nothing           -- nop to dconst_1
  else if opcode = 0x10 then some .signedByte   -- bipush
  else if opcode = 0x11 then some .signedShort  -- sipush
  else if opcode = 0x12 then some .narrowIndex  -- ldc
  else if opcode ≤ 0x14 then some .index        -- ldc_w, ldc2_w
  else if opcode ≤ 0x19 then some .unsignedByte -- iload to aload
  else if opcode ≤ 0x35 then some .nothing      -- iload_0 to saload
  else if opcode ≤ 0x3a then some .unsignedByte -- istore to astore
  else if opcode ≤ 0x83 then some .nothing      -- istore_0 to lxor
  else if opcode = 0x84 then some .increment    -- iinc
  else if opcode ≤ 0x98 then some .nothing      -- i2l to dcmpg
  else if opcode ≤ 0xa8 then some .branch       -- ifeq to jsr
  else if opcode = 0xa9 then some .unsignedByte -- ret
  else if opcode = 0xaa then some .tableSwitch
  else if opcode = 0xab then some .lookupSwitch
  else if opcode ≤ 0xb1 then some .nothing      -- ireturn to return
  else if opcode ≤ 0xb8 then some .index        -- getstatic to invokestatic
  else if opcode = 0xb9 then some .interfaceMethod
  else if opcode = 0xba then none               -- invokedynamic
  else if opcode = 0xbb then some .index        -- new
  else if opcode = 0xbc then some .unsignedByte -- newarray
  else if opcode = 0xbd then some .index        -- anewarray
  else if opcode ≤ 0xbf then some .nothing      -- arraylength, athrow
  else if opcode ≤ 0xc1 then some .index        -- checkcast, instanceof
  else if opcode ≤ 0xc3 then some .nothing      -- monitorenter, monitorexit
  else if opcode ≤ 0xc5 then none               -- wide, multianewarray
  else if opcode ≤ 0xc7 then some .branch       -- ifnull, ifnonnull
  else if opcode ≤ 0xc9 then some .wideBranch   -- goto_w, jsr_w
  else none

/-- An operand as it is read: indices and displacements are plain numbers. -/
inductive ReadOperand where
  | none
  | number (value : Int)
  | constant (index : Nat)
  | interfaceMethod (index count last : Nat)
  | branch (displacement : Int)
  | increment (index : Nat) (delta : Int)
  | tableSwitch (fallback low high : Int) (displacements : List Int)
  | lookupSwitch (fallback : Int) (pairs : List (Int × Int))
  deriving DecidableEq, Repr

/-- An instruction as it is read. -/
structure ReadInstruction where
  opcode : UInt8
  operand : ReadOperand
  deriving DecidableEq, Repr

namespace Reader

/-- The zero bytes between the opcode of a switch at `offset` and the next multiple of
four. -/
def padding (offset : Nat) : Reader Unit := do
  let bytes ← take (3 - offset % 4)
  require (bytes.all (· == 0))

/-- The operand of an instruction that starts at `offset`. -/
def operand (offset : Nat) : OperandShape → Reader ReadOperand
  | .nothing => pure .none
  | .unsignedByte => do return .number (← unsigned 1)
  | .signedByte => do return .number (← signed 1)
  | .signedShort => do return .number (← signed 2)
  | .narrowIndex => do return .constant (← unsigned 1)
  | .index => do return .constant (← unsigned 2)
  | .interfaceMethod => do
    let index ← unsigned 2
    let count ← unsigned 1
    let last ← unsigned 1
    return .interfaceMethod index count last
  | .branch => do return .branch (← signed 2)
  | .wideBranch => do return .branch (← signed 4)
  | .increment => do
    let index ← unsigned 1
    let delta ← signed 1
    return .increment index delta
  | .tableSwitch => do
    padding offset
    let fallback ← signed 4
    let low ← signed 4
    let high ← signed 4
    require (low ≤ high)
    let displacements ← times (high - low + 1).toNat (signed 4)
    return .tableSwitch fallback low high displacements
  | .lookupSwitch => do
    padding offset
    let fallback ← signed 4
    let count ← signed 4
    require (0 ≤ count)
    let pairs ← times count.toNat do
      let key ← signed 4
      let displacement ← signed 4
      return (key, displacement)
    return .lookupSwitch fallback pairs

/-- The instruction that starts at `offset`. -/
def instruction (offset : Nat) : Reader ReadInstruction := do
  let opcode ← byte
  match operandShape? opcode.toNat with
  | none => failure
  | some shape =>
    let operand ← operand offset shape
    return ⟨opcode, operand⟩

end Reader

/-- All instructions of code whose remaining bytes start at `offset`, each with its
start. -/
def readFrom (offset : Nat) (bytes : Bytes) : Option (List (Nat × ReadInstruction)) :=
  match bytes with
  | [] => some []
  | byte :: tail =>
    match (Reader.instruction offset).run (byte :: tail) with
    | none => none
    | some (instruction, rest) =>
      if rest.length ≤ tail.length then
        (readFrom (offset + (tail.length + 1 - rest.length)) rest).map ((offset, instruction) :: ·)
      else
        none
termination_by bytes.length

/-- All instructions of code, each with its start. -/
def readCode (code : Bytes) : Option (List (Nat × ReadInstruction)) := readFrom 0 code

/-! ## Reading chunk by chunk -/

/-- One instruction is read, then what follows it. -/
theorem readFrom_append {offset : Nat} {chunk rest : Bytes} {seen : ReadInstruction}
    (h : (Reader.instruction offset).Reads chunk seen) (hne : chunk ≠ []) :
    readFrom offset (chunk ++ rest) =
      (readFrom (offset + chunk.length) rest).map ((offset, seen) :: ·) := by
  cases chunk with
  | nil => exact absurd rfl hne
  | cons byte tail =>
    have read : (Reader.instruction offset).run (byte :: (tail ++ rest)) = some (seen, rest) :=
      h rest
    rw [List.cons_append, readFrom, read]
    dsimp only
    rw [if_pos (by rw [List.length_append]; omega)]
    congr 2
    rw [List.length_append, List.length_cons]
    omega

/-- **Chunks that are read one by one are read in sequence**, provided each starts
where the one before it ends. -/
theorem readFrom_flatten (start : Nat → Nat) (P : Nat → ReadInstruction → Prop) (first : Nat)
    {chunks : List Bytes}
    (h : ∀ i chunk, chunks[i]? = some chunk → ∃ seen,
      (Reader.instruction (start (first + i))).Reads chunk seen ∧ P (first + i) seen ∧
        chunk ≠ [] ∧ start (first + i + 1) = start (first + i) + chunk.length) :
    ∃ read, readFrom (start first) chunks.flatten = some read ∧ read.length = chunks.length ∧
      ∀ i, i < chunks.length → ∃ seen, read[i]? = some (start (first + i), seen) ∧
        P (first + i) seen := by
  induction chunks generalizing first with
  | nil =>
    refine ⟨[], ?_, rfl, fun i hi => absurd hi (Nat.not_lt_zero i)⟩
    rw [List.flatten_nil, readFrom]
  | cons chunk chunks ih =>
    obtain ⟨seen, hreads, hseen, hne, hnext⟩ := h 0 chunk rfl
    have later : ∀ i chunk, chunks[i]? = some chunk → ∃ seen,
        (Reader.instruction (start (first + 1 + i))).Reads chunk seen ∧ P (first + 1 + i) seen ∧
          chunk ≠ [] ∧ start (first + 1 + i + 1) = start (first + 1 + i) + chunk.length := by
      intro i chunk hchunk
      have := h (i + 1) chunk hchunk
      rwa [show first + (i + 1) = first + 1 + i from by omega] at this
    obtain ⟨read, hread, hlength, hall⟩ := ih (first + 1) later
    refine ⟨(start first, seen) :: read, ?_, by simp [hlength], ?_⟩
    · have hnext : start (first + 1) = start first + chunk.length := hnext
      have hreads : (Reader.instruction (start first)).Reads chunk seen := hreads
      rw [List.flatten_cons, readFrom_append hreads hne, ← hnext, hread]
      rfl
    · intro i hi
      cases i with
      | zero => exact ⟨seen, rfl, hseen⟩
      | succ i =>
        obtain ⟨seen', hseen', hP⟩ := hall i (by simpa using hi)
        rw [show first + 1 + i = first + (i + 1) from by omega] at hseen' hP
        exact ⟨seen', hseen', hP⟩

end JvmAsm
