import JvmAsm.Code.Basic
import JvmAsm.Pool.Basic

/-! # Linking

Linking is the first step of assembly. It checks every instruction and replaces
what it points at: targets become positions, entries become indices together with
their constants. Labels and the pool are not needed after it. A load whose index
does not fit one byte takes its wide form here, since indices are known. -/

namespace JvmAsm

/-- A constant with its index. -/
structure PoolRef where
  index : UInt16
  constant : Constant
  deriving DecidableEq

/-- An instruction whose targets are positions and whose constants have indices. -/
abbrev LinkedInstruction := Instruction Nat PoolRef

namespace Opcode

/-- The constant is of a kind the opcode can refer to. -/
def suits (opcode : Opcode) (constant : Constant) : Bool :=
  match opcode.form, constant with
  | .narrowConstant, constant => constant.isNarrowLoadable
  | .wideConstant, constant =>
    if opcode = ldc2W then constant.isWideLoadable else constant.isNarrowLoadable
  | .fieldRef, .fieldRef _ => true
  | .classRef, .refType _ => true
  | .interfaceMethod, .interfaceMethodRef _ => true
  | .methodRef, .methodRef _ => true
  | .methodRef, .interfaceMethodRef _ => opcode != invokevirtual
  | _, _ => false

end Opcode

/-- Each key is smaller than the next. -/
def ascending : List Int32 → Bool
  | first :: second :: rest => first < second && ascending (second :: rest)
  | _ => true

namespace Code

/-- The cases of a switch are in order, and every value has a number. -/
def checkCases {τ : Type} (position : Nat) : SwitchTable τ → Except Error Unit
  | .table low targets _ =>
    let high := low.toInt + targets.length - 1
    if targets.isEmpty then
      .error (.emptyTable position)
    else if high < 0x80000000 then
      .ok ()
    else
      .error (.operandOverflow position high)
  | .lookup pairs _ =>
    if ascending (pairs.map Prod.fst) then .ok () else .error (.unsortedLookup position)

/-- The constant of an entry with its index, provided it suits the opcode. -/
def linkConstant (pool : Pool) (position : Nat) (opcode : Opcode) (entry : Entry) :
    Except Error PoolRef :=
  match pool.constant? entry with
  | none => .error (.missingEntry entry)
  | some constant => do
    let index ← pool.index entry
    if opcode.suits constant then
      return ⟨index, constant⟩
    else
      .error (.invalidOperand position opcode.mnemonic)

/-- The opcode a load starts out with: one byte holds indices up to 255. -/
def loadOpcode (opcode : Opcode) (index : UInt16) : Opcode :=
  if opcode = Opcode.ldc ∧ 255 < index then Opcode.ldcW else opcode

/-- Checks the instruction at a position and replaces what it points at. -/
def linkAt (code : Code) (pool : Pool) (position : Nat) (instruction : SourceInstruction) :
    Except Error LinkedInstruction :=
  let opcode := instruction.opcode
  if opcode.form = .unsupported then
    .error (.unsupportedOpcode position opcode)
  else if !instruction.operandMatches then
    .error (.invalidOperand position opcode.mnemonic)
  else match instruction.operand with
    | .none => .ok ⟨opcode, .none⟩
    | .int value => .ok ⟨opcode, .int value⟩
    | .increment index delta => .ok ⟨opcode, .increment index delta⟩
    | .branch target => do
      let target ← code.branchTarget position target
      return ⟨opcode, .branch target⟩
    | .switch cases => do
      let cases ← cases.mapM (code.branchTarget position)
      checkCases position cases
      return ⟨opcode, .switch cases⟩
    | .constant entry => do
      let reference ← linkConstant pool position opcode entry
      return ⟨loadOpcode opcode reference.index, .constant reference⟩

/-- Links all instructions. -/
def link (code : Code) (pool : Pool) : Except Error (List LinkedInstruction) :=
  code.instructions.toList.zipIdx.mapM fun (instruction, position) =>
    code.linkAt pool position instruction

end Code

end JvmAsm
