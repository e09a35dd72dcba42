import JvmAsm.Attribute.Code
import JvmAsm.Code.Layout
import JvmAsm.Descriptor.Reader

/-! # Assembly

Assembly turns code into the payload of the code attribute. Linked instructions
are laid out, each is encoded where it stands, and the ranges of exception
handlers become byte offsets. What an operand does not fit into is found out when
its instruction is encoded, so those failures come after all failures of linking
and after the check of the total length. -/

namespace JvmAsm

namespace Layout

/-- The argument slots that a call of an interface method announces, the receiver
included. -/
def argumentSlots (descriptor : String) : Except Error Nat :=
  match MethodDescriptor.parse descriptor with
  | .ok parsed => .ok (parsed.slots true)
  | .error cause => .error (.invalidDescriptor cause)

/-- A number in one unsigned byte. -/
def unsignedByte (overflow : Error) (value : Int) : Except Error Bytes :=
  if 0 ≤ value ∧ value ≤ 255 then .ok (Bytes.ofInt 1 value) else .error overflow

/-- A number in one signed byte. -/
def signedByte (overflow : Error) (value : Int) : Except Error Bytes :=
  if -128 ≤ value ∧ value ≤ 127 then .ok (Bytes.ofInt 1 value) else .error overflow

/-- A number in two signed bytes. -/
def signedShort (overflow : Error) (value : Int) : Except Error Bytes :=
  if fitsShort value then .ok (Bytes.ofInt 2 value) else .error overflow

/-- A displacement in four bytes. -/
def wideOffset (layout : Layout) (position target : Nat) : Bytes :=
  Bytes.ofInt 4 (displacement layout.starts position target)

/-- The bytes of a switch behind its opcode. -/
def encodeCases (layout : Layout) (position : Nat) (cases : SwitchTable Nat) : Bytes :=
  List.replicate (switchPadding (layout.start position)) 0 ++
    wideOffset layout position cases.fallbackTarget ++
    match cases with
    | .table low targets _ =>
      encode low ++ Bytes.ofInt 4 (low.toInt + targets.length - 1) ++
        targets.flatMap (wideOffset layout position)
    | .lookup pairs _ =>
      Bytes.ofNat 4 pairs.length ++
        pairs.flatMap fun (key, target) => encode key ++ wideOffset layout position target

/-- The bytes of an operand. -/
def encodeOperand (layout : Layout) (position : Nat) (instruction : LinkedInstruction) :
    Except Error Bytes :=
  match instruction.opcode.form, instruction.operand with
  | .plain, .none => .ok []
  | .localIndex, .int value | .arrayType, .int value =>
    unsignedByte (.operandOverflow position value.toInt) value.toInt
  | .signedByte, .int value => signedByte (.operandOverflow position value.toInt) value.toInt
  | .signedShort, .int value => signedShort (.operandOverflow position value.toInt) value.toInt
  | .narrowConstant, .constant reference =>
    unsignedByte (.operandOverflow position reference.index.toNat) reference.index.toNat
  | .wideConstant, .constant reference | .fieldRef, .constant reference
  | .methodRef, .constant reference | .classRef, .constant reference =>
    .ok (encode reference.index)
  | .interfaceMethod, .constant reference =>
    match reference.constant with
    | .interfaceMethodRef member => do
      let slots ← argumentSlots member.nameAndType.descriptor
      let slots ← unsignedByte (.operandOverflow position slots) slots
      return encode reference.index ++ slots ++ [0]
    | _ => .error (.invalidOperand position instruction.opcode.mnemonic)
  | .branch, .branch target =>
    let displacement := displacement layout.starts position target
    signedShort (.branchOverflow position displacement) displacement
  | .wideBranch, .branch target => .ok (wideOffset layout position target)
  | .increment, .increment index delta => do
    let index ← unsignedByte (.incrementOverflow position) index.toNat
    let delta ← signedByte (.incrementOverflow position) delta.toInt
    return index ++ delta
  | .tableSwitch, .switch cases | .lookupSwitch, .switch cases =>
    .ok (encodeCases layout position cases)
  | _, _ => .error (.invalidOperand position instruction.opcode.mnemonic)

/-- The bytes of an instruction. -/
def encodeAt (layout : Layout) (position : Nat) (instruction : LinkedInstruction) :
    Except Error Bytes := do
  let operand ← layout.encodeOperand position instruction
  return instruction.opcode :: operand

/-- The bytes of each instruction. -/
def encodeAll (layout : Layout) : Except Error (List Bytes) :=
  layout.instructions.zipIdx.mapM fun (instruction, position) =>
    layout.encodeAt position instruction

end Layout

namespace Code

/-- A row of the exception table. -/
def handlerRow (code : Code) (pool : Pool) (layout : Layout) (handler : Handler) :
    Except Error ExceptionHandler := do
  let start ← code.resolve handler.start
  let stop ← code.resolve handler.stop
  if start < stop ∧ stop ≤ code.length then
    let target ← code.branchTarget start handler.handler
    let catchType ← match handler.catchType with
      | some entry => pool.index entry
      | none => .ok 0
    return {
      startPc := UInt16.ofNat (layout.start start)
      endPc := UInt16.ofNat (layout.start stop)
      handlerPc := UInt16.ofNat (layout.start target)
      catchType }
  else
    .error (.invalidExceptionRange start stop)

/-- The exception table, in the order in which handlers were added. -/
def exceptionTable (code : Code) (pool : Pool) (layout : Layout) :
    Except Error (List ExceptionHandler) := do
  let table ← code.handlers.toList.mapM (code.handlerRow pool layout)
  if maxCount < table.length then
    .error (.tooMany .exceptionHandlers)
  else
    return table

/-- The layout of the code, provided its length fits the format. -/
def layout (code : Code) (pool : Pool) : Except Error Layout := do
  let linked ← code.link pool
  let layout := Layout.ofLinked linked
  if maxCount < layout.length then
    .error (.codeOverflow layout.length)
  else
    return layout

/-- Assembles the code against a pool whose indices are fixed. -/
def assemble (code : Code) (pool : Pool) : Except Error CodeAttribute := do
  let layout ← code.layout pool
  let chunks ← layout.encodeAll
  let exceptionTable ← code.exceptionTable pool layout
  let attributes ← code.attributes.resolve pool
  return {
    maxStack := code.maxStack
    maxLocals := code.maxLocals
    code := ⟨chunks.flatten⟩
    exceptionTable
    attributes }

end Code

end JvmAsm
