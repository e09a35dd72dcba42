/-! # Opcodes

Every instruction starts with a byte that says what it does and what follows it.
The table gives each opcode its mnemonic and the form of its operand; everything
else in the library goes by the form. Bytes without a meaning, and the few
instructions whose operands this library does not offer, have the form
`unsupported`. -/

namespace JvmAsm

/-- What follows an opcode. -/
inductive OperandForm where
  /-- Nothing. -/
  | plain
  /-- The index of a local variable, in one byte. -/
  | localIndex
  /-- A number in one byte. -/
  | signedByte
  /-- A number in two bytes. -/
  | signedShort
  /-- The code of a primitive type, in one byte. -/
  | arrayType
  /-- The index of a loadable constant, in one byte. -/
  | narrowConstant
  /-- The index of a loadable constant, in two bytes. -/
  | wideConstant
  /-- The index of a field reference. -/
  | fieldRef
  /-- The index of a method reference. -/
  | methodRef
  /-- The index of a class. -/
  | classRef
  /-- The index of an interface method, its number of argument slots, and a zero
  byte. -/
  | interfaceMethod
  /-- A displacement in two bytes. -/
  | branch
  /-- A displacement in four bytes. -/
  | wideBranch
  /-- The index of a local variable and an increment, in one byte each. -/
  | increment
  /-- Padding, the default displacement, the lowest and highest value, and a
  displacement for each value between them. -/
  | tableSwitch
  /-- Padding, the default displacement, the number of pairs, and pairs of a key
  and a displacement. -/
  | lookupSwitch
  /-- An operand that cannot be given. -/
  | unsupported
  deriving DecidableEq, Repr

namespace OperandForm

/-- The name of a form. -/
def word : OperandForm → String
  | plain => "None"
  | localIndex => "LocalIndex"
  | signedByte => "SignedByte"
  | signedShort => "SignedShort"
  | arrayType => "ArrayType"
  | narrowConstant => "NarrowConstant"
  | wideConstant => "Constant"
  | fieldRef => "FieldRef"
  | methodRef => "MethodRef"
  | classRef => "ClassRef"
  | interfaceMethod => "InterfaceMethod"
  | branch => "Branch"
  | wideBranch => "WideBranch"
  | increment => "IInc"
  | tableSwitch => "TableSwitch"
  | lookupSwitch => "LookupSwitch"
  | unsupported => "Unsupported"

/-- The number of bytes, where neither the place nor the operand changes it. -/
def fixedLength? : OperandForm → Option Nat
  | plain => some 0
  | localIndex | signedByte | arrayType | narrowConstant => some 1
  | signedShort | wideConstant | fieldRef | methodRef | classRef | branch | increment => some 2
  | interfaceMethod | wideBranch => some 4
  | tableSwitch | lookupSwitch | unsupported => none

end OperandForm

/-- The first byte of an instruction. -/
abbrev Opcode := UInt8

namespace Opcode

/-- Mnemonics and operand forms, by opcode. -/
def table : Array (String × OperandForm) :=
  #[
    ("nop", .plain), ("aconst_null", .plain), ("iconst_m1", .plain), ("iconst_0", .plain),
    ("iconst_1", .plain), ("iconst_2", .plain), ("iconst_3", .plain), ("iconst_4", .plain),
    ("iconst_5", .plain), ("lconst_0", .plain), ("lconst_1", .plain), ("fconst_0", .plain),
    ("fconst_1", .plain), ("fconst_2", .plain), ("dconst_0", .plain), ("dconst_1", .plain),
    ("bipush", .signedByte), ("sipush", .signedShort), ("ldc", .narrowConstant),
    ("ldc_w", .wideConstant), ("ldc2_w", .wideConstant), ("iload", .localIndex),
    ("lload", .localIndex), ("fload", .localIndex), ("dload", .localIndex),
    ("aload", .localIndex), ("iload_0", .plain), ("iload_1", .plain), ("iload_2", .plain),
    ("iload_3", .plain), ("lload_0", .plain), ("lload_1", .plain), ("lload_2", .plain),
    ("lload_3", .plain), ("fload_0", .plain), ("fload_1", .plain), ("fload_2", .plain),
    ("fload_3", .plain), ("dload_0", .plain), ("dload_1", .plain), ("dload_2", .plain),
    ("dload_3", .plain), ("aload_0", .plain), ("aload_1", .plain), ("aload_2", .plain),
    ("aload_3", .plain), ("iaload", .plain), ("laload", .plain), ("faload", .plain),
    ("daload", .plain), ("aaload", .plain), ("baload", .plain), ("caload", .plain),
    ("saload", .plain), ("istore", .localIndex), ("lstore", .localIndex), ("fstore", .localIndex),
    ("dstore", .localIndex), ("astore", .localIndex), ("istore_0", .plain), ("istore_1", .plain),
    ("istore_2", .plain), ("istore_3", .plain), ("lstore_0", .plain), ("lstore_1", .plain),
    ("lstore_2", .plain), ("lstore_3", .plain), ("fstore_0", .plain), ("fstore_1", .plain),
    ("fstore_2", .plain), ("fstore_3", .plain), ("dstore_0", .plain), ("dstore_1", .plain),
    ("dstore_2", .plain), ("dstore_3", .plain), ("astore_0", .plain), ("astore_1", .plain),
    ("astore_2", .plain), ("astore_3", .plain), ("iastore", .plain), ("lastore", .plain),
    ("fastore", .plain), ("dastore", .plain), ("aastore", .plain), ("bastore", .plain),
    ("castore", .plain), ("sastore", .plain), ("pop", .plain), ("pop2", .plain), ("dup", .plain),
    ("dup_x1", .plain), ("dup_x2", .plain), ("dup2", .plain), ("dup2_x1", .plain),
    ("dup2_x2", .plain), ("swap", .plain), ("iadd", .plain), ("ladd", .plain), ("fadd", .plain),
    ("dadd", .plain), ("isub", .plain), ("lsub", .plain), ("fsub", .plain), ("dsub", .plain),
    ("imul", .plain), ("lmul", .plain), ("fmul", .plain), ("dmul", .plain), ("idiv", .plain),
    ("ldiv", .plain), ("fdiv", .plain), ("ddiv", .plain), ("irem", .plain), ("lrem", .plain),
    ("frem", .plain), ("drem", .plain), ("ineg", .plain), ("lneg", .plain), ("fneg", .plain),
    ("dneg", .plain), ("ishl", .plain), ("lshl", .plain), ("ishr", .plain), ("lshr", .plain),
    ("iushr", .plain), ("lushr", .plain), ("iand", .plain), ("land", .plain), ("ior", .plain),
    ("lor", .plain), ("ixor", .plain), ("lxor", .plain), ("iinc", .increment), ("i2l", .plain),
    ("i2f", .plain), ("i2d", .plain), ("l2i", .plain), ("l2f", .plain), ("l2d", .plain),
    ("f2i", .plain), ("f2l", .plain), ("f2d", .plain), ("d2i", .plain), ("d2l", .plain),
    ("d2f", .plain), ("i2b", .plain), ("i2c", .plain), ("i2s", .plain), ("lcmp", .plain),
    ("fcmpl", .plain), ("fcmpg", .plain), ("dcmpl", .plain), ("dcmpg", .plain), ("ifeq", .branch),
    ("ifne", .branch), ("iflt", .branch), ("ifge", .branch), ("ifgt", .branch), ("ifle", .branch),
    ("if_icmpeq", .branch), ("if_icmpne", .branch), ("if_icmplt", .branch),
    ("if_icmpge", .branch), ("if_icmpgt", .branch), ("if_icmple", .branch),
    ("if_acmpeq", .branch), ("if_acmpne", .branch), ("goto", .branch), ("jsr", .branch),
    ("ret", .localIndex), ("tableswitch", .tableSwitch), ("lookupswitch", .lookupSwitch),
    ("ireturn", .plain), ("lreturn", .plain), ("freturn", .plain), ("dreturn", .plain),
    ("areturn", .plain), ("return", .plain), ("getstatic", .fieldRef), ("putstatic", .fieldRef),
    ("getfield", .fieldRef), ("putfield", .fieldRef), ("invokevirtual", .methodRef),
    ("invokespecial", .methodRef), ("invokestatic", .methodRef),
    ("invokeinterface", .interfaceMethod), ("invokedynamic", .unsupported), ("new", .classRef),
    ("newarray", .arrayType), ("anewarray", .classRef), ("arraylength", .plain),
    ("athrow", .plain), ("checkcast", .classRef), ("instanceof", .classRef),
    ("monitorenter", .plain), ("monitorexit", .plain), ("wide", .unsupported),
    ("multianewarray", .unsupported), ("ifnull", .branch), ("ifnonnull", .branch),
    ("goto_w", .wideBranch), ("jsr_w", .wideBranch)]

/-- The mnemonic and operand form of an opcode. -/
def info (opcode : Opcode) : String × OperandForm :=
  table.getD opcode.toNat ("<reserved>", .unsupported)

/-- The name of an opcode. -/
def mnemonic (opcode : Opcode) : String := opcode.info.1

/-- The form of an opcode's operand. -/
def form (opcode : Opcode) : OperandForm := opcode.info.2

def iconst0 : Opcode := 0x03
def lconst0 : Opcode := 0x09
def lconst1 : Opcode := 0x0a
def fconst0 : Opcode := 0x0b
def fconst1 : Opcode := 0x0c
def fconst2 : Opcode := 0x0d
def dconst0 : Opcode := 0x0e
def dconst1 : Opcode := 0x0f
def bipush : Opcode := 0x10
def sipush : Opcode := 0x11
def ldc : Opcode := 0x12
def ldcW : Opcode := 0x13
def ldc2W : Opcode := 0x14
def dup : Opcode := 0x59
def iadd : Opcode := 0x60
def ifIcmplt : Opcode := 0xa1
def goto : Opcode := 0xa7
def jsr : Opcode := 0xa8
def ret : Opcode := 0xb1
def getstatic : Opcode := 0xb2
def putstatic : Opcode := 0xb3
def invokevirtual : Opcode := 0xb6
def gotoW : Opcode := 0xc8
def jsrW : Opcode := 0xc9

/-- The opcode with a wide displacement that does the same. -/
def widened? (opcode : Opcode) : Option Opcode :=
  if opcode = goto then some gotoW
  else if opcode = jsr then some jsrW
  else none

end Opcode

end JvmAsm
