import JvmAsm.Class.Basic

/-! # The counting class

A class with one static number and a `main` that prints it, adds one, and goes on
until the number has reached a limit. The number starts at zero and is printed
before it is compared, so at least one number is printed. -/

namespace JvmAsm.Counter

/-- The name of the number. -/
def count : UnqualifiedName := ⟨"count", by decide⟩

/-- The descriptor of `main`. -/
def mainDescriptor : MethodDescriptor := ⟨[.array (.object .string)], none⟩

/-- The descriptor of the method that prints a number. -/
def printlnDescriptor : MethodDescriptor := ⟨[.int], none⟩

/-- An instruction of `main` that refers to a constant. -/
def refer (opcode : Opcode) (entry : Entry) : Method.Action Nat :=
  Method.onCode (Code.append ⟨opcode, .constant entry⟩)

/-- An instruction of `main` without operand. -/
def plain (opcode : Opcode) : Method.Action Nat :=
  Method.onCode (Code.append (Instruction.plain opcode))

/-- Writes the instructions of `main`. -/
def writeMain (name : BinaryName) (limit : Int32) : Method.Action Unit := do
  let intern (constant : Constant) : Method.Action Entry :=
    MemberAction.onPool (Pool.add constant)
  let countRef ← intern (.fieldRef ⟨.object name, .field count .int⟩)
  let outRef ← intern (.fieldRef ⟨.object .system, .field .out (.object .printStream)⟩)
  let printlnRef ← intern
    (.methodRef ⟨.object .printStream, .method .println printlnDescriptor⟩)
  let _ ← Method.push (.integer 0) none
  let _ ← refer Opcode.putstatic countRef
  let top ← refer Opcode.getstatic outRef
  let _ ← refer Opcode.getstatic countRef
  let _ ← refer Opcode.invokevirtual printlnRef
  let _ ← refer Opcode.getstatic countRef
  let _ ← Method.push (.integer 1) none
  let _ ← plain Opcode.iadd
  let _ ← plain Opcode.dup
  let _ ← refer Opcode.putstatic countRef
  let _ ← Method.push (.integer limit) none
  let _ ← Method.onCode (Code.append ⟨Opcode.ifIcmplt, .branch (.position top)⟩)
  let _ ← plain Opcode.ret

/-- Adds the number and `main`. -/
def fill (name : BinaryName) (limit : Int32) : Class.Action Unit := do
  let _ ← Class.addField count .int ⟨Flag.pub ||| Flag.static⟩
  let main ← Class.addMethod .main mainDescriptor ⟨Flag.pub ||| Flag.static⟩
  let _ ← Class.onMethod main (writeMain name limit)

/-- The class that counts up to a limit. -/
def counterClass (name : BinaryName) (limit : Int32) : Except Error Class := do
  let cls ← Class.declare name .object ⟨Flag.pub ||| Flag.super ||| Flag.final⟩
  match fill name limit cls with
  | .ok _ cls => .ok cls
  | .error e _ => .error e

end JvmAsm.Counter
