import JvmAsm.Attribute.Basic

/-! # The payload of a method's code

What the attribute of a method's code holds: limits on the operand stack and the
local variables, the encoded instructions, the table of exception handlers, and
attributes of its own. Positions are byte offsets here. -/

namespace JvmAsm

/-- A row of the exception table. -/
structure ExceptionHandler where
  /-- The first offset covered. -/
  startPc : UInt16
  /-- The first offset no longer covered. -/
  endPc : UInt16
  handlerPc : UInt16
  /-- The index of the class caught, or 0 to catch everything. -/
  catchType : UInt16
  deriving DecidableEq, Repr

instance : Serialize ExceptionHandler where
  serialize handler := do
    serialize handler.startPc
    serialize handler.endPc
    serialize handler.handlerPc
    serialize handler.catchType

/-- Encoded instructions. -/
structure Bytecode where
  bytes : Bytes
  deriving DecidableEq, Repr

instance : Serialize Bytecode where
  serialize code := do
    serialize (UInt32.ofNat code.bytes.length)
    Writer.put code.bytes

/-- The payload of the code attribute. -/
structure CodeAttribute where
  maxStack : UInt16
  maxLocals : UInt16
  code : Bytecode
  exceptionTable : List ExceptionHandler
  attributes : List Attribute
  deriving DecidableEq, Repr

instance : Serialize CodeAttribute where
  serialize payload := do
    serialize payload.maxStack
    serialize payload.maxLocals
    serialize payload.code
    serialize payload.exceptionTable
    serialize payload.attributes

/-- The payload of the attribute of declared exceptions: their class indices. -/
structure Exceptions where
  indices : List UInt16
  deriving DecidableEq, Repr

instance : Serialize Exceptions where
  serialize exceptions := serialize exceptions.indices

end JvmAsm
