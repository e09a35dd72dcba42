import JvmAsm.Constant
import JvmAsm.Error

/-! # Replies -/

namespace JvmAsm

/-- What a successful edit answers. -/
inductive Reply where
  /-- Nothing worth knowing. -/
  | done
  /-- The entry of a constant. -/
  | entry (entry : Entry)
  /-- The position of an instruction. -/
  | position (position : Nat)
  | label (label : Label)
  /-- The index of a field or method. -/
  | member (index : Nat)
  /-- The field or method to be edited does not exist. -/
  | absent
  deriving DecidableEq, Repr

end JvmAsm
