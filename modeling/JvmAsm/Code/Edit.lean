import JvmAsm.Code.Basic
import JvmAsm.Reply

/-! # Histories of code -/

namespace JvmAsm.Code

/-- One change of code that needs no pool. -/
inductive Edit where
  | append (instruction : SourceInstruction)
  | set (position : Nat) (instruction : SourceInstruction)
  | freshLabel
  | placeLabel (label : Label)
  | addHandler (handler : Handler)
  | setMaxStack (depth : UInt16)
  | setMaxLocals (count : UInt16)
  deriving DecidableEq

namespace Edit

/-- Performs an edit. -/
def perform : Edit → Action Reply
  | append instruction => do return .position (← Code.append instruction)
  | set position instruction => do Code.set position instruction; return .done
  | freshLabel => do return .label (← Code.freshLabel)
  | placeLabel label => do Code.placeLabel label; return .done
  | addHandler handler => do Code.addHandler handler; return .done
  | setMaxStack depth => fun code => .ok .done { code with maxStack := depth }
  | setMaxLocals count => fun code => .ok .done { code with maxLocals := count }

end Edit

/-- The code after a history, whatever failed on the way. -/
def after (code : Code) (history : List Edit) : Code :=
  history.foldl (fun code edit => edit.perform.after code) code

end JvmAsm.Code
