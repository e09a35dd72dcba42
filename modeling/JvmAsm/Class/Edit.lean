import JvmAsm.Class.Basic
import JvmAsm.Pool.Edit

/-! # Histories of a class

The ways a class can be changed, as values: changes of the class itself, of its
pool, of one of its members, and writing it, which finalizes it. A history is a
list of edits, and edits that fail are part of it. -/

namespace JvmAsm.Class

/-- One change of a class. -/
inductive Edit where
  | setVersion (version : Version)
  | setSourceFile (file : String)
  | addInterface (name : BinaryName)
  | addField (name : UnqualifiedName) (type : FieldType) (flags : AccessFlags .field)
  | addMethod (name : UnqualifiedName) (descriptor : MethodDescriptor)
      (flags : AccessFlags .method)
  | addAttribute (name : String) (value : AttributeValue)
  | pool (edit : Pool.Edit)
  | field (index : Nat) (edit : Field.Edit)
  | method (index : Nat) (edit : Method.Edit)
  /-- Writing to a destination with room for so many bytes, if there is a limit. -/
  | serialize (room : Option Nat)
  deriving DecidableEq

namespace Edit

/-- Performs an edit. -/
def perform : Edit → Action Reply
  | setVersion version => fun cls => .ok .done { cls with version }
  | setSourceFile file => fun cls => .ok .done { cls with sourceFile := some file }
  | addInterface name => do Class.addInterface name; return .done
  | addField name type flags => do return .member (← Class.addField name type flags)
  | addMethod name descriptor flags => do return .member (← Class.addMethod name descriptor flags)
  | addAttribute name value => do Class.addAttribute name value; return .done
  | pool edit => onPool edit.perform
  | field index edit => do return (← onField index edit.perform).getD .absent
  | method index edit => do return (← onMethod index edit.perform).getD .absent
  | serialize room => fun cls =>
    match Class.serialize (cls, { room }) with
    | .ok _ (cls, _) => .ok .done cls
    | .error e (cls, _) => .error e cls

end Edit

/-- The class after a history, whatever failed on the way. -/
def after (cls : Class) (history : List Edit) : Class :=
  history.foldl (fun cls edit => edit.perform.after cls) cls

end JvmAsm.Class
