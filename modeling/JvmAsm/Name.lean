/-! # Names of classes and members

Two kinds of names occur in a class file. A method or field has an *unqualified*
name; a class or interface has a *binary* name, whose segments are separated by
slashes. Both types carry the proof that their text is valid, so whatever holds a
name can rely on its shape: a binary name has no empty segment, and none of its
characters can end a descriptor or leave a directory.

Segments are computed on characters by `segments`, the only place where a name or a
path is cut. -/

namespace JvmAsm

/-- Why a text is not a name. -/
inductive NameError where
  | illegalCharacter (text : String)
  | emptyUnqualified
  | angleBrackets (text : String)
  | emptyBinary
  | invalidSegment (text : String)
  deriving DecidableEq, Repr

namespace NameError

/-- The wording of the reason. -/
def message : NameError → String
  | illegalCharacter text => "Unqualified name '" ++ text ++ "' contains an illegal character"
  | emptyUnqualified => "Unqualified name is empty"
  | angleBrackets text =>
    "Unqualified name '" ++ text ++ "' uses angle brackets but is not an initializer"
  | emptyBinary => "Binary name is empty"
  | invalidSegment text => "Binary name '" ++ text ++ "' has an invalid segment"

end NameError

/-! ## Unqualified names -/

namespace UnqualifiedName

/-- Characters with a meaning in descriptors and binary names. -/
def hasReserved (text : String) : Bool :=
  text.toList.any fun c => c == '.' || c == ';' || c == '[' || c == '/'

/-- Angle brackets are kept for the two initializers. -/
def hasBrackets (text : String) : Bool :=
  text.toList.any fun c => c == '<' || c == '>'

/-- The two names that may hold angle brackets. -/
def isInitializer (text : String) : Bool :=
  text == "<init>" || text == "<clinit>"

/-- What makes a text the name of a method or field. -/
def Valid (text : String) : Prop :=
  hasReserved text = false ∧ text ≠ "" ∧ (hasBrackets text = true → isInitializer text = true)

instance (text : String) : Decidable (Valid text) :=
  inferInstanceAs (Decidable (_ ∧ _ ∧ _))

end UnqualifiedName

/-- The name of a method or field. -/
structure UnqualifiedName where
  text : String
  valid : UnqualifiedName.Valid text
  deriving DecidableEq

namespace UnqualifiedName

/-- A text as a name, or the first reason it is none. -/
def ofString (text : String) : Except NameError UnqualifiedName :=
  if h : Valid text then
    .ok ⟨text, h⟩
  else if hasReserved text then
    .error (.illegalCharacter text)
  else if text = "" then
    .error .emptyUnqualified
  else
    .error (.angleBrackets text)

instance : Ord UnqualifiedName where
  compare a b := compare a.text b.text

def main : UnqualifiedName := ⟨"main", by decide⟩
def out : UnqualifiedName := ⟨"out", by decide⟩
def println : UnqualifiedName := ⟨"println", by decide⟩

/-- The name of instance initializers. -/
def init : UnqualifiedName := ⟨"<init>", by decide⟩

/-- The name of class initializers. -/
def clinit : UnqualifiedName := ⟨"<clinit>", by decide⟩

end UnqualifiedName

/-! ## Binary names -/

namespace BinaryName

/-- The parts of a name between its slashes, in order. There is always at least
one. -/
def segments (chars : List Char) : List (List Char) :=
  chars.foldr
    (fun c parts =>
      if c = '/' then [] :: parts
      else match parts with
        | [] => [[c]]
        | part :: parts => (c :: part) :: parts)
    [[]]

/-- A segment is not empty and holds none of the characters that descriptors and
initializers use. -/
def isSegment (chars : List Char) : Bool :=
  !chars.isEmpty &&
    chars.all fun c => !(c == '.' || c == ';' || c == '[' || c == '<' || c == '>')

/-- What makes a text the name of a class. -/
def Valid (text : String) : Prop :=
  (segments text.toList).all isSegment = true

instance (text : String) : Decidable (Valid text) :=
  inferInstanceAs (Decidable (_ = true))

end BinaryName

/-- The name of a class or interface, with slashes between its segments. -/
structure BinaryName where
  text : String
  valid : BinaryName.Valid text
  deriving DecidableEq

namespace BinaryName

instance : Hashable BinaryName where
  hash name := hash name.text

instance : Ord BinaryName where
  compare a b := compare a.text b.text

/-- A text as a name, or the reason it is none. -/
def ofString (text : String) : Except NameError BinaryName :=
  if text = "" then
    .error .emptyBinary
  else if h : Valid text then
    .ok ⟨text, h⟩
  else
    .error (.invalidSegment text)

/-- A name as source programs write it, with dots between its segments. -/
def ofDotted (text : String) : Except NameError BinaryName :=
  ofString (String.ofList (text.toList.map fun c => if c = '.' then '/' else c))

/-- The package segments followed by the simple name. -/
def components (name : BinaryName) : List String :=
  (segments name.text.toList).map String.ofList

/-- The last segment. -/
def simpleName (name : BinaryName) : String :=
  name.components.getLastD name.text

def exception : BinaryName := ⟨"java/lang/Exception", by decide⟩
def integer : BinaryName := ⟨"java/lang/Integer", by decide⟩
def object : BinaryName := ⟨"java/lang/Object", by decide⟩
def printStream : BinaryName := ⟨"java/io/PrintStream", by decide⟩
def runnable : BinaryName := ⟨"java/lang/Runnable", by decide⟩
def runtimeException : BinaryName := ⟨"java/lang/RuntimeException", by decide⟩
def string : BinaryName := ⟨"java/lang/String", by decide⟩
def system : BinaryName := ⟨"java/lang/System", by decide⟩
def throwable : BinaryName := ⟨"java/lang/Throwable", by decide⟩

instance : Inhabited BinaryName := ⟨object⟩

end BinaryName

end JvmAsm
