import JvmAsm.Name
import JvmAsm.Text.Report

/-! # Types and their descriptors

The types of fields, parameters and results, and the text that stands for each of
them in a class file. A descriptor is written without separators: a base type is
one letter, a class is its name between `L` and `;`, and every dimension of an
array is one `[` in front of its element type.

An array is kept as its innermost element type and the number of dimensions
beyond the first, so that each type has exactly one value here. That number has 64
bits, and so has the number of all dimensions, which is one more: of an array with
all the dimensions that can be said it is counted as zero. -/

namespace JvmAsm

/-- The primitive value types. -/
inductive BaseType where
  | byte | char | double | float | int | long | short | boolean
  deriving DecidableEq, Hashable, Repr

namespace BaseType

/-- The letter of a base type. -/
def letter : BaseType → Char
  | byte => 'B'
  | char => 'C'
  | double => 'D'
  | float => 'F'
  | int => 'I'
  | long => 'J'
  | short => 'S'
  | boolean => 'Z'

/-- The base type of a letter. -/
def ofLetter? : Char → Option BaseType
  | 'B' => some byte
  | 'C' => some char
  | 'D' => some double
  | 'F' => some float
  | 'I' => some int
  | 'J' => some long
  | 'S' => some short
  | 'Z' => some boolean
  | _ => none

/-- Local variable and stack slots a value takes. -/
def width : BaseType → Nat
  | double | long => 2
  | _ => 1

/-- How reports spell the type. -/
def describe : BaseType → String
  | byte => "Byte"
  | char => "Char"
  | double => "Double"
  | float => "Float"
  | int => "Int"
  | long => "Long"
  | short => "Short"
  | boolean => "Boolean"

end BaseType

/-- What an array can be an array of, once its dimensions are counted. -/
inductive ElementType where
  | base (type : BaseType)
  | object (name : BinaryName)
  deriving DecidableEq, Hashable, Inhabited

/-- The types whose values are references. -/
inductive RefType where
  | object (name : BinaryName)
  /-- An array with `extra` dimensions beyond the first. -/
  | array (extra : UInt64) (element : ElementType)
  deriving DecidableEq, Hashable, Inhabited

/-- The type of a field, parameter or result. -/
inductive FieldType where
  | base (type : BaseType)
  | ref (type : RefType)
  deriving DecidableEq, Hashable, Inhabited

/-- The parameters and the result of a method; without a result it is `void`. -/
structure MethodDescriptor where
  parameters : List FieldType
  result : Option FieldType
  deriving DecidableEq, Inhabited

/-- The largest number of dimensions of an array. -/
def maxArrayDimensions : Nat := 255

/-- The largest number of slots for a method's parameters, the receiver included. -/
def maxParameterSlots : Nat := 255

namespace ElementType

/-- The descriptor, as characters. -/
def chars : ElementType → List Char
  | base type => [type.letter]
  | object name => 'L' :: (name.text.toList ++ [';'])

end ElementType

namespace RefType

/-- The descriptor, as characters. -/
def chars : RefType → List Char
  | object name => (ElementType.object name).chars
  | array extra element => List.replicate (extra + 1).toNat '[' ++ element.chars

/-- The descriptor. -/
def render (type : RefType) : String :=
  String.ofList type.chars

/-- The array of a type. -/
def arrayOf : FieldType → RefType
  | .base type => array 0 (.base type)
  | .ref (object name) => array 0 (.object name)
  | .ref (array extra element) => array (extra + 1) element

/-- The text of a class constant for the type: a class stands there under its
bare name, an array under its descriptor. -/
def internalForm : RefType → String
  | object name => name.text
  | array extra element => (array extra element).render

/-- How reports spell the type. -/
def describe : RefType → String
  | object name => Text.case "Object" [name.text]
  | array extra (.object name) =>
    Text.case "ObjectArray" [Text.record "ArrayType"
      [("additional_dimensions", toString extra), ("element_type", name.text)]]
  | array extra (.base type) =>
    Text.case "PrimitiveArray" [Text.record "ArrayType"
      [("additional_dimensions", toString extra), ("element_type", type.describe)]]

end RefType

namespace FieldType

def int : FieldType := base .int
def long : FieldType := base .long
def float : FieldType := base .float
def double : FieldType := base .double
def boolean : FieldType := base .boolean

/-- The type of the instances of a class. -/
def object (name : BinaryName) : FieldType := ref (.object name)

/-- The array of a type. -/
def array (type : FieldType) : FieldType := ref (.arrayOf type)

/-- An element type under any number of dimensions. -/
def ofElement : (dimensions : Nat) → ElementType → FieldType
  | 0, .base type => base type
  | 0, .object name => object name
  | dimensions + 1, element => array (ofElement dimensions element)

/-- The number of dimensions, none for a type that is no array. -/
def dimensions : FieldType → UInt64
  | ref (.array extra _) => extra + 1
  | _ => 0

/-- What remains of the type without its dimensions. -/
def element : FieldType → ElementType
  | base type => .base type
  | ref (.object name) => .object name
  | ref (.array _ element) => element

/-- The descriptor, as characters. -/
def chars : FieldType → List Char
  | base type => [type.letter]
  | ref type => type.chars

/-- The descriptor. -/
def render (type : FieldType) : String :=
  String.ofList type.chars

/-- Local variable and stack slots a value takes. -/
def width : FieldType → Nat
  | base type => type.width
  | ref _ => 1

/-- How reports spell the type. -/
def describe : FieldType → String
  | base type => Text.case "Base" [type.describe]
  | ref type => Text.case "Ref" [type.describe]

end FieldType

namespace MethodDescriptor

/-- The descriptor, as characters. -/
def chars (descriptor : MethodDescriptor) : List Char :=
  '(' :: (descriptor.parameters.flatMap FieldType.chars ++ ')' ::
    match descriptor.result with
    | none => ['V']
    | some type => type.chars)

/-- The descriptor. -/
def render (descriptor : MethodDescriptor) : String :=
  String.ofList descriptor.chars

/-- Slots of the parameters, with one more for the receiver of an instance
method. -/
def slots (descriptor : MethodDescriptor) (receiver : Bool) : Nat :=
  (if receiver then 1 else 0) + (descriptor.parameters.map FieldType.width).foldr (· + ·) 0

end MethodDescriptor

end JvmAsm
