import JvmAsm.Pool.Basic
import JvmAsm.Writer

/-! # Attributes

Classes, fields, methods and code carry attributes: named payloads. While a class
is built the name is an entry of the pool and the payload may be one too; both
become indices when the attributes are resolved against a pool whose indices are
fixed.

A container keeps its attributes in the order in which their names first came. A
payload under a name that is present takes the place of the earlier one. -/

namespace JvmAsm

/-- The attribute of a field's initial value. -/
def constantValueName : String := "ConstantValue"

/-- The attribute of the file a class was compiled from. -/
def sourceFileName : String := "SourceFile"

/-- The attribute of a method's code. -/
def codeName : String := "Code"

/-- The attribute of the exceptions a method declares. -/
def exceptionsName : String := "Exceptions"

/-- An attribute as it is written. -/
structure Attribute where
  nameIndex : UInt16
  info : Bytes
  deriving DecidableEq, Repr

instance : Serialize Attribute where
  serialize named := do
    serialize named.nameIndex
    serialize (UInt32.ofNat named.info.length)
    Writer.put named.info

/-- The payload of an attribute while indices are not fixed. -/
inductive AttributeValue where
  | bytes (bytes : Bytes)
  /-- The index of one constant. -/
  | constant (entry : Entry)
  deriving DecidableEq, Repr

/-- A payload under its name. -/
structure NamedAttribute where
  name : String
  /-- The entry of the name. -/
  entry : Entry
  value : AttributeValue
  deriving DecidableEq, Repr

/-- The attributes of one owner. -/
structure Attributes where
  entries : List NamedAttribute
  deriving DecidableEq, Repr, Inhabited

namespace Attributes

/-- No attributes. -/
def empty : Attributes := ⟨[]⟩

/-- Number of attributes. -/
def count (attributes : Attributes) : Nat := attributes.entries.length

/-- The payload under a name. -/
def get? (attributes : Attributes) (name : String) : Option AttributeValue :=
  (attributes.entries.find? fun named => named.name == name).map NamedAttribute.value

/-- There is a payload under the name. -/
def contains (attributes : Attributes) (name : String) : Bool :=
  attributes.entries.any fun named => named.name == name

/-- Another payload under a name that is present. -/
def replace (name : String) (value : AttributeValue) (attributes : Attributes) : Attributes :=
  ⟨attributes.entries.map fun named =>
    if named.name = name then { named with value } else named⟩

/-- Adds a payload, or replaces the one under the same name. The name goes into the
pool first, and stays there even if there is no room for the attribute. -/
def add (name : String) (value : AttributeValue) (attributes : Attributes) :
    Pool.Action Attributes := do
  let entry ← Pool.addUtf8 name
  if attributes.contains name then
    pure (attributes.replace name value)
  else if maxCount ≤ attributes.count then
    Attempt.fail (.tooMany .attributes)
  else
    pure ⟨attributes.entries ++ [⟨name, entry, value⟩]⟩

/-- The payload's bytes, once indices are fixed. -/
def payload (pool : Pool) : AttributeValue → Except Error Bytes
  | .bytes bytes => .ok bytes
  | .constant entry => encode <$> pool.index entry

/-- One attribute with its indices. -/
def resolveOne (pool : Pool) (named : NamedAttribute) : Except Error Attribute := do
  let nameIndex ← pool.index named.entry
  let info ← payload pool named.value
  return ⟨nameIndex, info⟩

/-- All attributes with their indices. -/
def resolve (attributes : Attributes) (pool : Pool) : Except Error (List Attribute) :=
  attributes.entries.mapM (resolveOne pool)

/-- Writes the attributes behind their number. -/
def write (attributes : Attributes) (pool : Pool) : Writer := do
  let resolved ← Attempt.ofExcept (attributes.resolve pool)
  serialize resolved

end Attributes

end JvmAsm
