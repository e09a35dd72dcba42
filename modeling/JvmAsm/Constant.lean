import JvmAsm.Descriptor.Basic

/-! # Constants

The values a class file keeps in its constant pool. Equality is structural, so
constants that were built apart and are equal share one entry. Floating point
values are kept as their bits: the two zeros and all not-a-numbers stay apart.

A composite constant names other constants, its *constituents*, which have to be
in the pool before it. `constituents` lists them in the order they are written,
and `height` bounds how deep they nest. -/

namespace JvmAsm

/-- A member's name and descriptor. -/
structure NameAndType where
  name : String
  descriptor : String
  deriving DecidableEq, Hashable, Repr

/-- A member of a class. -/
structure MemberRef where
  owner : RefType
  nameAndType : NameAndType
  deriving DecidableEq, Hashable

/-- The constants a pool can hold. -/
inductive Constant where
  | utf8 (text : String)
  | integer (value : Int32)
  | float (bits : UInt32)
  | long (value : Int64)
  | double (bits : UInt64)
  | refType (type : RefType)
  | string (text : String)
  | fieldRef (member : MemberRef)
  | methodRef (member : MemberRef)
  | interfaceMethodRef (member : MemberRef)
  | nameAndType (member : NameAndType)
  deriving DecidableEq, Hashable

/-- A handle on a constant in a pool: how many constants were there before it. -/
structure Entry where
  rank : Nat
  deriving DecidableEq, Repr, Inhabited

namespace Entry

/-- How reports spell the handle. -/
def describe (entry : Entry) : String :=
  Text.case "ConstantEntry" [toString entry.rank]

end Entry

namespace NameAndType

/-- A field's name and type. -/
def field (name : UnqualifiedName) (type : FieldType) : NameAndType :=
  ⟨name.text, type.render⟩

/-- A method's name and descriptor. -/
def method (name : UnqualifiedName) (descriptor : MethodDescriptor) : NameAndType :=
  ⟨name.text, descriptor.render⟩

/-- How reports spell the pair. -/
def describe (member : NameAndType) : String :=
  Text.record "NameAndType"
    [("name", Text.quote member.name), ("descriptor", Text.quote member.descriptor)]

end NameAndType

namespace MemberRef

/-- How reports spell the member. -/
def describe (member : MemberRef) : String :=
  Text.record "MemberRef"
    [("class", member.owner.describe), ("name_and_type", member.nameAndType.describe)]

end MemberRef

namespace Constant

/-- The byte that announces the constant in a class file. -/
def tag : Constant → UInt8
  | utf8 _ => 1
  | integer _ => 3
  | float _ => 4
  | long _ => 5
  | double _ => 6
  | refType _ => 7
  | string _ => 8
  | fieldRef _ => 9
  | methodRef _ => 10
  | interfaceMethodRef _ => 11
  | nameAndType _ => 12

/-- Pool indices the constant takes up. -/
def width : Constant → Nat
  | long _ | double _ => 2
  | _ => 1

/-- One-slot constants that instructions can load. -/
def isNarrowLoadable : Constant → Bool
  | integer _ | float _ | string _ | refType _ => true
  | _ => false

/-- Two-slot constants that instructions can load. -/
def isWideLoadable : Constant → Bool
  | long _ | double _ => true
  | _ => false

/-- The constants a composite constant is made of, in the order it names them. -/
def constituents : Constant → List Constant
  | refType type => [utf8 type.internalForm]
  | string text => [utf8 text]
  | fieldRef member | methodRef member | interfaceMethodRef member =>
    [refType member.owner, nameAndType member.nameAndType]
  | nameAndType member => [utf8 member.name, utf8 member.descriptor]
  | utf8 _ | integer _ | float _ | long _ | double _ => []

/-- How deep constituents nest. -/
def height : Constant → Nat
  | utf8 _ | integer _ | float _ | long _ | double _ => 0
  | refType _ | string _ | nameAndType _ => 1
  | fieldRef _ | methodRef _ | interfaceMethodRef _ => 2

/-- Constituents nest less deep than what they make up. -/
theorem height_lt_of_mem_constituents {part whole : Constant}
    (h : part ∈ whole.constituents) : part.height < whole.height := by
  cases whole <;> simp [constituents] at h <;> first
    | (subst h; simp [height])
    | (rcases h with rfl | rfl <;> simp [height])

/-- How reports spell the constant. -/
def describe : Constant → String
  | utf8 text => Text.case "Utf8" [Text.quote text]
  | integer value => Text.case "Integer" [toString value.toInt]
  | float bits => Text.case "Float" [toString bits.toNat]
  | long value => Text.case "Long" [toString value.toInt]
  | double bits => Text.case "Double" [toString bits.toNat]
  | refType type => Text.case "Class" [type.describe]
  | string text => Text.case "String" [Text.quote text]
  | fieldRef member => Text.case "FieldRef" [member.describe]
  | methodRef member => Text.case "MethodRef" [member.describe]
  | interfaceMethodRef member => Text.case "InterfaceMethodRef" [member.describe]
  | nameAndType member => Text.case "NameAndType" [member.describe]

end Constant

end JvmAsm
