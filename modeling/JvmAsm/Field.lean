import JvmAsm.Attribute.Basic
import JvmAsm.Member
import JvmAsm.Pool.Encoding
import JvmAsm.Reply

/-! # Fields

A field is declared with its name, type and flags; it may then get an initial
value and attributes. Finalizing it turns the initial value into an attribute,
after which the field can no longer be changed. -/

namespace JvmAsm

/-- A field of a class. -/
structure Field where
  name : UnqualifiedName
  type : FieldType
  flags : AccessFlags .field
  nameEntry : Entry
  typeEntry : Entry
  /-- The initial value. -/
  constantValue : Option Entry
  attributes : Attributes
  finalized : Bool
  deriving DecidableEq

namespace Field

/-- Changes of a field and the pool. -/
abbrev Action := MemberAction Field

/-- Declares a field. -/
def declare (name : UnqualifiedName) (type : FieldType) (flags : AccessFlags .field) :
    Pool.Action Field :=
  match flags.check with
  | .error cause => Attempt.fail (.illegalAccessFlags cause)
  | .ok flags => do
    let nameEntry ← Pool.addUtf8 name.text
    let typeEntry ← Pool.addUtf8 type.render
    return ⟨name, type, flags, nameEntry, typeEntry, none, .empty, false⟩

instance : Inhabited Field := ⟨⟨.main, .int, ⟨0⟩, default, default, none, .empty, false⟩⟩

/-- Puts an attribute into the field's container. -/
def putAttribute (name : String) (value : AttributeValue) : Action Unit := fun (field, pool) =>
  match field.attributes.add name value pool with
  | .ok attributes pool => .ok () ({ field with attributes }, pool)
  | .error e pool => .error e (field, pool)

/-- Turns the initial value into an attribute. Only the first call does anything. -/
def finalize : Action Unit := fun (field, pool) =>
  if field.finalized then
    .ok () (field, pool)
  else
    let field := { field with finalized := true }
    match field.constantValue with
    | none => .ok () (field, pool)
    | some entry => putAttribute constantValueName (.constant entry) (field, pool)

/-- Performs a change that a finalized field refuses. -/
def whileOpen {α : Type} (action : Action α) : Action α := fun (field, pool) =>
  if field.finalized then .error .memberFinalized (field, pool) else action (field, pool)

/-- One change of a field. -/
inductive Edit where
  | setConstant (constant : Constant)
  | addAttribute (name : String) (value : AttributeValue)
  deriving DecidableEq

namespace Edit

/-- Performs an edit. -/
def perform : Edit → Action Reply
  | setConstant constant => whileOpen do
    let entry ← MemberAction.onPool (Pool.add constant)
    fun (field, pool) => .ok .done ({ field with constantValue := some entry }, pool)
  | addAttribute name value => whileOpen do
    putAttribute name value
    return .done

end Edit

/-- Writes the field. -/
def write (field : Field) (pool : Pool) : Writer := do
  serialize field.flags
  pool.writeIndex field.nameEntry
  pool.writeIndex field.typeEntry
  field.attributes.write pool

end Field

end JvmAsm
