import JvmAsm.Field
import JvmAsm.Method
import JvmAsm.Version

/-! # Classes

A class owns its fields and methods and the pool they share. It is built by edits
and then written. Before its first writing it is *prepared*: the names it mentions
go into the pool, indices are fixed, members are finalized in order, and the pool
is sealed. Preparation happens once, whether it succeeds or not. If it fails the
pool stays unsealed, and an unsealed pool is refused when the class is written. If
it succeeds, whatever would need a new constant is refused from then on, and as
long as neither its version nor its interfaces change the class is written with
the same bytes each time. -/

namespace JvmAsm

/-- A class or interface under construction. -/
structure Class where
  name : BinaryName
  superName : BinaryName
  flags : AccessFlags .type
  version : Version
  interfaces : List BinaryName
  fields : Array Field
  methods : Array Method
  attributes : Attributes
  sourceFile : Option String
  pool : Pool
  /-- Preparation was started. -/
  prepared : Bool

namespace Class

/-- Changes of a class. -/
abbrev Action := Attempt Error Class

/-- A class without members. -/
def declare (name superName : BinaryName) (flags : AccessFlags .type) : Except Error Class :=
  match flags.check with
  | .error cause => .error (.illegalAccessFlags cause)
  | .ok flags =>
    .ok ⟨name, superName, flags, Version.java1_1, [], #[], #[], .empty, none, .empty, false⟩

/-- The class is an interface. -/
def isInterface (cls : Class) : Bool := cls.flags.intersects Flag.interface

/-! ## Working on a part -/

/-- A change of the pool. -/
def onPool {α : Type} (action : Pool.Action α) : Action α := fun cls =>
  match cls with
  | ⟨name, superName, flags, version, interfaces, fields, methods, attributes, sourceFile, pool,
      prepared⟩ =>
    match action pool with
    | .ok a pool =>
      .ok a ⟨name, superName, flags, version, interfaces, fields, methods, attributes,
        sourceFile, pool, prepared⟩
    | .error e pool =>
      .error e ⟨name, superName, flags, version, interfaces, fields, methods, attributes,
        sourceFile, pool, prepared⟩

/-- A change of all fields and the pool. -/
def onFields {α : Type} (action : MemberAction (Array Field) α) : Action α := fun cls =>
  match cls with
  | ⟨name, superName, flags, version, interfaces, fields, methods, attributes, sourceFile, pool,
      prepared⟩ =>
    match action (fields, pool) with
    | .ok a (fields, pool) =>
      .ok a ⟨name, superName, flags, version, interfaces, fields, methods, attributes,
        sourceFile, pool, prepared⟩
    | .error e (fields, pool) =>
      .error e ⟨name, superName, flags, version, interfaces, fields, methods, attributes,
        sourceFile, pool, prepared⟩

/-- A change of all methods and the pool. -/
def onMethods {α : Type} (action : MemberAction (Array Method) α) : Action α := fun cls =>
  match cls with
  | ⟨name, superName, flags, version, interfaces, fields, methods, attributes, sourceFile, pool,
      prepared⟩ =>
    match action (methods, pool) with
    | .ok a (methods, pool) =>
      .ok a ⟨name, superName, flags, version, interfaces, fields, methods, attributes,
        sourceFile, pool, prepared⟩
    | .error e (methods, pool) =>
      .error e ⟨name, superName, flags, version, interfaces, fields, methods, attributes,
        sourceFile, pool, prepared⟩

/-- A change of the field at an index, if there is one. -/
def onField {α : Type} (index : Nat) (action : Field.Action α) : Action (Option α) :=
  onFields (MemberAction.onMember index action)

/-- A change of the method at an index, if there is one. -/
def onMethod {α : Type} (index : Nat) (action : Method.Action α) : Action (Option α) :=
  onMethods (MemberAction.onMember index action)

/-! ## Building -/

/-- Adds an interface, unless it is there already. -/
def addInterface (interface : BinaryName) : Action Unit := fun cls =>
  if maxCount ≤ cls.interfaces.length then
    .error (.tooMany .interfaces) cls
  else if cls.interfaces.contains interface then
    .ok () cls
  else
    .ok () { cls with interfaces := cls.interfaces ++ [interface] }

/-- Adds a field and answers its index. -/
def addField (name : UnqualifiedName) (type : FieldType) (flags : AccessFlags .field) :
    Action Nat :=
  onFields fun (fields, pool) =>
    if maxCount ≤ fields.size then
      .error (.tooMany .fields) (fields, pool)
    else
      match Field.declare name type flags pool with
      | .error e pool => .error e (fields, pool)
      | .ok field pool =>
        let index := fields.size
        .ok index (fields.push field, pool)

/-- Adds a method and answers its index. -/
def addMethod (name : UnqualifiedName) (descriptor : MethodDescriptor)
    (flags : AccessFlags .method) : Action Nat := fun cls =>
  let inInterface := cls.isInterface
  onMethods (fun (methods, pool) =>
    if maxCount ≤ methods.size then
      .error (.tooMany .methods) (methods, pool)
    else
      match Method.declare name descriptor flags inInterface pool with
      | .error e pool => .error e (methods, pool)
      | .ok method pool =>
        let index := methods.size
        .ok index (methods.push method, pool)) cls

/-- Adds an attribute of the class. -/
def addAttribute (name : String) (value : AttributeValue) : Action Unit := fun cls =>
  let attributes := cls.attributes
  match onPool (attributes.add name value) cls with
  | .ok attributes cls => .ok () { cls with attributes }
  | .error e cls => .error e cls

/-! ## Preparing -/

/-- Puts the names of the class, its parent and its interfaces into the pool. -/
def internNames : Action Unit := fun cls =>
  let names := cls.name :: cls.superName :: cls.interfaces
  onPool (names.forM fun name => do let _ ← Pool.addClass name) cls

/-- Turns the source file, if one was named and there is no attribute for it yet,
into an attribute. -/
def recordSource : Action Unit := fun cls =>
  match cls.sourceFile with
  | none => .ok () cls
  | some file =>
    if cls.attributes.contains sourceFileName then
      .ok () cls
    else
      (do
        let entry ← onPool (Pool.addUtf8 file)
        addAttribute sourceFileName (.constant entry)) cls

/-- Fixes the indices of the pool. -/
def stabilize : Action Unit := onPool fun pool => .ok () pool.stabilize

/-- Finalizes the methods in order. -/
def finalizeMethods : Action Unit := onMethods (MemberAction.finalizeAll Method.finalize)

/-- Finalizes the fields in order. -/
def finalizeFields : Action Unit := onFields (MemberAction.finalizeAll Field.finalize)

/-- Makes the class ready to be written. -/
def prepare : Action Unit := do
  internNames
  recordSource
  stabilize
  finalizeMethods
  finalizeFields
  onPool Pool.close

/-- Prepares the class unless that was tried before. -/
def prepareOnce : Action Unit := fun cls =>
  if cls.prepared then .ok () cls else prepare { cls with prepared := true }

/-! ## Writing -/

/-- The bytes every class file starts with. -/
def magic : Bytes := [0xCA, 0xFE, 0xBA, 0xBE]

/-- The index of a class by its name. -/
def classIndex (pool : Pool) (name : BinaryName) : Except Error UInt16 :=
  pool.indexOf (.refType (.object name))

/-- Writes the class once it is prepared. -/
def write (cls : Class) : Writer := do
  Writer.put magic
  serialize cls.version
  cls.pool.write
  serialize cls.flags
  serialize (← Attempt.ofExcept (classIndex cls.pool cls.name))
  serialize (← Attempt.ofExcept (classIndex cls.pool cls.superName))
  serialize (← Attempt.ofExcept (cls.interfaces.mapM (classIndex cls.pool)))
  serialize (UInt16.ofNat cls.fields.size)
  cls.fields.toList.forM fun field => field.write cls.pool
  serialize (UInt16.ofNat cls.methods.size)
  cls.methods.toList.forM fun method => method.write cls.pool
  cls.attributes.write cls.pool

/-- Prepares the class and writes it to a destination. -/
def serialize : Attempt Error (Class × Sink) Unit := fun (cls, sink) =>
  match prepareOnce cls with
  | .error e cls => .error e (cls, sink)
  | .ok _ cls =>
    match cls.write sink with
    | .ok _ sink => .ok () (cls, sink)
    | .error e sink => .error e (cls, sink)

/-- The bytes of the class file. -/
def toBytes : Action Bytes := fun cls =>
  match serialize (cls, .unbounded) with
  | .ok _ (cls, sink) => .ok sink.accepted.toList cls
  | .error e (cls, _) => .error e cls

end Class

end JvmAsm
