import JvmAsm.Proofs.PoolReader
import JvmAsm.Proofs.Writers

/-! # Reading a class file

The reader of the whole format: a magic number, the version, the pool, flags, the
class and its parent, interfaces, fields, methods and attributes, each list behind
the number of its elements.  Attributes are opaque: a name, a length and so many
bytes.  What stands in the payload of a method's code is read by a reader of its
own, since the format nests: code has attributes again.

Names are indices here.  They lead into the pool at the head of the same file, and
`ReadPool.attribute?` finds an attribute the way a user of the format would, by the
text its name stands for.

The format is given twice, once by readers and once by the bytes that a value takes
up in a file (`ReadClass.bytes` and the like).  The second is the weaker one: where a
number in the file is narrower than what it counts, the bytes are still determined,
but a reader can no longer tell what they were made from.  So the facts that readers
read what is written have conditions. -/

namespace JvmAsm

/-! ## As read -/

/-- An attribute as it stands in a class file. -/
structure ReadAttribute where
  name : Nat
  info : Bytes
  deriving DecidableEq, Repr

/-- A field or a method as it stands in a class file. -/
structure ReadMember where
  flags : Nat
  name : Nat
  descriptor : Nat
  attributes : List ReadAttribute
  deriving DecidableEq, Repr

/-- A row of an exception table as it stands in a class file. -/
structure ReadHandler where
  startPc : Nat
  endPc : Nat
  handlerPc : Nat
  catchType : Nat
  deriving DecidableEq, Repr

/-- The payload of a method's code. -/
structure ReadCode where
  maxStack : Nat
  maxLocals : Nat
  code : Bytes
  handlers : List ReadHandler
  attributes : List ReadAttribute
  deriving DecidableEq, Repr

/-- A class as it stands in its file. -/
structure ReadClass where
  minor : Nat
  major : Nat
  pool : ReadPool
  flags : Nat
  thisClass : Nat
  superClass : Nat
  interfaces : List Nat
  fields : List ReadMember
  methods : List ReadMember
  attributes : List ReadAttribute
  deriving DecidableEq, Repr

/-! ## Bytes -/

/-- A list behind the number of its elements. -/
def countedBytes {α : Type} (write : α → Bytes) (items : List α) : Bytes :=
  Bytes.ofNat 2 items.length ++ items.flatMap write

def ReadAttribute.bytes (seen : ReadAttribute) : Bytes :=
  Bytes.ofNat 2 seen.name ++ (Bytes.ofNat 4 seen.info.length ++ seen.info)

def ReadMember.bytes (seen : ReadMember) : Bytes :=
  Bytes.ofNat 2 seen.flags ++ (Bytes.ofNat 2 seen.name ++ (Bytes.ofNat 2 seen.descriptor ++
    countedBytes ReadAttribute.bytes seen.attributes))

def ReadHandler.bytes (seen : ReadHandler) : Bytes :=
  Bytes.ofNat 2 seen.startPc ++ (Bytes.ofNat 2 seen.endPc ++ (Bytes.ofNat 2 seen.handlerPc ++
    Bytes.ofNat 2 seen.catchType))

def ReadCode.bytes (seen : ReadCode) : Bytes :=
  Bytes.ofNat 2 seen.maxStack ++ (Bytes.ofNat 2 seen.maxLocals ++
    (Bytes.ofNat 4 seen.code.length ++ (seen.code ++
      (countedBytes ReadHandler.bytes seen.handlers ++
        countedBytes ReadAttribute.bytes seen.attributes))))

/-- The bytes of a class file, around those of its pool. -/
def ReadClass.bytes (pool : Bytes) (seen : ReadClass) : Bytes :=
  Bytes.ofNat 4 0xCAFEBABE ++ (Bytes.ofNat 2 seen.minor ++ (Bytes.ofNat 2 seen.major ++ (pool ++
    (Bytes.ofNat 2 seen.flags ++ (Bytes.ofNat 2 seen.thisClass ++
      (Bytes.ofNat 2 seen.superClass ++ (countedBytes (Bytes.ofNat 2) seen.interfaces ++
        (countedBytes ReadMember.bytes seen.fields ++ (countedBytes ReadMember.bytes seen.methods ++
          countedBytes ReadAttribute.bytes seen.attributes)))))))))

/-- The payload of the first attribute of a name. -/
def ReadPool.attribute? (pool : ReadPool) (attributes : List ReadAttribute) (name : String) :
    Option Bytes :=
  (attributes.find? fun seen => pool.text? seen.name == some name).map ReadAttribute.info

/-! ## Readers -/

namespace Reader

variable {α γ : Type}

/-- The value, provided nothing is left over. -/
def whole (reader : Reader α) (bytes : Bytes) : Option α :=
  match reader.run bytes with
  | some (value, []) => some value
  | _ => none

/-- A list behind the number of its elements. -/
def counted (reader : Reader α) : Reader (List α) := do
  let count ← unsigned 2
  times count reader

def attributeInfo : Reader ReadAttribute := do
  let name ← unsigned 2
  let length ← unsigned 4
  let info ← take length
  return ⟨name, info⟩

def member : Reader ReadMember := do
  let flags ← unsigned 2
  let name ← unsigned 2
  let descriptor ← unsigned 2
  let attributes ← counted attributeInfo
  return ⟨flags, name, descriptor, attributes⟩

def handler : Reader ReadHandler := do
  let startPc ← unsigned 2
  let endPc ← unsigned 2
  let handlerPc ← unsigned 2
  let catchType ← unsigned 2
  return ⟨startPc, endPc, handlerPc, catchType⟩

/-- The payload of a method's code. -/
def code : Reader ReadCode := do
  let maxStack ← unsigned 2
  let maxLocals ← unsigned 2
  let length ← unsigned 4
  let code ← take length
  let handlers ← counted handler
  let attributes ← counted attributeInfo
  return ⟨maxStack, maxLocals, code, handlers, attributes⟩

/-- The number every class file starts with. -/
def magic : Reader Unit := do
  let number ← unsigned 4
  require (number = 0xCAFEBABE)

/-- A whole class file. -/
def classFile : Reader ReadClass := do
  magic
  let minor ← unsigned 2
  let major ← unsigned 2
  let pool ← pool
  let flags ← unsigned 2
  let thisClass ← unsigned 2
  let superClass ← unsigned 2
  let interfaces ← counted (unsigned 2)
  let fields ← counted member
  let methods ← counted member
  let attributes ← counted attributeInfo
  return ⟨minor, major, pool, flags, thisClass, superClass, interfaces, fields, methods, attributes⟩

/-! ## Reading what is written -/

theorem Reads.whole {reader : Reader α} {bytes : Bytes} {value : α} (h : reader.Reads bytes value) :
    reader.whole bytes = some value := by
  have read := h []
  rw [List.append_nil] at read
  unfold Reader.whole
  rw [read]

/-- A list behind its number is read if its elements are. -/
theorem reads_counted {reader : Reader α} {items : List γ} {write : γ → Bytes} {view : γ → α}
    (few : items.length ≤ 65535) (each : ∀ item ∈ items, reader.Reads (write item) (view item)) :
    (counted reader).Reads (countedBytes write items) (items.map view) :=
  (reads_unsigned (show items.length < 256 ^ 2 by omega)).bind (Reads.times rfl each)

/-- Numbers behind their count. -/
theorem reads_indices {indices : List UInt16} (few : indices.length ≤ 65535) :
    (counted (unsigned 2)).Reads (encode indices) (indices.map UInt16.toNat) :=
  reads_counted few fun index _ => reads_uint16 index

end Reader

open Reader

theorem countedBytes_map {α β : Type} (write : β → Bytes) (view : α → β) (items : List α) :
    countedBytes write (items.map view) = countedBytes (fun item => write (view item)) items := by
  unfold countedBytes
  rw [List.length_map, List.flatMap_map]

/-- What a reader finds of an attribute. -/
def Attribute.asRead (named : Attribute) : ReadAttribute :=
  ⟨named.nameIndex.toNat, named.info⟩

/-- What a reader finds of a row. -/
def ExceptionHandler.asRead (row : ExceptionHandler) : ReadHandler :=
  ⟨row.startPc.toNat, row.endPc.toNat, row.handlerPc.toNat, row.catchType.toNat⟩

/-- What a reader finds of the payload of code. -/
def CodeAttribute.asRead (payload : CodeAttribute) : ReadCode where
  maxStack := payload.maxStack.toNat
  maxLocals := payload.maxLocals.toNat
  code := payload.code.bytes
  handlers := payload.exceptionTable.map ExceptionHandler.asRead
  attributes := payload.attributes.map Attribute.asRead

namespace Attribute

/-- What is read of an attribute has the bytes of the attribute. -/
theorem bytes_asRead (named : Attribute) : named.asRead.bytes = encode named :=
  (List.append_assoc _ _ _).symm

theorem bytes_all (attributes : List Attribute) :
    countedBytes ReadAttribute.bytes (attributes.map asRead) = encode attributes := by
  rw [countedBytes_map]
  exact congrArg (countedBytes · attributes) (funext bytes_asRead)

/-- An attribute is read back if four bytes can hold its length. -/
theorem reads {named : Attribute} (short : named.info.length < 2 ^ 32) :
    attributeInfo.Reads named.asRead.bytes named.asRead := by
  have sized := reads_unsigned (show named.info.length < 256 ^ 4 by omega)
  exact (reads_uint16 named.nameIndex).bind
    (sized.bind ((Reads.take named.info).bind_pure (ReadAttribute.mk named.nameIndex.toNat)))

/-- A container is read back if there are few enough attributes, none of them too long. -/
theorem reads_all {attributes : List Attribute} (few : attributes.length ≤ 65535)
    (short : ∀ named ∈ attributes, named.info.length < 2 ^ 32) :
    (counted attributeInfo).Reads (encode attributes) (attributes.map asRead) := by
  rw [← bytes_all, countedBytes_map]
  exact reads_counted few fun named hnamed => reads (short named hnamed)

end Attribute

namespace ExceptionHandler

theorem bytes_asRead (row : ExceptionHandler) : row.asRead.bytes = encode row := by
  show _ ++ (_ ++ (_ ++ _)) = _ ++ _ ++ _ ++ _
  rw [List.append_assoc, List.append_assoc]
  rfl

theorem reads (row : ExceptionHandler) : handler.Reads row.asRead.bytes row.asRead :=
  (reads_uint16 row.startPc).bind ((reads_uint16 row.endPc).bind
    ((reads_uint16 row.handlerPc).bind ((reads_uint16 row.catchType).bind_pure _)))

end ExceptionHandler

namespace CodeAttribute

/-- …and so has what is read of code, its table and its attributes. -/
theorem bytes_asRead (payload : CodeAttribute) : payload.asRead.bytes = encode payload := by
  have rows : countedBytes ReadHandler.bytes (payload.exceptionTable.map ExceptionHandler.asRead) =
      encode payload.exceptionTable := by
    rw [countedBytes_map]
    exact congrArg (countedBytes · payload.exceptionTable) (funext ExceptionHandler.bytes_asRead)
  unfold ReadCode.bytes asRead
  rw [rows, Attribute.bytes_all]
  show _ ++ (_ ++ (_ ++ (_ ++ (_ ++ _)))) = _ ++ _ ++ (_ ++ _) ++ _ ++ _
  simp only [List.append_assoc]
  rfl

/-- **The payload of code is read back**, if the lists in it can be counted. -/
theorem reads {payload : CodeAttribute} (length : payload.code.bytes.length ≤ 65535)
    (rows : payload.exceptionTable.length ≤ 65535) (few : payload.attributes.length ≤ 65535)
    (short : ∀ named ∈ payload.attributes, named.info.length < 2 ^ 32) :
    Reader.code.Reads payload.asRead.bytes payload.asRead := by
  have sized := reads_unsigned (show payload.code.bytes.length < 256 ^ 4 by omega)
  have table : (counted handler).Reads (countedBytes ReadHandler.bytes payload.asRead.handlers)
      payload.asRead.handlers := by
    rw [asRead, countedBytes_map]
    exact reads_counted rows fun row _ => row.reads
  have nested := Attribute.reads_all few short
  rw [← Attribute.bytes_all] at nested
  exact (reads_uint16 payload.maxStack).bind ((reads_uint16 payload.maxLocals).bind
    (sized.bind ((Reads.take payload.code.bytes).bind (table.bind (nested.bind_pure _)))))

end CodeAttribute

end JvmAsm
