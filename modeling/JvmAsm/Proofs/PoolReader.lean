import JvmAsm.Constant
import JvmAsm.Proofs.OffsetSearch
import JvmAsm.Proofs.Reading
import JvmAsm.Proofs.TextDecoding

/-! # Reading a constant pool

The reader of the format: two bytes for the count, which is one more than the last
index, then constants, each behind a tag.  The first has index 1; long and double
constants take two indices, all others one.

A constant as it is read names others by index.  `ReadPool.value?` puts in what
these indices stand for, following them through the table that was read and
insisting on the right kind of constant each time.  A class is known by the text
it names, so what comes out is a `ConstantValue`: `Constant.value` is the view of
the constants of a pool that a reader can have. -/

namespace JvmAsm

/-! ## As read -/

/-- A constant as it stands in a class file, others by their indices. -/
inductive ReadConstant where
  | utf8 (bytes : Bytes)
  | integer (value : Int)
  | float (bits : Nat)
  | long (value : Int)
  | double (bits : Nat)
  | classInfo (name : Nat)
  | string (text : Nat)
  | fieldRef (owner signature : Nat)
  | methodRef (owner signature : Nat)
  | interfaceMethodRef (owner signature : Nat)
  | nameAndType (name descriptor : Nat)
  deriving DecidableEq, Repr

namespace ReadConstant

def tag : ReadConstant → Nat
  | utf8 _ => 1
  | integer _ => 3
  | float _ => 4
  | long _ => 5
  | double _ => 6
  | classInfo _ => 7
  | string _ => 8
  | fieldRef _ _ => 9
  | methodRef _ _ => 10
  | interfaceMethodRef _ _ => 11
  | nameAndType _ _ => 12

/-- The number of indices the constant takes up. -/
def width : ReadConstant → Nat
  | long _ | double _ => 2
  | _ => 1

theorem width_pos (constant : ReadConstant) : 0 < constant.width := by
  cases constant <;> simp [width]

/-- The indices in the constant, each with the tag of what has to stand there. -/
def references : ReadConstant → List (Nat × Nat)
  | classInfo name => [(name, 1)]
  | string text => [(text, 1)]
  | fieldRef owner signature | methodRef owner signature | interfaceMethodRef owner signature =>
    [(owner, 7), (signature, 12)]
  | nameAndType name descriptor => [(name, 1), (descriptor, 1)]
  | utf8 _ | integer _ | float _ | long _ | double _ => []

end ReadConstant

/-- A constant pool as read: its count, and the constants behind their indices. -/
structure ReadPool where
  count : Nat
  constants : List (Nat × ReadConstant)
  deriving DecidableEq, Repr

namespace Reader

/-- A text behind its length. -/
def text : Reader Bytes := do
  let length ← unsigned 2
  take length

/-- Two indices. -/
def indexPair (make : Nat → Nat → ReadConstant) : Reader ReadConstant := do
  let first ← unsigned 2
  let second ← unsigned 2
  return make first second

/-- What follows a tag. -/
def payload : (tag : Nat) → Reader ReadConstant
  | 1 => do return .utf8 (← text)
  | 3 => do return .integer (← signed 4)
  | 4 => do return .float (← unsigned 4)
  | 5 => do return .long (← signed 8)
  | 6 => do return .double (← unsigned 8)
  | 7 => do return .classInfo (← unsigned 2)
  | 8 => do return .string (← unsigned 2)
  | 9 => indexPair .fieldRef
  | 10 => indexPair .methodRef
  | 11 => indexPair .interfaceMethodRef
  | 12 => indexPair .nameAndType
  | _ => fun _ => none

/-- One constant. -/
def constant : Reader ReadConstant := do
  let tag ← unsigned 1
  payload tag

/-- The constants from an index on, up to the count. -/
def constants (count index : Nat) : Reader (List (Nat × ReadConstant)) :=
  if index < count then do
    let head ← constant
    let following ← constants count (index + head.width)
    return (index, head) :: following
  else do
    require (index = count)
    return []
termination_by count - index
decreasing_by
  have := head.width_pos
  omega

/-- A whole pool. -/
def pool : Reader ReadPool := do
  let count ← unsigned 2
  let table ← constants count 1
  return ⟨count, table⟩

/-- Constants that stand side by side are read with their indices. -/
theorem reads_constants {α : Type} {width : α → Nat} {write : α → Bytes}
    {view : α → ReadConstant} {index count : Nat} {cells : List (Nat × α)}
    (contiguous : Contiguous width index cells count)
    (each : ∀ cell ∈ cells, constant.Reads (write cell.2) (view cell.2) ∧
      (view cell.2).width = width cell.2) :
    (constants count index).Reads (cells.flatMap fun cell => write cell.2)
      (cells.map fun cell => (cell.1, view cell.2)) := by
  induction cells generalizing index with
  | nil =>
    obtain rfl : index = count := contiguous
    rw [constants, if_neg (Nat.lt_irrefl _)]
    exact (Reads.require rfl).bind (.pure [])
  | cons cell cells ih =>
    obtain ⟨start, element⟩ := cell
    obtain ⟨hstart, tail⟩ := contiguous
    obtain ⟨reads, hwidth⟩ := each _ List.mem_cons_self
    dsimp only at reads hwidth
    have wide := (view element).width_pos
    have more : index < count := by
      have := tail.stop_eq
      omega
    have following := ih tail fun other hother => each other (List.mem_cons_of_mem _ hother)
    rw [← hwidth] at following
    rw [constants, if_pos more, List.flatMap_cons, List.map_cons, hstart]
    exact reads.bind (following.bind_pure fun table => (index, view element) :: table)

end Reader

/-! ## By value -/

/-- A member of a class, by the texts that name it. -/
structure MemberValue where
  owner : String
  nameAndType : NameAndType
  deriving DecidableEq, Repr

/-- A constant with everything it names. -/
inductive ConstantValue where
  | utf8 (text : String)
  | integer (value : Int)
  | float (bits : Nat)
  | long (value : Int)
  | double (bits : Nat)
  | classNamed (internalForm : String)
  | string (text : String)
  | fieldRef (member : MemberValue)
  | methodRef (member : MemberValue)
  | interfaceMethodRef (member : MemberValue)
  | nameAndType (member : NameAndType)
  deriving DecidableEq, Repr

namespace ReadPool

variable (pool : ReadPool)

/-- The constant at an index, if one starts there. -/
def constant? (index : Nat) : Option ReadConstant := pool.constants.lookup index

/-- The text at an index. -/
def text? (index : Nat) : Option String :=
  match pool.constant? index with
  | some (.utf8 bytes) => ModifiedUtf8.decode? bytes
  | _ => none

/-- The class at an index, by the text it names. -/
def className? (index : Nat) : Option String :=
  match pool.constant? index with
  | some (.classInfo name) => pool.text? name
  | _ => none

/-- A name and a descriptor at two indices. -/
def texts? (name descriptor : Nat) : Option NameAndType := do
  let name ← pool.text? name
  let descriptor ← pool.text? descriptor
  return ⟨name, descriptor⟩

/-- The pair of a name and a descriptor at an index. -/
def nameAndType? (index : Nat) : Option NameAndType :=
  match pool.constant? index with
  | some (.nameAndType name descriptor) => pool.texts? name descriptor
  | _ => none

/-- The member of the class at one index with the name and descriptor at another. -/
def member? (owner signature : Nat) : Option MemberValue := do
  let owner ← pool.className? owner
  let nameAndType ← pool.nameAndType? signature
  return ⟨owner, nameAndType⟩

/-- What a constant of the pool stands for. -/
def resolve? : ReadConstant → Option ConstantValue
  | .utf8 bytes => (ModifiedUtf8.decode? bytes).map .utf8
  | .integer value => some (.integer value)
  | .float bits => some (.float bits)
  | .long value => some (.long value)
  | .double bits => some (.double bits)
  | .classInfo name => (pool.text? name).map .classNamed
  | .string text => (pool.text? text).map .string
  | .fieldRef owner signature => (pool.member? owner signature).map .fieldRef
  | .methodRef owner signature => (pool.member? owner signature).map .methodRef
  | .interfaceMethodRef owner signature => (pool.member? owner signature).map .interfaceMethodRef
  | .nameAndType name descriptor => (pool.texts? name descriptor).map .nameAndType

/-- What stands at an index, with everything it names. -/
def value? (index : Nat) : Option ConstantValue := (pool.constant? index).bind pool.resolve?

/-- Every index in the pool lies within it and leads to a constant of the right kind. -/
def Closed : Prop :=
  ∀ index constant, (index, constant) ∈ pool.constants →
    ∀ reference ∈ constant.references, 1 ≤ reference.1 ∧ reference.1 < pool.count ∧
      ∃ target, pool.constant? reference.1 = some target ∧ target.tag = reference.2

end ReadPool

/-- A constant with everything it names, a class by its internal form. -/
def Constant.value : Constant → ConstantValue
  | .utf8 text => .utf8 text
  | .integer value => .integer value.toInt
  | .float bits => .float bits.toNat
  | .long value => .long value.toInt
  | .double bits => .double bits.toNat
  | .refType type => .classNamed type.internalForm
  | .string text => .string text
  | .fieldRef member => .fieldRef ⟨member.owner.internalForm, member.nameAndType⟩
  | .methodRef member => .methodRef ⟨member.owner.internalForm, member.nameAndType⟩
  | .interfaceMethodRef member =>
    .interfaceMethodRef ⟨member.owner.internalForm, member.nameAndType⟩
  | .nameAndType member => .nameAndType member

end JvmAsm
