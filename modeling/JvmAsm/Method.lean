import JvmAsm.Code.Assembly
import JvmAsm.Code.Edit
import JvmAsm.Instruction.Push
import JvmAsm.Member
import JvmAsm.Pool.Encoding

/-! # Methods

A method is declared with its name, descriptor and flags. Abstract and native
methods, and all methods of interfaces, have no code; every other method starts
out with none of its instructions and with room for its parameters among the local
variables. Finalizing a method assembles its code into an attribute and adds the
declared exceptions; it happens once, whether it succeeds or not, and a finalized
method can no longer be changed.

Every change of code goes through `onCode`, which refuses it for a method without
code first, and for a finalized method next. Changes that also add constants ask
`checkCode` before they touch the pool, so a refused change leaves it alone. -/

namespace JvmAsm

/-- A method of a class. -/
structure Method where
  name : UnqualifiedName
  descriptor : MethodDescriptor
  flags : AccessFlags .method
  nameEntry : Entry
  descriptorEntry : Entry
  code : Option Code
  /-- The exceptions it declares, without repetition. -/
  throws : List Entry
  attributes : Attributes
  finalized : Bool
  deriving DecidableEq

namespace Method

/-- Changes of a method and the pool. -/
abbrev Action := MemberAction Method

/-- Declares a method. -/
def declare (name : UnqualifiedName) (descriptor : MethodDescriptor) (flags : AccessFlags .method)
    (inInterface : Bool) : Pool.Action Method :=
  match flags.check with
  | .error cause => Attempt.fail (.illegalAccessFlags cause)
  | .ok flags =>
    let slots := descriptor.slots (!flags.intersects Flag.static)
    if maxParameterSlots < slots then
      Attempt.fail (.invalidDescriptor (.tooManySlots descriptor.render slots))
    else do
      let nameEntry ← Pool.addUtf8 name.text
      let descriptorEntry ← Pool.addUtf8 descriptor.render
      let hasCode := !inInterface && !flags.intersects (Flag.abstract ||| Flag.native)
      let code := if hasCode then some (Code.empty (UInt16.ofNat slots)) else none
      return ⟨name, descriptor, flags, nameEntry, descriptorEntry, code, [], .empty, false⟩

instance : Inhabited Method :=
  ⟨⟨.main, default, ⟨0⟩, default, default, none, [], .empty, false⟩⟩

/-- Number of instructions. -/
def length (method : Method) : Nat := (method.code.map Code.length).getD 0

/-! ## Finalizing -/

/-- Puts an attribute into the method's container. -/
def putAttribute (name : String) (value : AttributeValue) : Action Unit := fun (method, pool) =>
  match method.attributes.add name value pool with
  | .ok attributes pool => .ok () ({ method with attributes }, pool)
  | .error e pool => .error e (method, pool)

/-- Assembles the code, if there is any, into its attribute. -/
def assembleCode : Action Unit := fun (method, pool) =>
  match method.code with
  | none => .ok () (method, pool)
  | some code =>
    match code.assemble pool with
    | .error e => .error e (method, pool)
    | .ok payload => putAttribute codeName (.bytes (serialize payload).contents) (method, pool)

/-- Turns the declared exceptions, if there are any, into an attribute. -/
def declareThrows : Action Unit := fun (method, pool) =>
  if method.throws.isEmpty then
    .ok () (method, pool)
  else
    match method.throws.mapM pool.index with
    | .error e => .error e (method, pool)
    | .ok indices =>
      putAttribute exceptionsName (.bytes (serialize (Exceptions.mk indices)).contents)
        (method, pool)

/-- Makes the attributes of code and declared exceptions. Only the first call does
anything, even if it fails. -/
def finalize : Action Unit := fun (method, pool) =>
  if method.finalized then
    .ok () (method, pool)
  else
    (do assembleCode; declareThrows) ({ method with finalized := true }, pool)

/-! ## Changing -/

/-- Performs a change of the code. -/
def onCode {α : Type} (action : Code.Action α) : Action α := fun (method, pool) =>
  match method with
  | ⟨name, descriptor, flags, nameEntry, descriptorEntry, some code, throws, attributes, false⟩ =>
    match action code with
    | .ok a code =>
      .ok a (⟨name, descriptor, flags, nameEntry, descriptorEntry, some code, throws,
        attributes, false⟩, pool)
    | .error e code =>
      .error e (⟨name, descriptor, flags, nameEntry, descriptorEntry, some code, throws,
        attributes, false⟩, pool)
  | method =>
    match method.code with
    | none => .error .methodHasNoCode (method, pool)
    | some _ => .error .memberFinalized (method, pool)

/-- Fails unless the code can be changed. -/
def checkCode : Action Unit := onCode (pure ())

/-- Performs a change that a finalized method refuses. -/
def whileOpen {α : Type} (action : Action α) : Action α := fun (method, pool) =>
  if method.finalized then .error .memberFinalized (method, pool) else action (method, pool)

/-- Pushes a constant, at the end of the code or in place of an instruction, and
answers the position. -/
def push (constant : Constant) (position : Option Nat) : Action Nat := do
  checkCode
  let instruction ← MemberAction.onPool (Instruction.push constant)
  onCode (match position with
    | none => Code.append instruction
    | some position => do
      Code.set position instruction
      return position)

/-- Adds an exception handler for a class, or for everything. -/
def addHandler (start stop handler : Target) (catchName : Option BinaryName) : Action Unit := do
  checkCode
  let catchType ← match catchName with
    | none => pure none
    | some name => some <$> MemberAction.onPool (Pool.addClass name)
  onCode (Code.addHandler { start, stop, handler, catchType })

/-- Declares an exception. -/
def addThrows (exception : BinaryName) : Action Unit := whileOpen do
  let entry ← MemberAction.onPool (Pool.addClass exception)
  fun (method, pool) =>
    if method.throws.contains entry then
      .ok () (method, pool)
    else
      .ok () ({ method with throws := method.throws ++ [entry] }, pool)

/-- Adds an attribute inside the code attribute. -/
def addCodeAttribute (name : String) (value : AttributeValue) : Action Unit := do
  checkCode
  fun (method, pool) =>
    match method.code with
    | none => .error .methodHasNoCode (method, pool)
    | some code =>
      match code.attributes.add name value pool with
      | .ok attributes pool => .ok () ({ method with code := some { code with attributes } }, pool)
      | .error e pool => .error e (method, pool)

/-- One change of a method. -/
inductive Edit where
  | code (edit : Code.Edit)
  | push (constant : Constant) (position : Option Nat)
  | addHandler (start stop handler : Target) (catchName : Option BinaryName)
  | addThrows (exception : BinaryName)
  | addAttribute (name : String) (value : AttributeValue)
  | addCodeAttribute (name : String) (value : AttributeValue)
  /-- A constant for later use as an operand. -/
  | intern (constant : Constant)
  deriving DecidableEq

namespace Edit

/-- Performs an edit. -/
def perform : Edit → Action Reply
  | code edit => onCode edit.perform
  | push constant position => do return .position (← Method.push constant position)
  | addHandler start stop handler catchName => do
    Method.addHandler start stop handler catchName
    return .done
  | addThrows exception => do Method.addThrows exception; return .done
  | addAttribute name value => whileOpen do putAttribute name value; return .done
  | addCodeAttribute name value => do Method.addCodeAttribute name value; return .done
  | intern constant => do return .entry (← MemberAction.onPool (Pool.add constant))

end Edit

/-- Writes the method. -/
def write (method : Method) (pool : Pool) : Writer := do
  serialize method.flags
  pool.writeIndex method.nameEntry
  pool.writeIndex method.descriptorEntry
  method.attributes.write pool

end Method

end JvmAsm
