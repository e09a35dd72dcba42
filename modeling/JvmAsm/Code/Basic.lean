import JvmAsm.Attribute.Basic
import JvmAsm.Instruction.Basic

/-! # Code under construction

The instructions of one method, addressed by position. A label is a name for a
position: it is handed out fresh, or simply used, and later placed in front of the
next instruction. Labels may be used as targets before they are placed; what they
stand for is settled only when the code is assembled. -/

namespace JvmAsm

/-- An exception handler, its range still given by positions and labels. -/
structure Handler where
  /-- The first instruction covered. -/
  start : Target
  /-- The first instruction no longer covered; it may be the end of the code. -/
  stop : Target
  /-- Where an exception is handled. -/
  handler : Target
  /-- The class of exceptions caught; without one, all are. -/
  catchType : Option Entry
  deriving DecidableEq, Repr

/-- The code of a method. -/
structure Code where
  instructions : Array SourceInstruction
  /-- The position of every label that was placed. -/
  labels : Array (Option Nat)
  handlers : Array Handler
  maxStack : UInt16
  maxLocals : UInt16
  /-- Attributes inside the code attribute. -/
  attributes : Attributes
  deriving DecidableEq

/-- The operand stack depth of code that does not say otherwise. -/
def defaultMaxStack : UInt16 := 16

namespace Code

/-- Code without instructions. -/
def empty (maxLocals : UInt16) : Code := ⟨#[], #[], #[], defaultMaxStack, maxLocals, .empty⟩

instance : Inhabited Code := ⟨empty 0⟩

/-- Changes of code. -/
abbrev Action := Attempt Error Code

/-- Number of instructions. -/
def length (code : Code) : Nat := code.instructions.size

/-- Adds an instruction at the end and answers its position. -/
def append (instruction : SourceInstruction) : Action Nat := fun code =>
  match code with
  | ⟨instructions, labels, handlers, maxStack, maxLocals, attributes⟩ =>
    let position := instructions.size
    .ok position ⟨instructions.push instruction, labels, handlers, maxStack, maxLocals, attributes⟩

/-- Replaces the instruction at a position. -/
def set (position : Nat) (instruction : SourceInstruction) : Action Unit := fun code =>
  match code with
  | ⟨instructions, labels, handlers, maxStack, maxLocals, attributes⟩ =>
    if position < instructions.size then
      .ok () ⟨instructions.setIfInBounds position instruction, labels, handlers, maxStack,
        maxLocals, attributes⟩
    else
      .error (.invalidPosition position)
        ⟨instructions, labels, handlers, maxStack, maxLocals, attributes⟩

/-- A label that no one has used: the first beyond those in the table. -/
def freshLabel : Action Label := fun code =>
  match code with
  | ⟨instructions, labels, handlers, maxStack, maxLocals, attributes⟩ =>
    let label : Label := ⟨labels.size⟩
    .ok label ⟨instructions, labels.push none, handlers, maxStack, maxLocals, attributes⟩

/-- Where a label was placed. -/
def placed? (code : Code) (label : Label) : Option Nat := (code.labels[label.id]?).join

/-- The table of labels with room for a label. -/
def makeRoom (label : Label) (labels : Array (Option Nat)) : Array (Option Nat) :=
  labels ++ Array.replicate (label.id + 1 - labels.size) none

/-- Places a label in front of the next instruction. A label can be placed once. -/
def placeLabel (label : Label) : Action Unit := fun code =>
  match code.placed? label with
  | some _ => .error (.duplicateLabel label) code
  | none =>
    match code with
    | ⟨instructions, labels, handlers, maxStack, maxLocals, attributes⟩ =>
      let position := instructions.size
      .ok () ⟨instructions, (makeRoom label labels).setIfInBounds label.id (some position),
        handlers, maxStack, maxLocals, attributes⟩

/-- Adds an exception handler. -/
def addHandler (handler : Handler) : Action Unit := fun code =>
  match code with
  | ⟨instructions, labels, handlers, maxStack, maxLocals, attributes⟩ =>
    .ok () ⟨instructions, labels, handlers.push handler, maxStack, maxLocals, attributes⟩

/-- The position a target stands for. -/
def resolve (code : Code) : Target → Except Error Nat
  | .position position => .ok position
  | .label label =>
    match code.placed? label with
    | some position => .ok position
    | none => .error (.unplacedLabel label)

/-- The position of an instruction that another one, or a handler, jumps to. -/
def branchTarget (code : Code) (instruction : Nat) (target : Target) : Except Error Nat := do
  let position ← code.resolve target
  if position < code.length then
    .ok position
  else
    .error (.invalidBranchTarget instruction position)

end Code

end JvmAsm
