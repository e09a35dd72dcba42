import JvmAsm.Code.Link

/-! # Layout

Where each instruction starts. The length of a switch depends on where it stands,
since its operand is brought to a multiple of four, and the length of a jump on
how far it goes: `goto` and `jsr` have a short and a wide form, conditional
branches only a short one.

Both are settled without a search. First every instruction gets the greatest
length it can have (all `goto` and `jsr` wide, all padding three bytes), and a jump
that reaches its target under those lengths stays short. Then the real lengths are
laid out. Real starts are never further apart than the greatest ones, so a jump
that was left short still reaches its target. -/

namespace JvmAsm

/-- Bytes that bring the operand of a switch at `offset` to a multiple of four. -/
def switchPadding (offset : Nat) : Nat := (4 - (offset + 1) % 4) % 4

/-- A displacement fits two bytes. -/
def fitsShort (displacement : Int) : Bool :=
  decide (-32768 ≤ displacement) && decide (displacement ≤ 32767)

namespace Instruction

variable {τ κ : Type}

/-- The greatest length the instruction can have. -/
def maxLength (instruction : Instruction τ κ) : Nat :=
  if instruction.opcode.widened?.isSome then 5 else instruction.length 3

/-- The length of the instruction at an offset. -/
def lengthAt (offset : Nat) (instruction : Instruction τ κ) : Nat :=
  instruction.length (switchPadding offset)

end Instruction

/-- Instructions with their final opcodes, and where they start. -/
structure Layout where
  instructions : List LinkedInstruction
  /-- The start of every instruction, and then the end of the last. -/
  starts : Array Nat
  deriving DecidableEq

namespace Layout

/-- The starts of instructions laid one after the other from `offset` on, behind
starts already known. A length may depend on the start. -/
def startsFrom {α : Type} (length : Nat → α → Nat) :
    (offset : Nat) → (known : Array Nat) → List α → Array Nat
  | offset, known, [] => known.push offset
  | offset, known, instruction :: rest =>
    startsFrom length (offset + length offset instruction) (known.push offset) rest

/-- The starts of instructions laid one after the other, and the end of the last. -/
def startsOf {α : Type} (length : Nat → α → Nat) (instructions : List α) : Array Nat :=
  startsFrom length 0 #[] instructions

/-- How far it is from one instruction to another. -/
def displacement (starts : Array Nat) (source target : Nat) : Int :=
  (starts.getD target 0 : Int) - (starts.getD source 0 : Int)

/-- Takes the wide form of a jump that may not reach its target otherwise. -/
def widen (starts : Array Nat) (position : Nat) (instruction : LinkedInstruction) :
    LinkedInstruction :=
  match instruction.operand, instruction.opcode.widened? with
  | .branch target, some wide =>
    if fitsShort (displacement starts position target) then instruction
    else ⟨wide, instruction.operand⟩
  | _, _ => instruction

/-- Lays out linked instructions. -/
def ofLinked (linked : List LinkedInstruction) : Layout :=
  let reach := startsOf (fun _ => Instruction.maxLength) linked
  let instructions := linked.zipIdx.map fun (instruction, position) =>
    widen reach position instruction
  ⟨instructions, startsOf Instruction.lengthAt instructions⟩

/-- The start of an instruction. -/
def start (layout : Layout) (position : Nat) : Nat := layout.starts.getD position 0

/-- The length of the code. -/
def length (layout : Layout) : Nat := layout.start layout.instructions.length

end Layout

end JvmAsm
