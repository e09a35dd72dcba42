import JvmAsm.Constant
import JvmAsm.Error
import JvmAsm.Opcode

/-! # Instructions

An instruction is an opcode with an operand. Operands are typed by what they
point at: `τ` is the type of branch targets and `κ` the type of references to
constants. Code under construction has targets that may be labels and constants
that are pool entries; linking replaces both by positions and indices; and a
reader of encoded code sees displacements and indices. It is the same shape each
time, so what depends on the shape alone (which operands fit an opcode, how long
an instruction is) is said once, for all `τ` and `κ`. -/

namespace JvmAsm

/-- Where a branch, a switch case or the range of an exception handler points. -/
inductive Target where
  /-- The instruction at a position, counted from 0. -/
  | position (position : Nat)
  /-- The instruction a label is placed at. -/
  | label (label : Label)
  deriving DecidableEq, Repr

namespace Target

/-- How reports spell the target. -/
def describe : Target → String
  | position n => Text.case "Position" [toString n]
  | label l => Text.case "Label" [l.describe]

end Target

/-- The cases of a switch. -/
inductive SwitchTable (τ : Type) where
  /-- A target for every value from `low` on. -/
  | table (low : Int32) (targets : List τ) (fallback : τ)
  /-- A target for every key; keys ascend. -/
  | lookup (pairs : List (Int32 × τ)) (fallback : τ)
  deriving DecidableEq, Repr

namespace SwitchTable

variable {τ υ : Type}

/-- Where the switch goes if no case applies. -/
def fallbackTarget : SwitchTable τ → τ
  | table _ _ fallback => fallback
  | lookup _ fallback => fallback

/-- The targets of the cases, in order. -/
def caseTargets : SwitchTable τ → List τ
  | table _ targets _ => targets
  | lookup pairs _ => pairs.map Prod.snd

/-- All targets, the one for no case first. -/
def targets (cases : SwitchTable τ) : List τ :=
  cases.fallbackTarget :: cases.caseTargets

/-- Replaces every target, the one for no case first. -/
def mapM {m : Type → Type} [Monad m] (f : τ → m υ) : SwitchTable τ → m (SwitchTable υ)
  | table low targets fallback => do
    let fallback ← f fallback
    let targets ← targets.mapM f
    return table low targets fallback
  | lookup pairs fallback => do
    let fallback ← f fallback
    let pairs ← pairs.mapM fun (key, target) => do return (key, ← f target)
    return lookup pairs fallback

/-- Bytes of the operand, given how many bring it to a multiple of four. -/
def operandLength (padding : Nat) : SwitchTable τ → Nat
  | table _ targets _ => padding + 12 + 4 * targets.length
  | lookup pairs _ => padding + 8 + 8 * pairs.length

/-- How reports spell the cases. -/
def describe : SwitchTable Target → String
  | table low targets fallback =>
    Text.record "Table" [("low", toString low.toInt),
      ("targets", Text.brackets (targets.map Target.describe)), ("default", fallback.describe)]
  | lookup pairs fallback =>
    Text.record "Lookup"
      [("pairs", Text.brackets (pairs.map fun (key, target) =>
          Text.case "" [toString key.toInt, target.describe])),
        ("default", fallback.describe)]

end SwitchTable

/-- What an opcode is applied to. -/
inductive Operand (τ κ : Type) where
  | none
  /-- A number, or the index of a local variable. -/
  | int (value : Int32)
  /-- A constant of the pool. -/
  | constant (reference : κ)
  | branch (target : τ)
  /-- The index of a local variable and what is added to it. -/
  | increment (index : UInt32) (delta : Int32)
  | switch (cases : SwitchTable τ)
  deriving DecidableEq, Repr

namespace Operand

variable {τ κ : Type}

/-- The operand has the shape that a form asks for. -/
def fits : OperandForm → Operand τ κ → Bool
  | .plain, none => true
  | .localIndex, int _ | .signedByte, int _ | .signedShort, int _ | .arrayType, int _ => true
  | .narrowConstant, constant _ | .wideConstant, constant _ | .fieldRef, constant _
  | .methodRef, constant _ | .classRef, constant _ | .interfaceMethod, constant _ => true
  | .branch, branch _ | .wideBranch, branch _ => true
  | .increment, increment _ _ => true
  | .tableSwitch, switch (.table ..) => true
  | .lookupSwitch, switch (.lookup ..) => true
  | _, _ => false

/-- How reports spell the operand. -/
def describe : Operand Target Entry → String
  | none => "None"
  | int value => Text.case "Int" [toString value.toInt]
  | constant entry => Text.case "Constant" [entry.describe]
  | branch target => Text.case "Branch" [target.describe]
  | increment index delta =>
    Text.record "IInc" [("index", toString index.toNat), ("delta", toString delta.toInt)]
  | switch cases => Text.case "Switch" [cases.describe]

end Operand

/-- An opcode with its operand. -/
structure Instruction (τ κ : Type) where
  opcode : Opcode
  operand : Operand τ κ
  deriving DecidableEq, Repr

namespace Instruction

variable {τ κ : Type}

/-- The operand is of the opcode's form. -/
def operandMatches (instruction : Instruction τ κ) : Bool :=
  instruction.operand.fits instruction.opcode.form

/-- Bytes of the instruction, given how many bring the operand of a switch to a
multiple of four. -/
def length (padding : Nat) (instruction : Instruction τ κ) : Nat :=
  1 + match instruction.operand with
    | .switch cases => cases.operandLength padding
    | _ => instruction.opcode.form.fixedLength?.getD 0

end Instruction

/-- An instruction of code under construction. -/
abbrev SourceInstruction := Instruction Target Entry

end JvmAsm
