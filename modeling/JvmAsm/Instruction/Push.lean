import JvmAsm.Instruction.Basic
import JvmAsm.Pool.Basic

/-! # Pushing constants

The shortest instruction that pushes a constant. Small numbers have instructions
of their own or fit into the operand; only what cannot be written inline goes
into the pool. Floating point values are told apart by their bits, so a negative
zero is loaded from the pool. -/

namespace JvmAsm.Instruction

/-- An instruction without operand. -/
def plain {τ κ : Type} (opcode : Opcode) : Instruction τ κ := ⟨opcode, .none⟩

/-- Loads a constant from the pool. -/
def load (opcode : Opcode) (constant : Constant) : Pool.Action SourceInstruction := do
  let entry ← Pool.add constant
  return ⟨opcode, .constant entry⟩

/-- Pushes an `int`. -/
def pushInt (value : Int32) : Pool.Action SourceInstruction :=
  if -1 ≤ value.toInt ∧ value.toInt ≤ 5 then
    pure (plain (UInt8.ofNat (Opcode.iconst0.toNat + value.toInt).toNat))
  else if -128 ≤ value.toInt ∧ value.toInt ≤ 127 then
    pure ⟨Opcode.bipush, .int value⟩
  else if -32768 ≤ value.toInt ∧ value.toInt ≤ 32767 then
    pure ⟨Opcode.sipush, .int value⟩
  else
    load Opcode.ldc (.integer value)

/-- Pushes a `long`. -/
def pushLong (value : Int64) : Pool.Action SourceInstruction :=
  if value = 0 then pure (plain Opcode.lconst0)
  else if value = 1 then pure (plain Opcode.lconst1)
  else load Opcode.ldc2W (.long value)

/-- Pushes a `float`, given as its bits. -/
def pushFloat (bits : UInt32) : Pool.Action SourceInstruction :=
  if bits = 0 then pure (plain Opcode.fconst0)
  else if bits = 0x3f800000 then pure (plain Opcode.fconst1)
  else if bits = 0x40000000 then pure (plain Opcode.fconst2)
  else load Opcode.ldc (.float bits)

/-- Pushes a `double`, given as its bits. -/
def pushDouble (bits : UInt64) : Pool.Action SourceInstruction :=
  if bits = 0 then pure (plain Opcode.dconst0)
  else if bits = 0x3ff0000000000000 then pure (plain Opcode.dconst1)
  else load Opcode.ldc2W (.double bits)

/-- Pushes a constant. A constant that no instruction loads is refused only when
the code is assembled. -/
def push : Constant → Pool.Action SourceInstruction
  | .integer value => pushInt value
  | .long value => pushLong value
  | .float bits => pushFloat bits
  | .double bits => pushDouble bits
  | constant => load Opcode.ldc constant

end JvmAsm.Instruction

/-! ## Which form is chosen -/

namespace JvmAsm

/-- There are instructions that push the constant without the pool.  The floating point numbers
among them are 0, 1 and, of the short ones, 2. -/
def Constant.Inline : Constant → Prop
  | .integer value => -32768 ≤ value.toInt ∧ value.toInt ≤ 32767
  | .long value => value = 0 ∨ value = 1
  | .float bits => bits = 0 ∨ bits = 0x3f800000 ∨ bits = 0x40000000
  | .double bits => bits = 0 ∨ bits = 0x3ff0000000000000
  | _ => False

/-- The instruction that loads the constant from the pool. -/
def Constant.loader (constant : Constant) : Opcode :=
  if constant.isWideLoadable then Opcode.ldc2W else Opcode.ldc

namespace Instruction

/-- The instructions that push constants without the pool. -/
inductive Inlined : Constant → SourceInstruction → Prop
  | small {value : Int32} (range : -1 ≤ value.toInt ∧ value.toInt ≤ 5) :
    Inlined (.integer value) (plain (UInt8.ofNat (3 + value.toInt).toNat))
  | byte {value : Int32} (range : -128 ≤ value.toInt ∧ value.toInt ≤ 127) :
    Inlined (.integer value) ⟨Opcode.bipush, .int value⟩
  | short {value : Int32} (range : -32768 ≤ value.toInt ∧ value.toInt ≤ 32767) :
    Inlined (.integer value) ⟨Opcode.sipush, .int value⟩
  | long0 : Inlined (.long 0) (plain Opcode.lconst0)
  | long1 : Inlined (.long 1) (plain Opcode.lconst1)
  | float0 : Inlined (.float 0) (plain Opcode.fconst0)
  | float1 : Inlined (.float 0x3f800000) (plain Opcode.fconst1)
  | float2 : Inlined (.float 0x40000000) (plain Opcode.fconst2)
  | double0 : Inlined (.double 0) (plain Opcode.dconst0)
  | double1 : Inlined (.double 0x3ff0000000000000) (plain Opcode.dconst1)

/-- **Every constant is pushed inline if that is possible**, and from the pool otherwise. -/
theorem push_spec (constant : Constant) :
    constant.Inline ∧ (∃ instruction, push constant = pure instruction ∧
      Inlined constant instruction) ∨
      ¬ constant.Inline ∧ push constant = load constant.loader constant := by
  cases constant with
  | integer value =>
    unfold push pushInt
    by_cases tiny : -1 ≤ value.toInt ∧ value.toInt ≤ 5
    · exact .inl ⟨⟨by omega, by omega⟩, _, if_pos tiny, .small tiny⟩
    · by_cases byte : -128 ≤ value.toInt ∧ value.toInt ≤ 127
      · exact .inl ⟨⟨by omega, by omega⟩, _, (if_neg tiny).trans (if_pos byte), .byte byte⟩
      · by_cases short : -32768 ≤ value.toInt ∧ value.toInt ≤ 32767
        · exact .inl ⟨short, _, (if_neg tiny).trans ((if_neg byte).trans (if_pos short)),
            .short short⟩
        · exact .inr ⟨short, (if_neg tiny).trans ((if_neg byte).trans (if_neg short))⟩
  | long value =>
    unfold push pushLong
    by_cases zero : value = 0
    · subst zero
      exact .inl ⟨.inl rfl, _, rfl, .long0⟩
    · by_cases one : value = 1
      · subst one
        exact .inl ⟨.inr rfl, _, rfl, .long1⟩
      · exact .inr ⟨not_or.mpr ⟨zero, one⟩, (if_neg zero).trans (if_neg one)⟩
  | float bits =>
    unfold push pushFloat
    by_cases zero : bits = 0
    · subst zero
      exact .inl ⟨.inl rfl, _, rfl, .float0⟩
    · by_cases one : bits = 0x3f800000
      · subst one
        exact .inl ⟨.inr (.inl rfl), _, rfl, .float1⟩
      · by_cases two : bits = 0x40000000
        · subst two
          exact .inl ⟨.inr (.inr rfl), _, rfl, .float2⟩
        · exact .inr ⟨not_or.mpr ⟨zero, not_or.mpr ⟨one, two⟩⟩,
            (if_neg zero).trans ((if_neg one).trans (if_neg two))⟩
  | double bits =>
    unfold push pushDouble
    by_cases zero : bits = 0
    · subst zero
      exact .inl ⟨.inl rfl, _, rfl, .double0⟩
    · by_cases one : bits = 0x3ff0000000000000
      · subst one
        exact .inl ⟨.inr rfl, _, rfl, .double1⟩
      · exact .inr ⟨not_or.mpr ⟨zero, one⟩, (if_neg zero).trans (if_neg one)⟩
  | utf8 _ | refType _ | string _ | fieldRef _ | methodRef _ | interfaceMethodRef _
  | nameAndType _ => exact .inr ⟨id, rfl⟩

end Instruction

end JvmAsm
