import JvmAsm.Proofs.Linking

/-! # Which constants an opcode takes

The library decides by the form of an opcode whether a constant suits it.  The
instruction set says it opcode by opcode, in terms of the tags that stand in a class
file.  Both say the same: `Opcode.suits_iff`. -/

namespace JvmAsm

/-- The tags of the constants that may follow an opcode. -/
def operandTags (opcode : Nat) : List Nat :=
  if opcode = 0x12 ∨ opcode = 0x13 then [3, 4, 7, 8]      -- ldc, ldc_w
  else if opcode = 0x14 then [5, 6]                       -- ldc2_w
  else if 0xb2 ≤ opcode ∧ opcode ≤ 0xb5 then [9]          -- getstatic to putfield
  else if opcode = 0xb6 then [10]                         -- invokevirtual
  else if opcode = 0xb7 ∨ opcode = 0xb8 then [10, 11]     -- invokespecial, invokestatic
  else if opcode = 0xb9 then [11]                         -- invokeinterface
  else if opcode ∈ [0xbb, 0xbd, 0xc0, 0xc1] then [7]      -- new, anewarray, checkcast, instanceof
  else []

theorem Constant.isNarrowLoadable_iff (constant : Constant) :
    constant.isNarrowLoadable = true ↔ constant.tag.toNat ∈ [3, 4, 7, 8] := by
  cases constant <;> simp [isNarrowLoadable, tag]

theorem Constant.isWideLoadable_iff (constant : Constant) :
    constant.isWideLoadable = true ↔ constant.tag.toNat ∈ [5, 6] := by
  cases constant <;> simp [isWideLoadable, tag]

namespace Opcode

/-- The tags by the form of the opcode. -/
def tags (opcode : Opcode) : List Nat :=
  match opcode.form with
  | .narrowConstant => [3, 4, 7, 8]
  | .wideConstant => if opcode = ldc2W then [5, 6] else [3, 4, 7, 8]
  | .fieldRef => [9]
  | .methodRef => if opcode = invokevirtual then [10] else [10, 11]
  | .classRef => [7]
  | .interfaceMethod => [11]
  | _ => []

/-- **The library's table agrees with the instruction set**, opcode by opcode. -/
theorem operandTags_toNat (opcode : Opcode) : operandTags opcode.toNat = opcode.tags := by
  revert opcode
  refine forall_of_lt ?_
  decide +kernel

attribute [local irreducible] Opcode.form

/-- **A constant suits an opcode if its tag is one of those that may follow.** -/
theorem suits_iff (opcode : Opcode) (constant : Constant) :
    opcode.suits constant = true ↔ constant.tag.toNat ∈ operandTags opcode.toNat := by
  rw [operandTags_toNat]
  unfold suits tags
  cases opcode.form with
  | narrowConstant => exact constant.isNarrowLoadable_iff
  | wideConstant =>
    by_cases wide : opcode = ldc2W
    · simp only [if_pos wide]
      exact constant.isWideLoadable_iff
    · simp only [if_neg wide]
      exact constant.isNarrowLoadable_iff
  | methodRef =>
    by_cases virtual : opcode = invokevirtual <;> cases constant <;> simp [virtual, Constant.tag]
  | fieldRef | classRef | interfaceMethod => cases constant <;> simp [Constant.tag]
  | _ => simp

end Opcode

end JvmAsm
