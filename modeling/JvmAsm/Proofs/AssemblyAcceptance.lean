import JvmAsm.Proofs.AssemblyRoundTrip
import JvmAsm.Proofs.JumpReach
import JvmAsm.Proofs.OperandKinds
import JvmAsm.Proofs.PoolPermanence
import Mathlib.Order.Basic

/-! # What the assembler accepts

Assembly is a long sequence of checks, made in an order that has its own reasons, and the
checks of one step are made on what the steps before it have produced.  This module says
what all of them together ask for, in terms of the code alone (`Code.Acceptable`), and proves
that nothing else is asked: code is assembled if and only if it is acceptable.

The conditions fall into those of linking (`Code.Linkable`), those of encoding
(`Code.Encodable`), and those on the final layout (`Code.Fits`).  Two checks of the assembler
have no condition of their own, since they cannot fail.  A short jump always reaches its
target (`Layout.jump_fits`), which leaves conditional branches; and the index of a load
always has room, since a load whose index does not fit one byte was given its wide form. -/

namespace JvmAsm

open Check (Passes passes_bind passes_bind_of_iff passes_ite_error passes_error_ite passes_mapM
  passes_mapM_zipIdx)

attribute [local irreducible] Opcode.form

/-! ## The conditions -/

/-- The pool has a constant for the entry. -/
def Pool.Has (pool : Pool) (entry : Entry) : Prop :=
  ∃ constant, pool.constant? entry = some constant

namespace OperandShape

variable {τ κ : Type}

/-- The operands that can follow an opcode in this shape. -/
def Admits : OperandShape → Operand τ κ → Prop
  | nothing, .none => True
  | unsignedByte, .int _ | signedByte, .int _ | signedShort, .int _ => True
  | narrowIndex, .constant _ | index, .constant _ | interfaceMethod, .constant _ => True
  | branch, .branch _ | wideBranch, .branch _ => True
  | increment, .increment _ _ => True
  | tableSwitch, .switch (.table ..) | lookupSwitch, .switch (.lookup ..) => True
  | _, _ => False

/-- The numbers that there is room for in an operand of this shape. -/
def Holds : OperandShape → Int → Prop
  | unsignedByte, n => 0 ≤ n ∧ n ≤ 255
  | signedByte, n => -128 ≤ n ∧ n ≤ 127
  | signedShort, n => -32768 ≤ n ∧ n ≤ 32767
  | _, _ => True

end OperandShape

/-- A branch with one form only, in two bytes: `ifeq` to `if_acmpne`, `ifnull` and `ifnonnull`. -/
def Opcode.IsConditional (opcode : Opcode) : Prop :=
  0x99 ≤ opcode.toNat ∧ opcode.toNat ≤ 0xa6 ∨ opcode.toNat = 0xc6 ∨ opcode.toNat = 0xc7

instance : DecidablePred Opcode.IsConditional :=
  fun opcode => inferInstanceAs (Decidable (_ ∧ opcode.toNat ≤ _ ∨ _ ∨ _))

/-- The targets in an operand. -/
def Operand.targets {τ κ : Type} : Operand τ κ → List τ
  | .branch target => [target]
  | .switch cases => cases.targets
  | _ => []

/-- The keys of a switch are numbers of 32 bits and in order. -/
def SwitchTable.Ordered {τ : Type} : SwitchTable τ → Prop
  | .table low targets _ => targets ≠ [] ∧ low.toInt + targets.length - 1 ≤ 2147483647
  | .lookup pairs _ => (pairs.map fun pair => pair.1.toInt).Pairwise (· < ·)

namespace Code

/-- The target stands for an instruction of the code. -/
def Reaches (code : Code) (target : Target) : Prop :=
  ∃ place, code.resolve target = .ok place ∧ place < code.length

/-- **What an instruction needs to be linked.** -/
@[mk_iff]
structure Linkable (code : Code) (pool : Pool) (source : SourceInstruction) : Prop where
  /-- The opcode is one that is read, and the operand is of its kind. -/
  kind : ∃ shape, operandShape? source.opcode.toNat = some shape ∧ shape.Admits source.operand
  targets : ∀ target ∈ source.operand.targets, code.Reaches target
  cases : ∀ cases, source.operand = .switch cases → cases.Ordered
  /-- A constant is in the pool, and of a kind that the opcode takes. -/
  constant : ∀ entry, source.operand = .constant entry → ∃ constant,
    pool.constant? entry = some constant ∧ constant.tag.toNat ∈ operandTags source.opcode.toNat

/-- **What an operand needs to have room in its instruction**, apart from displacements. -/
@[mk_iff]
structure Encodable (pool : Pool) (source : SourceInstruction) : Prop where
  number : ∀ value, source.operand = .int value →
    ∀ shape, operandShape? source.opcode.toNat = some shape → shape.Holds value.toInt
  increment : ∀ index delta, source.operand = .increment index delta →
    index.toNat ≤ 255 ∧ -128 ≤ delta.toInt ∧ delta.toInt ≤ 127
  /-- The descriptor of an interface method can be read, and its argument slots, the receiver
  included, can be counted in one byte. -/
  call : ∀ entry, source.opcode.toNat = 0xb9 → source.operand = .constant entry →
    ∃ slots, pool.CallTakes entry slots ∧ slots ≤ 255

/-- The layout is that of the linked code. -/
def LaidOutAs (code : Code) (pool : Pool) (layout : Layout) : Prop :=
  ∃ linked, code.link pool = .ok linked ∧ layout = .ofLinked linked

/-- The final displacement of the instruction at a position fits, if it is a conditional branch. -/
def ConditionalFits (code : Code) (layout : Layout) (position : Nat) (source : SourceInstruction) :
    Prop :=
  ∀ target place, source.opcode.IsConditional → source.operand = .branch target →
    code.resolve target = .ok place →
    -32768 ≤ Layout.displacement layout.starts position place ∧
      Layout.displacement layout.starts position place ≤ 32767

/-- **What is asked of the final layout.** -/
structure Fits (code : Code) (layout : Layout) : Prop where
  length : layout.length ≤ 65535
  branches : ∀ (position : Nat) source, code.instructions[position]? = some source →
    code.ConditionalFits layout position source

/-- **What is asked of an exception handler.** -/
structure Handles (code : Code) (pool : Pool) (handler : Handler) : Prop where
  range : ∃ start stop, code.resolve handler.start = .ok start ∧
    code.resolve handler.stop = .ok stop ∧ start < stop ∧ stop ≤ code.length
  target : code.Reaches handler.handler
  catchType : ∀ entry, handler.catchType = some entry → pool.Has entry

/-- **What the assembler asks for.** -/
structure Acceptable (code : Code) (pool : Pool) : Prop where
  linkable : ∀ source ∈ code.instructions.toList, code.Linkable pool source
  encodable : ∀ source ∈ code.instructions.toList, Encodable pool source
  fits : ∀ layout, code.LaidOutAs pool layout → code.Fits layout
  few : code.handlers.size ≤ 65535
  handlers : ∀ handler ∈ code.handlers.toList, code.Handles pool handler
  attributes : ∀ named ∈ code.attributes.entries, pool.Has named.entry ∧
    ∀ entry, named.value = .constant entry → pool.Has entry

end Code

/-! ## The conditions by the library's table

The instruction set says opcode by opcode what the library decides by the form of an opcode. -/

/-- The numbers that there is room for in an operand of the form. -/
def OperandForm.Holds : OperandForm → Int → Prop
  | .localIndex, n | .arrayType, n => 0 ≤ n ∧ n ≤ 255
  | .signedByte, n => -128 ≤ n ∧ n ≤ 127
  | .signedShort, n => -32768 ≤ n ∧ n ≤ 32767
  | _, _ => True

/-- The shape of a form admits what the form takes. -/
theorem OperandForm.admits_iff {τ κ : Type} {form : OperandForm} {shape : OperandShape}
    (h : form.shape? = some shape) (operand : Operand τ κ) :
    shape.Admits operand ↔ operand.fits form = true := by
  cases form <;> cases h
  all_goals
    cases operand with
    | switch cases =>
      cases cases <;> first | exact iff_of_true trivial rfl | exact iff_of_false id nofun
    | _ => first | exact iff_of_true trivial rfl | exact iff_of_false id nofun

theorem OperandForm.exists_shape? {form : OperandForm} (supported : form ≠ .unsupported) :
    ∃ shape, form.shape? = some shape := by
  cases form <;> first | exact ⟨_, rfl⟩ | exact absurd rfl supported

namespace Opcode

theorem supported_of_fits {τ κ : Type} {opcode : Opcode} {operand : Operand τ κ}
    (h : operand.fits opcode.form = true) : opcode.form ≠ .unsupported := by
  intro unsupported
  rw [unsupported] at h
  cases h

/-- **The library takes the operands that the instruction set has**, opcode by opcode. -/
theorem admits_iff {τ κ : Type} (opcode : Opcode) (operand : Operand τ κ) :
    (∃ shape, operandShape? opcode.toNat = some shape ∧ shape.Admits operand) ↔
      operand.fits opcode.form = true := by
  rw [operandShape?_toNat]
  constructor
  · rintro ⟨shape, found, admits⟩
    exact (OperandForm.admits_iff found operand).mp admits
  · intro fits
    obtain ⟨shape, found⟩ := OperandForm.exists_shape? (supported_of_fits fits)
    exact ⟨shape, found, (OperandForm.admits_iff found operand).mpr fits⟩

/-- **The library has room for the numbers that the instruction set has.** -/
theorem holds_iff (opcode : Opcode) (n : Int) :
    (∀ shape, operandShape? opcode.toNat = some shape → shape.Holds n) ↔ opcode.form.Holds n := by
  rw [operandShape?_toNat]
  cases opcode.form <;> simp [OperandForm.shape?, OperandShape.Holds, OperandForm.Holds]

theorem form_eq_interfaceMethod_iff (opcode : Opcode) :
    opcode.form = .interfaceMethod ↔ opcode.toNat = 0xb9 := by
  revert opcode
  refine forall_of_lt ?_
  decide +kernel

theorem isConditional_iff (opcode : Opcode) :
    opcode.IsConditional ↔ opcode.form = .branch ∧ opcode.widened? = none := by
  revert opcode
  refine forall_of_lt ?_
  decide +kernel

end Opcode

/-! ## Linking -/

theorem ascending_iff (keys : List Int32) :
    ascending keys = true ↔ (keys.map Int32.toInt).Pairwise (· < ·) := by
  rw [← List.isChain_iff_pairwise]
  induction keys with
  | nil => simp [ascending]
  | cons key keys ih =>
    cases keys with
    | nil => simp [ascending]
    | cons next keys =>
      rw [ascending, Bool.and_eq_true, ih, decide_eq_true_iff, Int32.lt_iff_toInt_lt]
      simp only [List.map_cons, List.isChain_cons_cons]

theorem SwitchTable.Related.ordered_iff {τ υ : Type} {target : τ → υ → Prop}
    {cases : SwitchTable τ} {cases' : SwitchTable υ} (h : cases.Related target cases') :
    cases'.Ordered ↔ cases.Ordered := by
  cases cases <;> cases cases' <;> try exact False.elim h
  case table.table low targets fallback low' targets' fallback' =>
    obtain ⟨rfl, -, htargets⟩ := h
    have nil : targets' = [] ↔ targets = [] := by
      rw [← List.length_eq_zero_iff, ← List.length_eq_zero_iff, htargets.length_eq]
    simp only [Ordered, Ne, nil, htargets.length_eq]
  case lookup.lookup pairs fallback pairs' fallback' =>
    obtain ⟨-, hpairs⟩ := h
    have keys : (pairs'.map fun pair => pair.1.toInt) = pairs.map fun pair => pair.1.toInt := by
      induction hpairs with
      | nil => rfl
      | cons head _ ih => rw [List.map_cons, List.map_cons, ih, head.1]
    simp only [Ordered, keys]

theorem SwitchTable.passes_mapM {ε τ υ : Type} {check : τ → Except ε υ} (cases : SwitchTable τ) :
    Passes (cases.mapM check) ↔ ∀ target ∈ cases.targets, Passes (check target) := by
  cases cases with
  | table low targets fallback =>
    rw [SwitchTable.mapM, passes_bind_of_iff fun _ _ => Check.passes_bind_pure _, Check.passes_mapM,
      SwitchTable.targets, List.forall_mem_cons]
    rfl
  | lookup pairs fallback =>
    rw [SwitchTable.mapM, passes_bind_of_iff fun _ _ => Check.passes_bind_pure _, Check.passes_mapM,
      SwitchTable.targets, List.forall_mem_cons]
    simp only [Check.passes_bind_pure, caseTargets, fallbackTarget, List.forall_mem_map]

namespace Code

variable {code : Code} {pool : Pool} {position : Nat}

theorem passes_checkCases {τ : Type} (cases : SwitchTable τ) :
    Passes (checkCases position cases) ↔ cases.Ordered := by
  cases cases with
  | table low targets fallback =>
    have unit : Passes (checkCases position (.table low targets fallback)) ↔
        checkCases position (.table low targets fallback) = .ok () :=
      ⟨fun ⟨⟨⟩, h⟩ => h, fun h => ⟨(), h⟩⟩
    rw [unit, checkCases_table, SwitchTable.Ordered]
    refine and_congr_right fun _ => ?_
    omega
  | lookup pairs fallback =>
    rw [checkCases, passes_ite_error, ascending_iff, List.map_map]
    exact and_iff_left (Check.passes_ok ())

theorem passes_branchTarget (target : Target) :
    Passes (code.branchTarget position target) ↔ code.Reaches target :=
  exists_congr fun _ => branchTarget_eq_ok

end Code

section

variable {code : Code} {pool : Pool} {position : Nat} (hpool : pool.Invariant)
  (settled : pool.state ≠ .growing)

include hpool settled

/-- Once indices are fixed, every entry of the pool has one. -/
theorem Pool.passes_index (entry : Entry) : Passes (pool.index entry) ↔ pool.Has entry := by
  constructor
  · rintro ⟨index, hindex⟩
    exact exists_constant?_of_index hindex
  · rintro ⟨constant, present⟩
    obtain ⟨index, hindex, -⟩ := index_of_constant? hpool settled present
    exact ⟨index, hindex⟩

namespace Code

theorem passes_linkConstant (opcode : Opcode) (entry : Entry) :
    Passes (linkConstant pool position opcode entry) ↔
      ∃ constant, pool.constant? entry = some constant ∧
        constant.tag.toNat ∈ operandTags opcode.toNat := by
  unfold linkConstant
  cases present : pool.constant? entry with
  | none => simp
  | some constant =>
    have known : Passes (pool.index entry) :=
      (Pool.passes_index hpool settled entry).mpr ⟨constant, present⟩
    simp only [Option.some.injEq, exists_eq_left']
    rw [passes_bind_of_iff fun _ _ => passes_ite_error.trans (and_iff_left (Check.passes_pure _)),
      Opcode.suits_iff]
    exact and_iff_right known

/-- **An instruction is linked if and only if it meets the conditions.** -/
theorem passes_linkAt (source : SourceInstruction) :
    Passes (code.linkAt pool position source) ↔ code.Linkable pool source := by
  obtain ⟨opcode, operand⟩ := source
  rw [linkAt, passes_error_ite, passes_error_ite, linkable_iff, Opcode.admits_iff]
  simp only [Bool.not_eq_true', Bool.not_eq_false]
  refine (and_iff_right_of_imp fun h => Opcode.supported_of_fits h.1).trans
    (and_congr_right fun _ => ?_)
  cases operand with
  | none | int value | increment index delta => simp [Operand.targets]
  | branch target =>
    rw [Check.passes_bind_pure, passes_branchTarget]
    simp [Operand.targets]
  | constant entry =>
    rw [Check.passes_bind_pure, passes_linkConstant hpool settled]
    simp [Operand.targets]
  | switch cases =>
    have checked (cases' : SwitchTable Nat)
        (h : cases.mapM (code.branchTarget position) = .ok cases') :
        Passes (do
          checkCases position cases'
          return (⟨opcode, .switch cases'⟩ : LinkedInstruction)) ↔
          cases.Ordered := by
      rw [Check.passes_bind_pure, passes_checkCases]
      exact (SwitchTable.related_of_mapM h).ordered_iff
    rw [passes_bind_of_iff checked, SwitchTable.passes_mapM]
    simp [Operand.targets, passes_branchTarget]

theorem passes_link :
    Passes (code.link pool) ↔ ∀ source ∈ code.instructions.toList, code.Linkable pool source := by
  rw [link, passes_mapM_zipIdx]
  constructor
  · intro h source hsource
    obtain ⟨position, hposition⟩ := List.mem_iff_getElem?.mp hsource
    exact (passes_linkAt hpool settled source).mp (h position source hposition)
  · intro h position source hposition
    exact (passes_linkAt hpool settled source).mpr (h source (List.mem_of_getElem? hposition))

end Code

end

/-! ## Encoding -/

namespace Layout

variable {layout : Layout} {position : Nat}

theorem passes_unsignedByte {overflow : Error} {value : Int} :
    Passes (unsignedByte overflow value) ↔ 0 ≤ value ∧ value ≤ 255 := by
  rw [unsignedByte, passes_ite_error, and_iff_left (Check.passes_ok _)]

theorem passes_signedByte {overflow : Error} {value : Int} :
    Passes (signedByte overflow value) ↔ -128 ≤ value ∧ value ≤ 127 := by
  rw [signedByte, passes_ite_error, and_iff_left (Check.passes_ok _)]

theorem passes_signedShort {overflow : Error} {value : Int} :
    Passes (signedShort overflow value) ↔ -32768 ≤ value ∧ value ≤ 32767 := by
  rw [signedShort, passes_ite_error, and_iff_left (Check.passes_ok _), fitsShort_iff]

/-- What the operand of a laid out instruction needs to be encoded. -/
def HasRoom (layout : Layout) (position : Nat) : OperandForm → Operand Nat PoolRef → Prop
  | .plain, .none | .wideConstant, .constant _ | .fieldRef, .constant _ | .methodRef, .constant _
  | .classRef, .constant _ | .wideBranch, .branch _ | .tableSwitch, .switch _
  | .lookupSwitch, .switch _ => True
  | .localIndex, .int value | .arrayType, .int value => 0 ≤ value.toInt ∧ value.toInt ≤ 255
  | .signedByte, .int value => -128 ≤ value.toInt ∧ value.toInt ≤ 127
  | .signedShort, .int value => -32768 ≤ value.toInt ∧ value.toInt ≤ 32767
  | .narrowConstant, .constant reference => reference.index.toNat ≤ 255
  | .interfaceMethod, .constant reference => ∃ slots, Takes reference slots ∧ slots ≤ 255
  | .branch, .branch target =>
    -32768 ≤ displacement layout.starts position target ∧
      displacement layout.starts position target ≤ 32767
  | .increment, .increment index delta =>
    index.toNat ≤ 255 ∧ -128 ≤ delta.toInt ∧ delta.toInt ≤ 127
  | _, _ => False

theorem argumentSlots_iff {text : String} {slots : Nat} : argumentSlots text = .ok slots ↔
    ∃ descriptor, MethodDescriptor.parse text = .ok descriptor ∧
      slots = 1 + (descriptor.parameters.map FieldType.width).sum := by
  refine ⟨argumentSlots_eq_ok, ?_⟩
  rintro ⟨descriptor, hparse, rfl⟩
  unfold argumentSlots
  rw [hparse]
  rfl

/-- A call of an interface method is encoded if its argument slots can be counted. -/
theorem passes_call (opcode : Opcode) (reference : PoolRef)
    (hform : opcode.form = .interfaceMethod) :
    Passes (layout.encodeOperand position ⟨opcode, .constant reference⟩) ↔
      ∃ slots, Takes reference slots ∧ slots ≤ 255 := by
  unfold encodeOperand Takes
  simp only [hform]
  cases reference.constant with
  | interfaceMethodRef member =>
    rw [passes_bind]
    refine exists_congr fun slots => ?_
    have counted : (0 ≤ (slots : Int) ∧ (slots : Int) ≤ 255) ↔ slots ≤ 255 := by omega
    rw [Check.passes_bind_pure, passes_unsignedByte, argumentSlots_iff, counted]
    simp
  | _ => simp

theorem passes_increment (opcode : Opcode) (index : UInt32) (delta : Int32)
    (hform : opcode.form = .increment) :
    Passes (layout.encodeOperand position ⟨opcode, .increment index delta⟩) ↔
      index.toNat ≤ 255 ∧ -128 ≤ delta.toInt ∧ delta.toInt ≤ 127 := by
  unfold encodeOperand
  simp only [hform]
  rw [passes_bind_of_iff fun _ _ => Check.passes_bind_pure _, passes_unsignedByte,
    passes_signedByte]
  omega

/-- **An operand is encoded if and only if it has room.** -/
theorem passes_encodeOperand (final : LinkedInstruction) :
    Passes (layout.encodeOperand position final) ↔
      layout.HasRoom position final.opcode.form final.operand := by
  obtain ⟨opcode, operand⟩ := final
  cases hform : opcode.form <;> cases operand
  case interfaceMethod.constant reference => exact passes_call opcode reference hform
  case increment.increment index delta => exact passes_increment opcode index delta hform
  case narrowConstant.constant reference =>
    unfold encodeOperand HasRoom
    simp only [hform, passes_unsignedByte]
    omega
  all_goals
    unfold encodeOperand HasRoom
    simp [hform, passes_unsignedByte, passes_signedByte, passes_signedShort]

theorem passes_encodeAt (final : LinkedInstruction) :
    Passes (layout.encodeAt position final) ↔
      layout.HasRoom position final.opcode.form final.operand := by
  rw [encodeAt, Check.passes_bind_pure, passes_encodeOperand]

end Layout

/-! ## From laid out instructions back to the code -/

namespace Code

variable {code : Code} {pool : Pool} {linked : List LinkedInstruction} {position : Nat}

/-- The condition on displacements is about branches only. -/
theorem conditionalFits_of_ne {layout : Layout} {source : SourceInstruction}
    (h : ∀ target, source.operand ≠ .branch target) : code.ConditionalFits layout position source :=
  fun target _ _ hoperand => absurd hoperand (h target)

/-- The index of a load has room, since a load with a greater one is wide. -/
theorem index_le_of_loadOpcode {opcode : Opcode} {index : UInt16}
    (hform : (loadOpcode opcode index).form = .narrowConstant) : index.toNat ≤ 255 := by
  have narrow := Opcode.eq_ldc_of_form _ hform
  unfold loadOpcode at narrow
  split at narrow
  · cases narrow
  · rename_i short
    have : ¬ 255 < index := fun wide => short ⟨narrow, wide⟩
    simpa [UInt16.lt_iff_toNat_lt] using this

/-- A constant has room if and only if its call, in case it is one, can be made. -/
theorem hasRoom_constant {layout : Layout} {opcode : Opcode} {entry : Entry} {reference : PoolRef}
    (shape : (Operand.constant entry : Operand Target Entry).fits opcode.form = true)
    (refers : Refers pool entry reference) :
    layout.HasRoom position (loadOpcode opcode reference.index).form (.constant reference) ↔
      (opcode.form = .interfaceMethod → ∃ slots, pool.CallTakes entry slots ∧ slots ≤ 255) := by
  have same (slots : Nat) : Layout.Takes reference slots ↔ pool.CallTakes entry slots := by
    simp only [Layout.Takes, Pool.CallTakes, refers.1, Option.some.injEq]
  rcases loadOpcode_cases opcode reference.index with kept | ⟨rfl, wide⟩
  · have short : (loadOpcode opcode reference.index).form = .narrowConstant →
        reference.index.toNat ≤ 255 := index_le_of_loadOpcode
    rw [kept] at short ⊢
    cases hform : opcode.form <;> rw [hform] at shape <;> try cases shape
    all_goals simp [Layout.HasRoom, same]
    exact short hform
  · rw [wide, Opcode.form_ldcW]
    have narrow : Opcode.ldc.form ≠ .interfaceMethod := by decide +kernel
    simp [Layout.HasRoom, narrow]

theorem form_of_widened? {opcode wide : Opcode} (h : opcode.widened? = some wide) :
    opcode.form = .branch ∧ wide.form = .wideBranch := by
  rcases Opcode.widened?_eq_some h with ⟨rfl, rfl⟩ | ⟨rfl, rfl⟩
  · exact ⟨Opcode.form_goto, Opcode.form_gotoW⟩
  · exact ⟨Opcode.form_jsr, Opcode.form_jsrW⟩

/-- Jumps that were left short reach their targets, and those that were widened have room for any
displacement. -/
theorem hasRoom_jump (hlinked : code.link pool = .ok linked) {opcode wide : Opcode} {place : Nat}
    (hinstruction : linked[position]? = some ⟨opcode, .branch place⟩)
    (hwide : opcode.widened? = some wide) :
    (Layout.ofLinked linked).HasRoom position
      (Layout.widen (Layout.reach linked) position ⟨opcode, .branch place⟩).opcode.form
      (.branch place) := by
  have hfinal := Layout.getElem?_ofLinked hinstruction
  rcases Layout.widen_cases (Layout.reach linked) position ⟨opcode, .branch place⟩ with
    ⟨same, -⟩ | ⟨_, wide, -, hwide, widened⟩
  · rw [same] at hfinal ⊢
    rw [(form_of_widened? hwide).1]
    exact Layout.fitsShort_iff.mp (Layout.jump_fits hlinked hfinal hwide)
  · rw [widened, (form_of_widened? hwide).2]
    trivial

/-- What is not a jump is never widened. -/
theorem widen_of_widened?_eq_none {reach : Array Nat} {instruction : LinkedInstruction}
    (h : instruction.opcode.widened? = none) :
    Layout.widen reach position instruction = instruction := by
  rcases Layout.widen_cases reach position instruction with ⟨same, -⟩ | ⟨_, wide, -, hwide, -⟩
  · exact same
  · cases h.symm.trans hwide

/-- A branch has room if and only if, in case it is conditional, it reaches its target. -/
theorem hasRoom_branch (hlinked : code.link pool = .ok linked) {opcode : Opcode} {target : Target}
    {place : Nat} (hinstruction : linked[position]? = some ⟨opcode, .branch place⟩)
    (shape : (Operand.branch target : Operand Target Entry).fits opcode.form = true)
    (lands : code.branchTarget position target = .ok place) :
    (Layout.ofLinked linked).HasRoom position
        (Layout.widen (Layout.reach linked) position ⟨opcode, .branch place⟩).opcode.form
        (.branch place) ↔
      code.ConditionalFits (Layout.ofLinked linked) position ⟨opcode, .branch target⟩ := by
  have hresolve := (branchTarget_eq_ok.mp lands).1
  cases hwide : opcode.widened? with
  | some wide =>
    refine iff_of_true (hasRoom_jump hlinked hinstruction hwide) ?_
    intro _ _ conditional
    cases hwide.symm.trans (opcode.isConditional_iff.mp conditional).2
  | none =>
    rw [widen_of_widened?_eq_none hwide]
    cases hform : opcode.form <;> rw [hform] at shape <;> try cases shape
    · have conditional : opcode.IsConditional := opcode.isConditional_iff.mpr ⟨hform, hwide⟩
      constructor
      · intro room target' place' _ htarget' hplace'
        obtain rfl := Operand.branch.inj htarget'
        obtain rfl := Except.ok.inj (hresolve.symm.trans hplace')
        exact room
      · intro fits
        exact fits target place conditional rfl hresolve
    · refine iff_of_true trivial ?_
      intro _ _ conditional
      cases hform.symm.trans (opcode.isConditional_iff.mp conditional).1

/-- **An operand has room where it was laid out if and only if the instruction of the code meets
the conditions.** -/
theorem hasRoom_iff (hlinked : code.link pool = .ok linked) {source : SourceInstruction}
    (hsource : code.instructions[position]? = some source) {final : LinkedInstruction}
    (hfinal : (Layout.ofLinked linked).instructions[position]? = some final) :
    (Layout.ofLinked linked).HasRoom position final.opcode.form final.operand ↔
      Encodable pool source ∧ code.ConditionalFits (Layout.ofLinked linked) position source := by
  have hlist : code.instructions.toList[position]? = some source := by
    rwa [Array.getElem?_toList]
  obtain ⟨instruction, hinstruction, hlink⟩ := Check.getElem?_of_mapM_zipIdx hlinked hlist
  obtain rfl := Option.some.inj ((Layout.getElem?_ofLinked hinstruction).symm.trans hfinal)
  rw [encodable_iff, Layout.operand_widen]
  simp only [Opcode.holds_iff, ← Opcode.form_eq_interfaceMethod_iff]
  obtain ⟨opcode, operand⟩ := source
  obtain ⟨shape, linksTo⟩ := linksTo_of_linkAt hlink
  cases linksTo with
  | branch lands =>
    rw [hasRoom_branch hlinked hinstruction shape lands]
    simp
  | constant known =>
    have refers := (linkConstant_eq_ok known).1
    show (Layout.ofLinked linked).HasRoom position (loadOpcode opcode _).form _ ↔ _
    rw [hasRoom_constant shape refers, and_iff_left (conditionalFits_of_ne (by simp))]
    simp
  | none | int value | increment index delta | switch lands checked =>
    show (Layout.ofLinked linked).HasRoom position opcode.form _ ↔ _
    rw [and_iff_left (conditionalFits_of_ne (by simp))]
    dsimp only at shape ⊢
    cases hform : opcode.form <;> rw [hform] at shape <;> try cases shape
    all_goals simp [Layout.HasRoom, OperandForm.Holds]

/-- **Laid out instructions are encoded if and only if those of the code meet the conditions.** -/
theorem passes_encodeAll (hlinked : code.link pool = .ok linked) :
    Passes (Layout.ofLinked linked).encodeAll ↔
      (∀ source ∈ code.instructions.toList, Encodable pool source) ∧
        ∀ (position : Nat) source, code.instructions[position]? = some source →
          code.ConditionalFits (Layout.ofLinked linked) position source := by
  have count : (Layout.ofLinked linked).instructions.length = code.instructions.size := by
    rw [Layout.length_ofLinked, length_of_link hlinked, Code.length]
  rw [Layout.encodeAll, passes_mapM_zipIdx]
  constructor
  · intro h
    have each (position : Nat) (source : SourceInstruction)
        (hsource : code.instructions[position]? = some source) :
        Encodable pool source ∧ code.ConditionalFits (Layout.ofLinked linked) position source := by
      obtain ⟨bound, -⟩ := Array.getElem?_eq_some_iff.mp hsource
      have hfinal := List.getElem?_eq_getElem (count ▸ bound)
      exact (hasRoom_iff hlinked hsource hfinal).mp
        ((Layout.passes_encodeAt _).mp (h position _ hfinal))
    refine ⟨fun source hsource => ?_,
      fun position source hsource => (each position source hsource).2⟩
    obtain ⟨position, hposition⟩ := List.mem_iff_getElem?.mp hsource
    rw [Array.getElem?_toList] at hposition
    exact (each position source hposition).1
  · rintro ⟨encodable, fits⟩ position final hfinal
    obtain ⟨bound, -⟩ := List.getElem?_eq_some_iff.mp hfinal
    have hsource := Array.getElem?_eq_getElem (count ▸ bound)
    refine (Layout.passes_encodeAt final).mpr ((hasRoom_iff hlinked hsource hfinal).mpr ?_)
    exact ⟨encodable _ (Array.getElem_mem_toList _), fits position _ hsource⟩

end Code

/-! ## Handlers and attributes -/

section

variable {code : Code} {pool : Pool} (hpool : pool.Invariant) (settled : pool.state ≠ .growing)

include hpool settled

theorem Code.passes_handlerRow (layout : Layout) (handler : Handler) :
    Passes (code.handlerRow pool layout handler) ↔ code.Handles pool handler := by
  constructor
  · intro h
    obtain ⟨start, hstart, h⟩ := passes_bind.mp h
    obtain ⟨stop, hstop, h⟩ := passes_bind.mp h
    obtain ⟨range, h⟩ := passes_ite_error.mp h
    obtain ⟨target, htarget, h⟩ := passes_bind.mp h
    refine ⟨⟨start, stop, hstart, hstop, range⟩, (passes_branchTarget _).mp ⟨target, htarget⟩, ?_⟩
    intro entry caught
    rw [caught] at h
    exact (Pool.passes_index hpool settled entry).mp ((Check.passes_bind_pure _).mp h)
  · rintro ⟨⟨start, stop, hstart, hstop, range⟩, reached, known⟩
    obtain ⟨target, htarget⟩ := (passes_branchTarget _).mpr reached
    refine passes_bind.mpr ⟨start, hstart, passes_bind.mpr ⟨stop, hstop, ?_⟩⟩
    refine passes_ite_error.mpr ⟨range, passes_bind.mpr ⟨target, htarget, ?_⟩⟩
    cases caught : handler.catchType with
    | none => exact Check.passes_ok _
    | some entry =>
      have indexed := (Pool.passes_index hpool settled entry).mpr (known entry caught)
      exact (Check.passes_bind_pure _).mpr indexed

theorem Code.passes_exceptionTable (layout : Layout) :
    Passes (code.exceptionTable pool layout) ↔
      (∀ handler ∈ code.handlers.toList, code.Handles pool handler) ∧
        code.handlers.size ≤ 65535 := by
  have counted (table : List ExceptionHandler)
      (h : code.handlers.toList.mapM (code.handlerRow pool layout) = .ok table) :
      Passes (if maxCount < table.length then .error (.tooMany .exceptionHandlers) else pure table :
        Except Error (List ExceptionHandler)) ↔ code.handlers.size ≤ 65535 := by
    rw [passes_error_ite, and_iff_left (Check.passes_pure _), Nat.not_lt, Check.length_of_mapM h,
      Array.length_toList]
    rfl
  rw [exceptionTable, passes_bind_of_iff counted, passes_mapM]
  simp only [passes_handlerRow hpool settled]

theorem Attributes.passes_resolve (attributes : Attributes) :
    Passes (attributes.resolve pool) ↔ ∀ named ∈ attributes.entries, pool.Has named.entry ∧
      ∀ entry, named.value = .constant entry → pool.Has entry := by
  have payload (value : AttributeValue) :
      Passes (payload pool value) ↔ ∀ entry, value = .constant entry → pool.Has entry := by
    cases value with
    | bytes bytes => simp [Attributes.payload]
    | constant entry =>
      rw [Attributes.payload, map_eq_pure_bind, Check.passes_bind_pure,
        Pool.passes_index hpool settled]
      simp
  rw [resolve, passes_mapM]
  refine forall₂_congr fun named _ => ?_
  rw [resolveOne,
    passes_bind_of_iff fun _ _ => (Check.passes_bind_pure _).trans (payload named.value),
    Pool.passes_index hpool settled]

end

/-! ## Acceptance -/

namespace Code

theorem passes_assemble {code : Code} {pool : Pool} : Passes (code.assemble pool) ↔
    ∃ layout, code.layout pool = .ok layout ∧ Passes layout.encodeAll ∧
      Passes (code.exceptionTable pool layout) ∧ Passes (code.attributes.resolve pool) := by
  rw [assemble, passes_bind]
  refine exists_congr fun layout => and_congr_right fun _ => ?_
  rw [passes_bind_of_iff fun _ _ => passes_bind_of_iff fun _ _ => Check.passes_bind_pure _]

/-- **The assembler accepts exactly the acceptable code.**  Against a pool whose indices are
fixed, code is assembled if and only if it meets the conditions.  Those on the final layout
are never met for want of a layout: code whose instructions can be linked has one. -/
theorem assembled_iff_acceptable {pool : Pool} (reached : pool.Reachable)
    (settled : pool.state ≠ .growing) (code : Code) :
    ((∃ payload, code.assemble pool = .ok payload) ↔ code.Acceptable pool) ∧
      ((∀ source ∈ code.instructions.toList, code.Linkable pool source) →
        ∃ layout, code.LaidOutAs pool layout) := by
  have hpool := reached.invariant
  have linking : Passes (code.link pool) ↔ _ := passes_link hpool settled
  refine ⟨passes_assemble.trans ⟨?_, ?_⟩, ?_⟩
  · rintro ⟨layout, hlayout, encoded, table, attributes⟩
    obtain ⟨linked, hlinked, rfl, short⟩ := layout_eq_ok.mp hlayout
    obtain ⟨encodable, branches⟩ := (passes_encodeAll hlinked).mp encoded
    obtain ⟨handlers, few⟩ := (passes_exceptionTable hpool settled _).mp table
    refine ⟨linking.mp ⟨linked, hlinked⟩, encodable, ?_, few, handlers,
      (Attributes.passes_resolve hpool settled _).mp attributes⟩
    rintro layout ⟨linked', hlinked', rfl⟩
    obtain rfl := Except.ok.inj (hlinked.symm.trans hlinked')
    exact ⟨short, branches⟩
  · rintro ⟨linkable, encodable, fits, few, handlers, attributes⟩
    obtain ⟨linked, hlinked⟩ := linking.mpr linkable
    obtain ⟨short, branches⟩ := fits _ ⟨linked, hlinked, rfl⟩
    exact ⟨.ofLinked linked, layout_eq_ok.mpr ⟨linked, hlinked, rfl, short⟩,
      (passes_encodeAll hlinked).mpr ⟨encodable, branches⟩,
      (passes_exceptionTable hpool settled _).mpr ⟨handlers, few⟩,
      (Attributes.passes_resolve hpool settled _).mpr attributes⟩
  · intro linkable
    obtain ⟨linked, hlinked⟩ := linking.mpr linkable
    exact ⟨.ofLinked linked, linked, hlinked, rfl⟩

/-- Loads the constant of entry 0, branches back to the load, returns, and guards the first two
instructions. -/
def guardedLoad (load : Opcode) : Code :=
  { Code.empty 1 with
    instructions := #[
      ⟨load, .constant ⟨0⟩⟩,
      ⟨0x99, .branch (.position 0)⟩,
      ⟨Opcode.ret, .none⟩]
    handlers := #[⟨.position 0, .position 2, .position 2, none⟩] }

/-- A wide number can be loaded as such, and not as a narrow one. -/
theorem guardedLoad_needs_a_wide_load :
    (guardedLoad 0x14).Acceptable (Pool.empty.after Pool.oneLong) ∧
      ¬ (guardedLoad Opcode.ldc).Acceptable (Pool.empty.after Pool.oneLong) := by
  have settled : (Pool.empty.after Pool.oneLong).state ≠ .growing := by
    rw [Pool.after_oneLong]
    decide
  constructor
  · refine (assembled_iff_acceptable ⟨Pool.oneLong, rfl⟩ settled _).1.mp
      ⟨⟨16, 1, ⟨[20, 0, 1, 153, 255, 253, 177]⟩, [⟨0, 6, 6, 0⟩], []⟩, ?_⟩
    rw [Pool.after_oneLong]
    decide +kernel
  · intro acceptable
    obtain ⟨payload, assembled⟩ :=
      (assembled_iff_acceptable ⟨Pool.oneLong, rfl⟩ settled _).1.mpr acceptable
    have refused : (guardedLoad Opcode.ldc).assemble (Pool.empty.after Pool.oneLong) =
        .error (.invalidOperand 0 "ldc") := by
      rw [Pool.after_oneLong]
      decide +kernel
    cases assembled.symm.trans refused

end Code

end JvmAsm
