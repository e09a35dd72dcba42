import JvmAsm.Proofs.CodeReader
import JvmAsm.Proofs.Starts

/-! # Assembled code reads back

Assembly measures code in one pass and writes it in another.  This module reads the
result with the independent reader of `JvmAsm.Proofs.CodeReader` and proves that
nothing was lost on the way: the reader finds the same number of instructions, with
the same opcodes up to widening, and operands that mean what was asked for
(`Code.assemble_reads_back`).

What an operand means is the relation `Operand.Denotes`.  It is stated for any kind
of target and reference, since the argument goes through two of them.  Encoding is
between linked operands and what is read (`Layout.readsBack_of_encodeOperand`, one
case for each form of operand); linking is between the operands of the code and the
linked ones; and denoting passes through linking (`Operand.Denotes.of_related`).

The only fact about offsets that is needed is that every instruction is exactly as
long as it was measured, so that the reader, which knows no offsets, arrives where
the layout says the next instruction starts. -/

namespace JvmAsm

attribute [local irreducible] Opcode.form

/-! ## The two descriptions of the instruction set -/

/-- How an operand of a form is read. -/
def OperandForm.shape? : OperandForm → Option OperandShape
  | .plain => some .nothing
  | .localIndex | .arrayType => some .unsignedByte
  | .signedByte => some .signedByte
  | .signedShort => some .signedShort
  | .narrowConstant => some .narrowIndex
  | .wideConstant | .fieldRef | .methodRef | .classRef => some .index
  | .interfaceMethod => some .interfaceMethod
  | .branch => some .branch
  | .wideBranch => some .wideBranch
  | .increment => some .increment
  | .tableSwitch => some .tableSwitch
  | .lookupSwitch => some .lookupSwitch
  | .unsupported => none

/-- **The table of opcodes is the instruction set's**, opcode by opcode. -/
theorem operandShape?_toNat (opcode : Opcode) :
    operandShape? opcode.toNat = opcode.form.shape? := by
  revert opcode
  refine Opcode.forall_of_lt ?_
  decide +kernel

/-! ## What operands mean -/

/-- What is read is what the operand says, given what it takes for a displacement to
land on a target, for an index to name a reference, and for a call of a reference to
take so many argument slots. -/
def Operand.Denotes {τ κ : Type} (lands : τ → Int → Prop) (names takes : κ → Nat → Prop) :
    Operand τ κ → ReadOperand → Prop
  | .none, .none => True
  | .int value, .number n => n = value.toInt
  | .constant reference, .constant index => names reference index
  | .constant reference, .interfaceMethod index count last =>
    names reference index ∧ takes reference count ∧ last = 0
  | .branch target, .branch displacement => lands target displacement
  | .increment index delta, .increment index' delta' =>
    index' = index.toNat ∧ delta' = delta.toInt
  | .switch (.table low targets fallback), .tableSwitch fallback' low' high' displacements =>
    lands fallback fallback' ∧ low' = low.toInt ∧ high' = low.toInt + targets.length - 1 ∧
      List.Forall₂ lands targets displacements
  | .switch (.lookup pairs fallback), .lookupSwitch fallback' pairs' =>
    lands fallback fallback' ∧
      List.Forall₂ (fun pair pair' => pair'.1 = pair.1.toInt ∧ lands pair.2 pair'.2) pairs pairs'
  | _, _ => False

section Denotes

variable {τ υ κ μ : Type} {target : τ → υ → Prop} {reference : κ → μ → Prop}
  {lands : τ → Int → Prop} {names takes : κ → Nat → Prop}
  {lands' : υ → Int → Prop} {names' takes' : μ → Nat → Prop}

theorem forall₂_trans {α β γ : Type} {R : α → β → Prop} {S : β → γ → Prop} {T : α → γ → Prop}
    (hT : ∀ a b c, R a b → S b c → T a c) {as : List α} {bs : List β} {cs : List γ}
    (hab : List.Forall₂ R as bs) (hbc : List.Forall₂ S bs cs) : List.Forall₂ T as cs := by
  induction hab generalizing cs with
  | nil =>
    cases hbc
    exact .nil
  | cons head _ ih =>
    cases hbc with
    | cons head' tail' => exact .cons (hT _ _ _ head head') (ih tail')

/-- **What a related operand denotes, the operand denotes itself.** -/
theorem Operand.Denotes.of_related {operand : Operand τ κ} {operand' : Operand υ μ}
    {seen : ReadOperand} (related : operand.Related target reference operand')
    (hlands : ∀ t t' d, target t t' → lands' t' d → lands t d)
    (hnames : ∀ r r' n, reference r r' → names' r' n → names r n)
    (htakes : ∀ r r' n, reference r r' → takes' r' n → takes r n)
    (h : operand'.Denotes lands' names' takes' seen) : operand.Denotes lands names takes seen := by
  cases operand <;> cases operand' <;> try exact False.elim related
  case none.none => cases seen <;> exact h
  case int.int value value' =>
    obtain rfl : value' = value := related
    cases seen <;> exact h
  case constant.constant r r' =>
    cases seen <;> try exact False.elim h
    case constant index => exact hnames r r' index related h
    case interfaceMethod index count last =>
      obtain ⟨hindex, hcount, hlast⟩ := h
      exact ⟨hnames r r' index related hindex, htakes r r' count related hcount, hlast⟩
  case branch.branch t t' =>
    cases seen <;> try exact False.elim h
    case branch displacement => exact hlands t t' displacement related h
  case increment.increment index delta index' delta' =>
    obtain ⟨rfl, rfl⟩ : index' = index ∧ delta' = delta := related
    cases seen <;> exact h
  case switch.switch cases cases' =>
    cases cases <;> cases cases' <;> try exact False.elim related
    case table.table low targets fallback low' targets' fallback' =>
      obtain ⟨rfl, hfallback, htargets⟩ := related
      cases seen <;> try exact False.elim h
      case tableSwitch d low'' high displacements =>
        obtain ⟨hd, hlow, hhigh, hall⟩ := h
        rw [← htargets.length_eq] at hhigh
        exact ⟨hlands _ _ _ hfallback hd, hlow, hhigh, forall₂_trans hlands htargets hall⟩
    case lookup.lookup pairs fallback pairs' fallback' =>
      obtain ⟨hfallback, hpairs⟩ := related
      cases seen <;> try exact False.elim h
      case lookupSwitch d displacements =>
        obtain ⟨hd, hall⟩ := h
        refine ⟨hlands _ _ _ hfallback hd, forall₂_trans ?_ hpairs hall⟩
        rintro pair pair' pair'' ⟨hkey, htarget⟩ ⟨hkey', hland⟩
        exact ⟨by rw [hkey', hkey], hlands _ _ _ htarget hland⟩

end Denotes

/-! ## Encoded operands -/

namespace Layout

variable {layout : Layout} {position : Nat}

/-- The displacement leads from the instruction at a position to the one at a place. -/
def Lands (layout : Layout) (position place : Nat) (displacement : Int) : Prop :=
  (layout.start position : Int) + displacement = layout.start place

/-- The index is that of the reference. -/
def Names (reference : PoolRef) (index : Nat) : Prop := index = reference.index.toNat

/-- A call of the interface method takes so many argument slots: those of its
parameters, and one for the receiver. -/
def Takes (reference : PoolRef) (count : Nat) : Prop :=
  ∃ member descriptor, reference.constant = .interfaceMethodRef member ∧
    MethodDescriptor.parse member.nameAndType.descriptor = .ok descriptor ∧
    count = 1 + (descriptor.parameters.map FieldType.width).sum

/-- **The bytes are read as what the operand denotes**, and with the opcode they are as
long as the instruction was measured. -/
def ReadsBack (layout : Layout) (position : Nat) (final : LinkedInstruction) (bytes : Bytes) :
    Prop :=
  ∃ shape seen, operandShape? final.opcode.toNat = some shape ∧
    (Reader.operand (layout.start position) shape).Reads bytes seen ∧
    final.operand.Denotes (layout.Lands position) Names Takes seen ∧
    1 + bytes.length = final.lengthAt (layout.start position)

theorem lands_displacement (place : Nat) :
    layout.Lands position place (displacement layout.starts position place) := by
  unfold Lands displacement start
  omega

/-- An operand whose length is settled by its form. -/
theorem readsBack_of_form {opcode : Opcode} {operand : Operand Nat PoolRef} {form : OperandForm}
    {shape : OperandShape} {bytes : Bytes} {seen : ReadOperand} (hform : opcode.form = form)
    (hshape : form.shape? = some shape) (hlength : form.fixedLength? = some bytes.length)
    (hoperand : ∀ cases, operand ≠ .switch cases)
    (reads : (Reader.operand (layout.start position) shape).Reads bytes seen)
    (denotes : operand.Denotes (layout.Lands position) Names Takes seen) :
    layout.ReadsBack position ⟨opcode, operand⟩ bytes := by
  refine ⟨shape, seen, ?_, reads, denotes, ?_⟩
  · rw [operandShape?_toNat, hform, hshape]
  · exact (length_of_form _ hform hlength hoperand).symm

theorem unsignedByte_eq_ok {overflow : Error} {value : Int} {bytes : Bytes}
    (h : unsignedByte overflow value = .ok bytes) :
    (Reader.unsigned 1).Reads bytes value.toNat ∧ bytes.length = 1 ∧ 0 ≤ value := by
  unfold unsignedByte at h
  split at h
  · rename_i range
    obtain rfl := Except.ok.inj h
    exact ⟨Reader.reads_unsigned_ofInt range.1 (by omega), Bytes.length_ofInt 1 value, range.1⟩
  · cases h

theorem signedByte_eq_ok {overflow : Error} {value : Int} {bytes : Bytes}
    (h : signedByte overflow value = .ok bytes) :
    (Reader.signed 1).Reads bytes value ∧ bytes.length = 1 := by
  unfold signedByte at h
  split at h
  · rename_i range
    obtain rfl := Except.ok.inj h
    exact ⟨Reader.reads_signed (by omega) (by omega), Bytes.length_ofInt 1 value⟩
  · cases h

theorem signedShort_eq_ok {overflow : Error} {value : Int} {bytes : Bytes}
    (h : signedShort overflow value = .ok bytes) :
    (Reader.signed 2).Reads bytes value ∧ bytes.length = 2 := by
  unfold signedShort fitsShort at h
  split at h
  · rename_i range
    obtain rfl := Except.ok.inj h
    simp only [Bool.and_eq_true, decide_eq_true_eq] at range
    exact ⟨Reader.reads_signed (by omega) (by omega), Bytes.length_ofInt 2 value⟩
  · cases h

/-- The index of a local variable, or the code of a primitive type. -/
theorem readsBack_unsignedByte {opcode : Opcode} {form : OperandForm} {value : Int32}
    {overflow : Error} {bytes : Bytes} (hform : opcode.form = form)
    (hshape : form.shape? = some .unsignedByte) (hlength : form.fixedLength? = some 1)
    (h : unsignedByte overflow value.toInt = .ok bytes) :
    layout.ReadsBack position ⟨opcode, .int value⟩ bytes := by
  obtain ⟨reads, hbytes, hnonneg⟩ := unsignedByte_eq_ok h
  have denotes : (Operand.int value : Operand Nat PoolRef).Denotes (layout.Lands position) Names
      Takes (.number value.toInt.toNat) := Int.toNat_of_nonneg hnonneg
  exact readsBack_of_form hform hshape (by rw [hlength, hbytes]) (fun _ => nofun)
    (reads.bind_pure fun n : Nat => ReadOperand.number n) denotes

/-- The index of a constant, in two bytes. -/
theorem readsBack_index {opcode : Opcode} {form : OperandForm} (reference : PoolRef)
    (hform : opcode.form = form) (hshape : form.shape? = some .index)
    (hlength : form.fixedLength? = some 2) :
    layout.ReadsBack position ⟨opcode, .constant reference⟩ (encode reference.index) :=
  readsBack_of_form hform hshape hlength (fun _ => nofun)
    ((Reader.reads_uint16 reference.index).bind_pure _) rfl

/-- A displacement in four bytes is read back, as long as starts fit the format. -/
theorem reads_wideOffset (near : ∀ i, layout.start i ≤ maxCount) (place : Nat) :
    (Reader.signed 4).Reads (wideOffset layout position place)
      (displacement layout.starts position place) := by
  have here : layout.starts.getD position 0 ≤ 65535 := near position
  have there : layout.starts.getD place 0 ≤ 65535 := near place
  refine Reader.reads_signed ?_ ?_ <;> unfold displacement <;> omega

theorem length_wideOffset (place : Nat) : (wideOffset layout position place).length = 4 :=
  Bytes.length_ofInt 4 _

theorem forall₂_lands (places : List Nat) :
    List.Forall₂ (layout.Lands position) places
      (places.map (displacement layout.starts position)) := by
  rw [List.forall₂_map_right_iff, List.forall₂_same]
  exact fun place _ => lands_displacement place

/-! ### Switches -/

theorem reads_padding (offset : Nat) :
    (Reader.padding offset).Reads (List.replicate (switchPadding offset) 0) () := by
  have aligned : 3 - offset % 4 = (List.replicate (switchPadding offset) (0 : UInt8)).length := by
    rw [List.length_replicate, switchPadding]
    omega
  have zeros : (List.replicate (switchPadding offset) (0 : UInt8)).all (· == 0) := by
    simp [List.all_replicate]
  have read : (Reader.padding offset).Reads
      (List.replicate (switchPadding offset) 0 ++ []) () := by
    unfold Reader.padding
    rw [aligned]
    exact (Reader.Reads.take _).bind (Reader.Reads.require zeros)
  rwa [List.append_nil] at read

theorem readsBack_table {opcode : Opcode} {low : Int32} {targets : List Nat} {fallback : Nat}
    (near : ∀ i, layout.start i ≤ maxCount) (hform : opcode.form = .tableSwitch)
    (check : Code.checkCases position (.table low targets fallback) = .ok ()) :
    layout.ReadsBack position ⟨opcode, .switch (.table low targets fallback)⟩
      (encodeCases layout position (.table low targets fallback)) := by
  obtain ⟨nonempty, high⟩ := Code.checkCases_table.mp check
  have some : 0 < targets.length := List.length_pos_iff.mpr nonempty
  have lowest := low.le_toInt
  have count : (low.toInt + targets.length - 1 - low.toInt + 1).toNat = targets.length := by omega
  have reads : (Reader.operand (layout.start position) .tableSwitch).Reads _
      (.tableSwitch (displacement layout.starts position fallback) low.toInt
        (low.toInt + targets.length - 1) (targets.map (displacement layout.starts position))) :=
    (reads_padding (layout.start position)).bind <|
      (reads_wideOffset near fallback).bind <|
      (Reader.reads_int32 low).bind <|
      (Reader.reads_signed (by omega) (by omega)).bind <|
      (Reader.Reads.require (by omega)).bind <|
      (Reader.Reads.times count fun place _ => reads_wideOffset near place).bind_pure _
  have bytes : encodeCases layout position (.table low targets fallback) =
      List.replicate (switchPadding (layout.start position)) 0 ++
        (wideOffset layout position fallback ++ (encode low ++
          (Bytes.ofInt 4 (low.toInt + targets.length - 1) ++
            ([] ++ targets.flatMap (wideOffset layout position))))) := by
    simp only [encodeCases, SwitchTable.fallbackTarget, List.append_assoc, List.nil_append]
  rw [bytes]
  refine ⟨.tableSwitch, _, ?_, reads,
    ⟨lands_displacement fallback, rfl, rfl, forall₂_lands targets⟩,
    ?_⟩
  · rw [operandShape?_toNat, hform]
    rfl
  · simp only [List.length_append, List.length_replicate, length_wideOffset, List.length_flatMap,
      Bytes.length_ofInt, List.map_const', List.sum_replicate_nat, List.length_nil, encode,
      Instruction.lengthAt, Instruction.length, SwitchTable.operandLength]
    omega

/-- A pair of a switch is read as its key and its displacement. -/
theorem reads_pair (near : ∀ i, layout.start i ≤ maxCount) (pair : Int32 × Nat) :
    (do
      let key ← Reader.signed 4
      let displacement ← Reader.signed 4
      return (key, displacement) : Reader (Int × Int)).Reads
      (encode pair.1 ++ wideOffset layout position pair.2)
      (pair.1.toInt, displacement layout.starts position pair.2) :=
  (Reader.reads_int32 pair.1).bind ((reads_wideOffset near pair.2).bind_pure _)

theorem readsBack_lookup {opcode : Opcode} {pairs : List (Int32 × Nat)} {fallback : Nat}
    (near : ∀ i, layout.start i ≤ maxCount) (hform : opcode.form = .lookupSwitch)
    (few : pairs.length ≤ maxCount) :
    layout.ReadsBack position ⟨opcode, .switch (.lookup pairs fallback)⟩
      (encodeCases layout position (.lookup pairs fallback)) := by
  have few : pairs.length ≤ 65535 := few
  have reads : (Reader.operand (layout.start position) .lookupSwitch).Reads _
      (.lookupSwitch (displacement layout.starts position fallback)
        (pairs.map fun pair =>
          (pair.1.toInt, displacement layout.starts position pair.2))) :=
    (reads_padding (layout.start position)).bind <|
      (reads_wideOffset near fallback).bind <|
      (Reader.reads_signed_ofNat (show 2 * pairs.length < 256 ^ 4 by omega)).bind <|
      (Reader.Reads.require (by omega)).bind <|
      (Reader.Reads.times (by omega) fun pair _ => reads_pair near pair).bind_pure _
  have bytes : encodeCases layout position (.lookup pairs fallback) =
      List.replicate (switchPadding (layout.start position)) 0 ++
        (wideOffset layout position fallback ++ (Bytes.ofNat 4 pairs.length ++
          ([] ++ pairs.flatMap fun pair =>
            encode pair.1 ++ wideOffset layout position pair.2))) := by
    simp only [encodeCases, SwitchTable.fallbackTarget, List.append_assoc, List.nil_append]
  rw [bytes]
  refine ⟨.lookupSwitch, _, ?_, reads, ⟨lands_displacement fallback, ?_⟩, ?_⟩
  · rw [operandShape?_toNat, hform]
    rfl
  · rw [List.forall₂_map_right_iff, List.forall₂_same]
    exact fun pair _ => ⟨rfl, lands_displacement pair.2⟩
  · simp only [List.length_append, List.length_replicate, length_wideOffset, List.length_flatMap,
      Bytes.length_ofInt, Bytes.length_ofNat, List.map_const', List.sum_replicate_nat,
      List.length_nil, encode, Instruction.lengthAt, Instruction.length, SwitchTable.operandLength]
    omega

/-! ### All forms -/

theorem argumentSlots_eq_ok {text : String} {slots : Nat} (h : argumentSlots text = .ok slots) :
    ∃ descriptor, MethodDescriptor.parse text = .ok descriptor ∧
      slots = 1 + (descriptor.parameters.map FieldType.width).sum := by
  unfold argumentSlots at h
  split at h
  · rename_i descriptor hparse
    exact ⟨descriptor, hparse, (Except.ok.inj h).symm⟩
  · cases h

theorem readsBack_interfaceMethod {opcode : Opcode} {reference : PoolRef} {member : MemberRef}
    {bytes : Bytes} {overflow : Nat → Error} (hform : opcode.form = .interfaceMethod)
    (hconstant : reference.constant = .interfaceMethodRef member)
    (h : (do
      let slots ← argumentSlots member.nameAndType.descriptor
      let slots ← unsignedByte (overflow slots) slots
      return encode reference.index ++ slots ++ [0]) = Except.ok bytes) :
    layout.ReadsBack position ⟨opcode, .constant reference⟩ bytes := by
  obtain ⟨slots, hslots, h⟩ := Check.bind_eq_ok.mp h
  obtain ⟨count, hcount, h⟩ := Check.bind_eq_ok.mp h
  obtain rfl := Check.pure_eq_ok.mp h
  obtain ⟨descriptor, hparse, hsum⟩ := argumentSlots_eq_ok hslots
  obtain ⟨readsCount, hlength, -⟩ := unsignedByte_eq_ok hcount
  have readsZero : (Reader.unsigned 1).Reads [0] 0 :=
    Reader.reads_unsigned (show 0 < 256 ^ 1 by decide)
  rw [List.append_assoc]
  refine readsBack_of_form hform rfl ?_ (fun _ => nofun)
    ((Reader.reads_uint16 reference.index).bind (readsCount.bind (readsZero.bind_pure _)))
    ⟨rfl, ⟨member, descriptor, hconstant, hparse, ?_⟩, rfl⟩
  · rw [List.length_append, List.length_append, hlength]
    rfl
  · rw [Int.toNat_natCast, hsum]

/-- **Every operand that is encoded reads back.** -/
theorem readsBack_of_encodeOperand {final : LinkedInstruction} {bytes : Bytes}
    (near : ∀ i, layout.start i ≤ maxCount) (shape : final.operandMatches = true)
    (short : final.lengthAt (layout.start position) ≤ maxCount)
    (checked : ∀ cases, final.operand = .switch cases → Code.checkCases position cases = .ok ())
    (h : layout.encodeOperand position final = .ok bytes) :
    layout.ReadsBack position final bytes := by
  obtain ⟨opcode, operand⟩ := final
  unfold encodeOperand at h
  unfold Instruction.operandMatches at shape
  dsimp only at h shape checked
  split at h
  · rename_i hform
    obtain rfl := Except.ok.inj h
    exact readsBack_of_form hform rfl rfl (fun _ => nofun) (Reader.Reads.pure _) trivial
  · rename_i value hform
    exact readsBack_unsignedByte hform rfl rfl h
  · rename_i value hform
    exact readsBack_unsignedByte hform rfl rfl h
  · rename_i value hform
    obtain ⟨reads, hlength⟩ := signedByte_eq_ok h
    exact readsBack_of_form hform rfl (by rw [hlength]; rfl) (fun _ => nofun)
      (reads.bind_pure _) rfl
  · rename_i value hform
    obtain ⟨reads, hlength⟩ := signedShort_eq_ok h
    exact readsBack_of_form hform rfl (by rw [hlength]; rfl) (fun _ => nofun)
      (reads.bind_pure _) rfl
  · rename_i reference hform
    obtain ⟨reads, hlength, -⟩ := unsignedByte_eq_ok h
    exact readsBack_of_form hform rfl (by rw [hlength]; rfl) (fun _ => nofun)
      (reads.bind_pure _) (Int.toNat_natCast _)
  · rename_i reference hform
    obtain rfl := Except.ok.inj h
    exact readsBack_index reference hform rfl rfl
  · rename_i reference hform
    obtain rfl := Except.ok.inj h
    exact readsBack_index reference hform rfl rfl
  · rename_i reference hform
    obtain rfl := Except.ok.inj h
    exact readsBack_index reference hform rfl rfl
  · rename_i reference hform
    obtain rfl := Except.ok.inj h
    exact readsBack_index reference hform rfl rfl
  · rename_i reference hform
    split at h
    · rename_i member hconstant
      exact readsBack_interfaceMethod hform hconstant h
    · cases h
  · rename_i place hform
    obtain ⟨reads, hlength⟩ := signedShort_eq_ok h
    exact readsBack_of_form hform rfl (by rw [hlength]; rfl) (fun _ => nofun)
      (reads.bind_pure _) (lands_displacement place)
  · rename_i place hform
    obtain rfl := Except.ok.inj h
    exact readsBack_of_form hform rfl rfl (fun _ => nofun)
      ((reads_wideOffset near place).bind_pure _) (lands_displacement place)
  · rename_i index delta hform
    obtain ⟨indexBytes, hindex, h⟩ := Check.bind_eq_ok.mp h
    obtain ⟨deltaBytes, hdelta, h⟩ := Check.bind_eq_ok.mp h
    obtain rfl := Check.pure_eq_ok.mp h
    obtain ⟨readsIndex, hindexLength, -⟩ := unsignedByte_eq_ok hindex
    obtain ⟨readsDelta, hdeltaLength⟩ := signedByte_eq_ok hdelta
    exact readsBack_of_form hform rfl
      (by rw [List.length_append, hindexLength, hdeltaLength]; rfl) (fun _ => nofun)
      (readsIndex.bind (readsDelta.bind_pure _)) ⟨Int.toNat_natCast _, rfl⟩
  · rename_i cases hform
    obtain rfl := Except.ok.inj h
    rw [hform] at shape
    cases cases with
    | table low targets fallback =>
      exact readsBack_table near hform (checked _ rfl)
    | lookup pairs fallback => cases shape
  · rename_i cases hform
    obtain rfl := Except.ok.inj h
    rw [hform] at shape
    cases cases with
    | table low targets fallback => cases shape
    | lookup pairs fallback =>
      refine readsBack_lookup near hform ?_
      unfold Instruction.lengthAt Instruction.length at short
      simp only [SwitchTable.operandLength] at short
      omega
  · cases h

/-- An instruction whose operand reads back is read with it. -/
theorem reads_of_encodeAt {final : LinkedInstruction} {chunk : Bytes}
    (h : layout.encodeAt position final = .ok chunk)
    (back : ∀ bytes, layout.encodeOperand position final = .ok bytes →
      layout.ReadsBack position final bytes) :
    ∃ seen, (Reader.instruction (layout.start position)).Reads chunk ⟨final.opcode, seen⟩ ∧
      final.operand.Denotes (layout.Lands position) Names Takes seen ∧ chunk ≠ [] ∧
      chunk.length = final.lengthAt (layout.start position) := by
  obtain ⟨bytes, hbytes, h⟩ := Check.bind_eq_ok.mp h
  obtain rfl := Check.pure_eq_ok.mp h
  obtain ⟨shape, seen, hshape, reads, denotes, hlength⟩ := back bytes hbytes
  refine ⟨seen, ?_, denotes, List.cons_ne_nil _ _, by rw [← hlength, List.length_cons]; omega⟩
  refine (Reader.Reads.byte final.opcode).bind ?_
  rw [hshape]
  exact reads.bind_pure _

end Layout

/-! ## Assembled code -/

/-- The opcode that is read may be the wide form of the one that was asked for. -/
def Opcode.Becomes (source final : Opcode) : Prop :=
  final = source ∨ source = goto ∧ final = gotoW ∨ source = jsr ∧ final = jsrW ∨
    source = ldc ∧ final = ldcW

namespace Pool

/-- The index is that of the entry. -/
def Indexes (pool : Pool) (entry : Entry) (index : Nat) : Prop :=
  ∃ i, pool.index entry = .ok i ∧ index = i.toNat

/-- A call of the entry's interface method takes so many argument slots: those of its
parameters, and one for the receiver. -/
def CallTakes (pool : Pool) (entry : Entry) (count : Nat) : Prop :=
  ∃ member descriptor, pool.constant? entry = some (.interfaceMethodRef member) ∧
    MethodDescriptor.parse member.nameAndType.descriptor = .ok descriptor ∧
    count = 1 + (descriptor.parameters.map FieldType.width).sum

end Pool

namespace Code

variable {code : Code} {pool : Pool}

/-- From `start` the displacement leads to where the instruction that the target stands
for was read. -/
def LandsOn (code : Code) (read : List (Nat × ReadInstruction)) (start : Nat) (target : Target)
    (displacement : Int) : Prop :=
  ∃ place there, code.resolve target = .ok place ∧ read[place]?.map Prod.fst = some there ∧
    (start : Int) + displacement = there

theorem becomes_of_links {position : Nat} {source : SourceInstruction}
    {instruction : LinkedInstruction} (links : code.Links pool position source instruction)
    (starts : Array Nat) :
    source.opcode.Becomes (Layout.widen starts position instruction).opcode := by
  rcases Layout.widen_cases starts position instruction with
    ⟨same, -⟩ | ⟨target, wide, hoperand, hwide, hwiden⟩
  · rw [same]
    rcases links.opcode with hopcode | ⟨hsource, hopcode⟩
    · exact .inl hopcode
    · exact .inr (.inr (.inr ⟨hsource, hopcode⟩))
  · rw [hwiden]
    rcases links.opcode with hopcode | ⟨-, hopcode⟩
    · rw [hopcode] at hwide
      rcases Opcode.widened?_eq_some hwide with ⟨hsource, rfl⟩ | ⟨hsource, rfl⟩
      · exact .inr (.inl ⟨hsource, rfl⟩)
      · exact .inr (.inr (.inl ⟨hsource, rfl⟩))
    · rw [hopcode] at hwide
      cases hwide

/-- What is read at a position is what became of the instruction there, in terms of its
linked form. -/
def ReadsAs (code : Code) (pool : Pool) (layout : Layout) (position : Nat)
    (seen : ReadInstruction) : Prop :=
  ∃ source instruction, code.instructions[position]? = some source ∧
    code.Links pool position source instruction ∧ source.opcode.Becomes seen.opcode ∧
    instruction.operand.Denotes (layout.Lands position) Layout.Names Layout.Takes seen.operand

theorem read_of_chunk {linked : List LinkedInstruction} {chunks : List Bytes} {position : Nat}
    {chunk : Bytes} (hlinked : code.link pool = .ok linked)
    (hlength : (Layout.ofLinked linked).length ≤ maxCount)
    (hchunks : (Layout.ofLinked linked).encodeAll = .ok chunks)
    (hchunk : chunks[position]? = some chunk) :
    ∃ seen, (Reader.instruction ((Layout.ofLinked linked).start position)).Reads chunk seen ∧
      code.ReadsAs pool (Layout.ofLinked linked) position seen ∧ chunk ≠ [] ∧
      (Layout.ofLinked linked).start (position + 1) =
        (Layout.ofLinked linked).start position + chunk.length := by
  have near : ∀ i, (Layout.ofLinked linked).start i ≤ maxCount :=
    fun i => Nat.le_trans (Layout.start_le_length linked i) hlength
  have hlt : position < code.length := by
    have bound := (List.getElem?_eq_some_iff.mp hchunk).1
    rwa [Check.length_of_mapM hchunks, List.length_zipIdx, Layout.length_ofLinked,
      length_of_link hlinked] at bound
  obtain ⟨source, instruction, hsource, hinstruction, links⟩ := links_of_lt hlinked hlt
  have hfinal := Layout.getElem?_ofLinked hinstruction
  have hnext := Layout.start_ofLinked_succ hinstruction
  obtain ⟨chunk', hchunk', hencode⟩ := Check.getElem?_of_mapM_zipIdx hchunks hfinal
  obtain rfl : chunk = chunk' := Option.some.inj (hchunk.symm.trans hchunk')
  obtain ⟨seen, reads, denotes, hne, hsize⟩ := Layout.reads_of_encodeAt hencode
    fun bytes hbytes => Layout.readsBack_of_encodeOperand near
      (Layout.operandMatches_widen _ position links.shape)
      (by have := near (position + 1); omega)
      (fun cases hcases => links.cases cases (by rw [← hcases, Layout.operand_widen]))
      hbytes
  rw [Layout.operand_widen] at denotes
  refine ⟨_, reads, ⟨source, instruction, hsource, links, becomes_of_links links _, denotes⟩,
    hne, ?_⟩
  rw [hsize, hnext]

/-- What is read at a position, in terms of the instruction there. -/
theorem ReadsAs.denotes {layout : Layout} {position : Nat} {seen : ReadInstruction}
    {source : SourceInstruction} (h : code.ReadsAs pool layout position seen)
    (hsource : code.instructions[position]? = some source) :
    source.opcode.Becomes seen.opcode ∧
      source.operand.Denotes (fun target displacement => ∃ place,
        code.branchTarget position target = .ok place ∧ layout.Lands position place displacement)
        pool.Indexes pool.CallTakes seen.operand := by
  obtain ⟨source', instruction, hsource', links, becomes, denotes⟩ := h
  obtain rfl : source = source' := Option.some.inj (hsource.symm.trans hsource')
  refine ⟨becomes, Operand.Denotes.of_related links.operand ?_ ?_ ?_ denotes⟩
  · intro target place displacement htarget hlands
    exact ⟨place, htarget, hlands⟩
  · intro entry reference index hrefers hindex
    exact ⟨reference.index, hrefers.2, hindex⟩
  · rintro entry reference slots hrefers ⟨member, descriptor, hmember, hparse, hslots⟩
    exact ⟨member, descriptor, by rw [hrefers.1, hmember], hparse, hslots⟩

/-- **Assembled code reads back.**  A linear reader, started at the beginning of the code,
consumes it exactly and finds as many instructions as were assembled.  The opcode at each
position is the one asked for or its wide form; numbers are the ones asked for; indices
are those of the entries, a call of an interface method also announces its argument
slots; and every displacement leads from the start of its instruction to the start of the
instruction its target stands for. -/
theorem assemble_reads_back {payload : CodeAttribute} (h : code.assemble pool = .ok payload) :
    ∃ read, readCode payload.code.bytes = some read ∧ read.length = code.length ∧
      ∀ (position : Nat) (source : SourceInstruction), code.instructions[position]? = some source →
        ∃ start seen, read[position]? = some (start, seen) ∧
          source.opcode.Becomes seen.opcode ∧
          source.operand.Denotes (code.LandsOn read start) pool.Indexes pool.CallTakes
            seen.operand := by
  obtain ⟨layout, hlayout, h⟩ := Check.bind_eq_ok.mp h
  obtain ⟨chunks, hchunks, h⟩ := Check.bind_eq_ok.mp h
  obtain ⟨table, -, h⟩ := Check.bind_eq_ok.mp h
  obtain ⟨attributes, -, h⟩ := Check.bind_eq_ok.mp h
  obtain rfl := Check.pure_eq_ok.mp h
  obtain ⟨linked, hlinked, rfl, hlength⟩ := layout_eq_ok.mp hlayout
  have count : chunks.length = code.length := by
    rw [Check.length_of_mapM hchunks, List.length_zipIdx, Layout.length_ofLinked,
      length_of_link hlinked]
  have hzero : (Layout.ofLinked linked).start 0 = 0 := Layout.getD_startsOf_zero
  obtain ⟨read, hread, hreadLength, hall⟩ := readFrom_flatten (Layout.ofLinked linked).start
    (code.ReadsAs pool (Layout.ofLinked linked)) 0 fun i chunk hchunk => by
      rw [Nat.zero_add]
      exact read_of_chunk hlinked hlength hchunks hchunk
  rw [hzero] at hread
  simp only [Nat.zero_add, count] at hall
  refine ⟨read, hread, hreadLength.trans count, ?_⟩
  intro position source hsource
  obtain ⟨seen, hseen, source', instruction, hsource', links, becomes, denotes⟩ :=
    hall position (Array.getElem?_eq_some_iff.mp hsource).1
  obtain rfl : source = source' := Option.some.inj (hsource.symm.trans hsource')
  refine ⟨_, seen, hseen, becomes, Operand.Denotes.of_related links.operand ?_ ?_ ?_ denotes⟩
  · intro target place displacement htarget hlands
    obtain ⟨hresolve, hplace⟩ := branchTarget_eq_ok.mp htarget
    obtain ⟨seen', hseen', -⟩ := hall place hplace
    exact ⟨place, _, hresolve, by rw [hseen']; rfl, hlands⟩
  · intro entry reference index hrefers hindex
    exact ⟨reference.index, hrefers.2, hindex⟩
  · rintro entry reference slots hrefers ⟨member, descriptor, hmember, hparse, hslots⟩
    exact ⟨member, descriptor, by rw [hrefers.1, hmember], hparse, hslots⟩

/-- A load, a switch that goes back to it or on to the end, a jump back, and a return. -/
def loadAndSwitch : Code :=
  { Code.empty 1 with
    instructions := #[
      ⟨Opcode.ldc, .constant ⟨0⟩⟩,
      ⟨0xab, .switch (.lookup [(-7, .position 0), (9, .label ⟨0⟩)] (.label ⟨0⟩))⟩,
      ⟨Opcode.goto, .branch (.position 0)⟩,
      ⟨Opcode.ret, .none⟩]
    labels := #[some 3] }

/-- A stable pool with one number. -/
def oneNumber : Pool :=
  ⟨#[⟨.integer 70000, [], 1, some 1⟩], ∅, ⟨#[(1, ⟨0⟩)], 2⟩, .stable, 2⟩

/-- What `loadAndSwitch` becomes.  The operand of the switch, which starts at 2, is
aligned by one byte. -/
def loadAndSwitchPayload : CodeAttribute :=
  ⟨16, 1, ⟨[18, 1, 171, 0, 0, 0, 0, 29, 0, 0, 0, 2, 255, 255, 255, 249, 255, 255, 255, 254,
    0, 0, 0, 9, 0, 0, 0, 29, 167, 255, 228, 177]⟩, [], []⟩

theorem loadAndSwitch_reads_back :
    loadAndSwitch.assemble oneNumber = .ok loadAndSwitchPayload ∧
    ∃ read, readCode loadAndSwitchPayload.code.bytes = some read ∧ read.length = 4 ∧
      ∀ (position : Nat) (source : SourceInstruction),
        loadAndSwitch.instructions[position]? = some source →
        ∃ start seen, read[position]? = some (start, seen) ∧
          source.opcode.Becomes seen.opcode ∧
          source.operand.Denotes (loadAndSwitch.LandsOn read start) oneNumber.Indexes
            oneNumber.CallTakes seen.operand := by
  have assembled : loadAndSwitch.assemble oneNumber = .ok loadAndSwitchPayload := by
    decide +kernel
  exact ⟨assembled, assemble_reads_back assembled⟩

end Code

end JvmAsm
