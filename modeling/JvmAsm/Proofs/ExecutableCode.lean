import JvmAsm.Proofs.AssemblyAcceptance
import JvmAsm.Proofs.Execution

/-! # Code that is made of operations is assembled

Operations are more than a way to execute what was assembled.  An instruction that has one is of a
shape that the assembler takes, and no longer than three bytes; so code that consists of such
instructions is assembled whenever its branches lead to instructions, its numbers have room and
it is not too long for a branch from one end to the other (`Code.Executable.assembled`).  Nothing
about indices or starts has to be computed for this. -/

namespace JvmAsm

/-- The forms of the opcodes that have operations. -/
theorem Opcode.form_of_operation : ∀ opcode : Opcode,
    ((2 ≤ opcode.toNat ∧ opcode.toNat ≤ 8 ∨ opcode.toNat = 0x59 ∨ opcode.toNat = 0x60 ∨
      opcode.toNat = 0xb1) → opcode.form = .plain) ∧
    (opcode.toNat = 0x10 → opcode.form = .signedByte) ∧
    (opcode.toNat = 0x11 → opcode.form = .signedShort) ∧
    (opcode.toNat = 0x12 → opcode.form = .narrowConstant) ∧
    (opcode.toNat = 0x13 → opcode.form = .wideConstant) ∧
    (opcode.toNat = 0xa1 → opcode.form = .branch) ∧
    (opcode.toNat = 0xb2 ∨ opcode.toNat = 0xb3 → opcode.form = .fieldRef) ∧
    (opcode.toNat = 0xb6 → opcode.form = .methodRef) :=
  forall_of_lt (by decide +kernel)

namespace Operation

variable {τ : Type} {opcode : Opcode} {operation : Operation τ}

theorem form_of_ofConstant? {value : ConstantValue}
    (h : ofConstant? opcode.toNat value = some operation) :
    opcode.form = .narrowConstant ∨ opcode.form = .wideConstant ∨ opcode.form = .fieldRef ∨
      opcode.form = .methodRef := by
  obtain ⟨-, -, -, narrow, wide, -, field, method⟩ := opcode.form_of_operation
  cases value with
  | integer number =>
    simp only [ofConstant?] at h
    split_ifs at h with load
    rcases load with short | long
    · exact .inl (narrow short)
    · exact .inr (.inl (wide long))
  | fieldRef field' =>
    simp only [ofConstant?] at h
    split_ifs at h with get put
    · exact .inr (.inr (.inl (field (.inl get))))
    · exact .inr (.inr (.inl (field (.inr put))))
  | methodRef method' =>
    simp only [ofConstant?] at h
    split_ifs at h with call
    exact .inr (.inr (.inr (method call)))
  | _ => cases h

/-- The constants that operations refer to are of a kind that their opcodes take. -/
theorem tag_of_ofConstant? {constant : Constant}
    (h : ofConstant? opcode.toNat constant.value = some operation) :
    constant.tag.toNat ∈ operandTags opcode.toNat := by
  cases constant with
  | integer number =>
    simp only [Constant.value, ofConstant?] at h
    split_ifs at h with load
    simp [operandTags, Constant.tag, load]
  | fieldRef member =>
    simp only [Constant.value, ofConstant?] at h
    split_ifs at h with get put
    · simp [operandTags, Constant.tag, get]
    · simp [operandTags, Constant.tag, put]
  | methodRef member =>
    simp only [Constant.value, ofConstant?] at h
    split_ifs at h with call
    simp [operandTags, Constant.tag, call]
  | _ => cases h

end Operation

attribute [local irreducible] Opcode.form

namespace Instruction

variable {τ κ : Type} {instruction : Instruction τ κ} {known : κ → Option ConstantValue}
  {operation : Operation τ}

/-- **The shape of an instruction that has an operation**: the operand is of the right form, and it
takes at most two bytes. -/
theorem shape_of_operation? (h : instruction.operation? known = some operation) :
    instruction.operandMatches = true ∧ instruction.opcode.form ≠ .interfaceMethod ∧
      (∀ cases, instruction.operand ≠ .switch cases) ∧
      (∀ index delta, instruction.operand ≠ .increment index delta) ∧
      ∃ length ≤ 2, instruction.opcode.form.fixedLength? = some length := by
  obtain ⟨opcode, operand⟩ := instruction
  obtain ⟨plain, byte, short, -, -, branch, -, -⟩ := opcode.form_of_operation
  unfold operation? at h
  unfold operandMatches
  cases operand with
  | none =>
    have form : opcode.form = .plain := by
      refine plain ?_
      simp only [Operation.of?, Operation.ofPlain?] at h
      split_ifs at h <;> simp [*]
    simp [form, Operand.fits, OperandForm.fixedLength?]
  | int number =>
    simp only [Operation.of?] at h
    split_ifs at h with pushes
    rcases pushes with pushes | pushes
    · simp [byte pushes, Operand.fits, OperandForm.fixedLength?]
    · simp [short pushes, Operand.fits, OperandForm.fixedLength?]
  | constant reference =>
    obtain ⟨value, -, found⟩ := Option.bind_eq_some_iff.mp h
    rcases Operation.form_of_ofConstant? found with form | form | form | form <;>
      simp [form, Operand.fits, OperandForm.fixedLength?]
  | branch target =>
    simp only [Operation.of?] at h
    split_ifs at h with less
    simp [branch less, Operand.fits, OperandForm.fixedLength?]
  | increment index delta => cases h
  | switch cases => cases h

theorem length_of_operation? (h : instruction.operation? known = some operation) (padding : Nat) :
    instruction.length padding ≤ 3 := by
  obtain ⟨-, -, unswitched, -, length, short, hlength⟩ := shape_of_operation? h
  have exactly : instruction.length padding = 1 + length :=
    Layout.length_of_form padding rfl hlength unswitched
  omega

/-- What is known about entries stays known, and so do operations. -/
theorem operation?_mono {source : SourceInstruction} {pool pool' : Pool} (more : pool.Extends pool')
    {operation : Operation Target} (h : source.operation? pool.known = some operation) :
    source.operation? pool'.known = some operation := by
  obtain ⟨opcode, operand⟩ := source
  cases operand with
  | constant entry =>
    obtain ⟨value, known, found⟩ := Option.bind_eq_some_iff.mp h
    obtain ⟨constant, present, rfl⟩ := Option.map_eq_some_iff.mp known
    refine Option.bind_eq_some_iff.mpr ⟨constant.value, ?_, found⟩
    rw [Pool.known, more.constant? present, Option.map_some]
  | _ => exact h

end Instruction

namespace Code

variable {code : Code} {pool : Pool}

/-- **Code that can be executed**: it is made of operations, its branches lead to instructions, its
numbers have room in their operands, and it is short enough for every branch. -/
structure Executable (code : Code) (pool : Pool) : Prop where
  operations : ∀ source ∈ code.instructions.toList, ∃ operation,
    source.operation? pool.known = some operation
  targets : ∀ source ∈ code.instructions.toList, ∀ target ∈ source.operand.targets,
    code.Reaches target
  numbers : ∀ source ∈ code.instructions.toList, ∀ value, source.operand = .int value →
    source.opcode.form.Holds value.toInt
  short : 3 * code.length ≤ 32767
  handlers : code.handlers = #[]
  attributes : code.attributes = .empty

namespace Executable

theorem mono {pool' : Pool} (h : code.Executable pool) (more : pool.Extends pool') :
    code.Executable pool' :=
  { h with
    operations := fun source hsource => (h.operations source hsource).imp fun _ known =>
      Instruction.operation?_mono more known }

theorem linkable (h : code.Executable pool) {source : SourceInstruction}
    (hsource : source ∈ code.instructions.toList) : code.Linkable pool source := by
  obtain ⟨operation, hoperation⟩ := h.operations source hsource
  obtain ⟨shape, -, unswitched, -⟩ := Instruction.shape_of_operation? hoperation
  refine ⟨(source.opcode.admits_iff source.operand).mpr shape, h.targets source hsource,
    fun cases hcases => absurd hcases (unswitched cases), ?_⟩
  intro entry hentry
  rw [Instruction.operation?, hentry] at hoperation
  obtain ⟨value, known, found⟩ := Option.bind_eq_some_iff.mp hoperation
  obtain ⟨constant, present, rfl⟩ := Option.map_eq_some_iff.mp known
  exact ⟨constant, present, Operation.tag_of_ofConstant? found⟩

theorem encodable (h : code.Executable pool) {source : SourceInstruction}
    (hsource : source ∈ code.instructions.toList) : Encodable pool source := by
  obtain ⟨operation, hoperation⟩ := h.operations source hsource
  obtain ⟨-, uncalled, -, unchanged, -⟩ := Instruction.shape_of_operation? hoperation
  refine ⟨fun value hvalue => ?_,
    fun index delta hincrement => absurd hincrement (unchanged index delta),
    fun entry hcall => absurd ((Opcode.form_eq_interfaceMethod_iff _).mpr hcall) uncalled⟩
  exact (source.opcode.holds_iff _).mpr (h.numbers source hsource value hvalue)

/-- Linking and widening keep operations, so no instruction is longer than three bytes. -/
theorem start_le (h : code.Executable pool) {linked : List LinkedInstruction}
    (hlinked : code.link pool = .ok linked) {position : Nat} (inside : position ≤ code.length) :
    (Layout.ofLinked linked).start position ≤ 3 * position := by
  induction position with
  | zero => exact Nat.le_of_eq Layout.getD_startsOf_zero
  | succ position ih =>
    obtain ⟨source, instruction, hsource, hinstruction, links⟩ := links_of_lt hlinked inside
    have listed : source ∈ code.instructions.toList :=
      Array.mem_toList_iff.mpr (Array.mem_of_getElem? hsource)
    obtain ⟨operation, hoperation⟩ := h.operations source listed
    have agree : ∀ entry reference, Refers pool entry reference →
        Agree (pool.known entry) (some reference.constant.value) := by
      intro entry reference refers
      exact .of_eq (by rw [Pool.known, refers.1]; rfl) rfl
    have widens := becomes_of_links links (Layout.reach linked)
    obtain ⟨operation', hoperation', -⟩ := Operation.exists_of_related agree links.operand
      ((Operation.of?_of_becomes widens _ _).trans hoperation)
    have final : (Layout.widen (Layout.reach linked) position instruction).operation?
        (fun reference => some reference.constant.value) = some operation' := by
      rw [Instruction.operation?, Layout.operand_widen]
      exact hoperation'
    have before := ih (Nat.le_of_succ_le inside)
    have length := Instruction.length_of_operation? final
      (switchPadding ((Layout.ofLinked linked).start position))
    rw [Layout.start_ofLinked_succ hinstruction, Instruction.lengthAt]
    omega

/-- **Code that can be executed is assembled.** -/
theorem assembled (h : code.Executable pool) (hpool : pool.Invariant)
    (settled : pool.state ≠ .growing) :
    ∃ payload, code.assemble pool = .ok payload := by
  obtain ⟨linked, hlinked⟩ := (passes_link hpool settled).mpr fun source => h.linkable
  have starts (position : Nat) : (Layout.ofLinked linked).start position ≤ 3 * code.length := by
    refine Nat.le_trans (Layout.start_le_length linked position) ?_
    rw [Layout.length, Layout.length_ofLinked, length_of_link hlinked]
    exact h.start_le hlinked (Nat.le_refl _)
  have short := h.short
  refine passes_assemble.mpr ⟨.ofLinked linked, layout_eq_ok.mpr ⟨linked, hlinked, rfl, ?_⟩,
    (passes_encodeAll hlinked).mpr ⟨fun source => h.encodable, ?_⟩,
    (passes_exceptionTable hpool settled _).mpr ?_,
    (Attributes.passes_resolve hpool settled _).mpr ?_⟩
  · have := starts (Layout.ofLinked linked).instructions.length
    unfold Layout.length maxCount
    omega
  · intro position source _ target place _ _ _
    have here := starts position
    have there := starts place
    unfold Layout.start at here there
    unfold Layout.displacement
    omega
  · simp [h.handlers]
  · simp [h.attributes, Attributes.empty]

/-- The payload has nothing but the instructions. -/
theorem length_encode (h : code.Executable pool) {payload : CodeAttribute}
    (assembled : code.assemble pool = .ok payload) : (encode payload).length ≤ 65547 := by
  obtain ⟨layout, chunks, table, attributes, hlayout, hchunks, htable, hattributes, rfl⟩ :=
    assemble_eq_ok.mp assembled
  have rows := Check.length_of_mapM (exceptionTable_eq_ok htable).1
  have nested := Check.length_of_mapM hattributes
  rw [h.handlers] at rows
  rw [h.attributes] at nested
  obtain rfl := List.eq_nil_of_length_eq_zero rows
  obtain rfl := List.eq_nil_of_length_eq_zero nested
  have length := length_flatten_le hlayout hchunks
  rw [← CodeAttribute.bytes_asRead]
  simp only [ReadCode.bytes, CodeAttribute.asRead, countedBytes, List.map_nil, List.flatMap_nil,
    List.length_append, Bytes.length_ofNat, List.length_nil]
  omega

end Executable
end Code
end JvmAsm
