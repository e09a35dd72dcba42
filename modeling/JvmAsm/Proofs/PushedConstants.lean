import JvmAsm.Proofs.AssemblyAcceptance
import JvmAsm.Proofs.CodeMeaning

/-! # Pushed constants

A constant is pushed in one of several ways: by an opcode of its own, by a number behind
the opcode, or from the pool.  Which of them it is gets decided at once, but the index
behind a load, and with it the choice between a short and a long form, only when the code
is assembled, and until then other constants may come in and change the order.

What an instruction pushes is therefore defined from the description of the instruction
set, opcode by opcode (`Operand.pushed?`), for any kind of references, given the constants
they stand for.  For code under construction these are the constants of entries, and for
code that was read the constants found at indices; an entry and its index stand for the
same constant (`Pool.Indexes.constantAt?_eq`), so assembling an instruction does not change
what it pushes (`Code.ReadsAs.pushed?_eq`).

Floating point constants are bits, here as everywhere: the negative zero and every
not-a-number are constants of their own. -/

namespace JvmAsm

/-! ## What instructions push -/

namespace Constant

/-- There are instructions that push the constant. -/
def Loadable : Constant → Prop
  | .integer _ | .float _ | .long _ | .double _ | .string _ | .refType _ => True
  | .utf8 _ | .fieldRef _ | .methodRef _ | .interfaceMethodRef _ | .nameAndType _ => False

theorem Inline.loadable {constant : Constant} (h : constant.Inline) : constant.Loadable := by
  cases constant with
  | integer | long | float | double => trivial
  | utf8 | refType | string | fieldRef | methodRef | interfaceMethodRef | nameAndType =>
    exact h.elim

theorem loadable_iff (constant : Constant) :
    constant.Loadable ↔ constant.tag.toNat ∈ operandTags constant.loader.toNat := by
  cases constant <;>
    simp [Loadable, loader, isWideLoadable, tag, operandTags, Opcode.ldc, Opcode.ldc2W]

end Constant

/-- What opcodes without operand push. -/
def pushedByPlain? (opcode : Nat) : Option Constant :=
  if 0x02 ≤ opcode ∧ opcode ≤ 0x08 then
    some (.integer (Int32.ofInt ((opcode : Int) - 3)))              -- iconst_m1 to iconst_5
  else if opcode = 0x09 then some (.long 0)                         -- lconst_0
  else if opcode = 0x0a then some (.long 1)                         -- lconst_1
  else if opcode = 0x0b then some (.float 0)                        -- fconst_0
  else if opcode = 0x0c then some (.float 0x3f800000)               -- fconst_1
  else if opcode = 0x0d then some (.float 0x40000000)               -- fconst_2
  else if opcode = 0x0e then some (.double 0)                       -- dconst_0
  else if opcode = 0x0f then some (.double 0x3ff0000000000000)      -- dconst_1
  else none

/-- The opcodes of the numbers from -1 to 5 stand side by side. -/
theorem pushedByPlain?_of_small {value : Int32} (small : -1 ≤ value.toInt ∧ value.toInt ≤ 5) :
    pushedByPlain? (3 + value.toInt).toNat = some (.integer value) := by
  have number : ((3 + value.toInt).toNat : Int) - 3 = value.toInt := by omega
  unfold pushedByPlain?
  rw [if_pos (by omega), number, Int32.ofInt_toInt]

namespace Operand

variable {τ υ κ μ : Type}

/-- **What an opcode pushes with its operand**, given the constants that references stand for. -/
def pushed? (opcode : Nat) (known : κ → Option Constant) : Operand τ κ → Option Constant
  | .none => pushedByPlain? opcode
  | .int number =>
    if opcode = 0x10 ∨ opcode = 0x11 then some (.integer number)    -- bipush, sipush
    else .none
  | .constant reference =>
    if 0x12 ≤ opcode ∧ opcode ≤ 0x14 then                           -- ldc, ldc_w, ldc2_w
      (known reference).filter fun constant => constant.tag.toNat ∈ operandTags opcode
    else .none
  | _ => .none

theorem Related.pushed?_eq {lands : τ → υ → Prop} {names : κ → μ → Prop}
    {known : κ → Option Constant} {known' : μ → Option Constant}
    (hknown : ∀ r r', names r r' → known' r' = known r) {operand : Operand τ κ}
    {operand' : Operand υ μ} (h : operand.Related lands names operand') (opcode : Nat) :
    operand'.pushed? opcode known' = operand.pushed? opcode known := by
  cases operand <;> cases operand' <;> try exact False.elim h
  case int.int number number' =>
    obtain rfl : number' = number := h
    rfl
  case constant.constant r r' => simp only [pushed?, hknown r r' h]
  all_goals rfl

end Operand

/-- The wide form of an instruction pushes what its short form does. -/
theorem Opcode.Becomes.pushed?_eq {τ κ : Type} {source final : Opcode} (h : source.Becomes final)
    (known : κ → Option Constant) (operand : Operand τ κ) :
    operand.pushed? final.toNat known = operand.pushed? source.toNat known := by
  rcases h with rfl | ⟨rfl, rfl⟩ | ⟨rfl, rfl⟩ | ⟨rfl, rfl⟩
  · rfl
  all_goals cases operand <;> rfl

/-- What an instruction pushes that was read, given the constants at indices. -/
def ReadInstruction.pushed? (seen : ReadInstruction) (known : Nat → Option Constant) :
    Option Constant :=
  seen.operand.plain.pushed? seen.opcode.toNat known

/-! ## The choice of an instruction -/

namespace Opcode

/-- No operand stands behind the first sixteen opcodes. -/
theorem form_of_le {n : Nat} (small : n ≤ 15) : Opcode.form (UInt8.ofNat n) = .plain := by
  have all : ∀ n < 16, Opcode.form (UInt8.ofNat n) = .plain := by decide +kernel
  exact all n (Nat.lt_succ_of_le small)

theorem form_bipush : bipush.form = .signedByte := by decide +kernel
theorem form_sipush : sipush.form = .signedShort := by decide +kernel
theorem form_ldc : ldc.form = .narrowConstant := by decide +kernel
theorem form_ldc2W : ldc2W.form = .wideConstant := by decide +kernel
theorem mnemonic_ldc : ldc.mnemonic = "ldc" := by decide +kernel

end Opcode

attribute [local irreducible] Opcode.form

theorem Constant.fits_loader {τ κ : Type} (constant : Constant) (reference : κ) :
    (Operand.constant reference : Operand τ κ).fits constant.loader.form = true := by
  unfold loader
  split
  · rw [Opcode.form_ldc2W]
    rfl
  · rw [Opcode.form_ldc]
    rfl

/-- The instruction that loads a constant pushes it. -/
theorem Constant.pushed?_loader {τ κ : Type} {constant : Constant} {known : κ → Option Constant}
    {reference : κ} (h : known reference = some constant) (loadable : constant.Loadable) :
    (Operand.constant reference : Operand τ κ).pushed? constant.loader.toNat known =
      some constant := by
  have tagged := constant.loadable_iff.mp loadable
  have load : 0x12 ≤ constant.loader.toNat ∧ constant.loader.toNat ≤ 0x14 := by
    unfold loader
    split <;> decide
  simp [Operand.pushed?, load, h, tagged]

namespace Instruction

variable {constant : Constant} {instruction : SourceInstruction} {pool pool' : Pool}

/-- The instruction pushes the constant without the pool, and has room for what it does not say by
its opcode. -/
structure Inlines (constant : Constant) (instruction : SourceInstruction) : Prop where
  shape : instruction.operandMatches = true
  operand : instruction.operand = .none ∨ ∃ number : Int32,
    instruction.operand = .int number ∧ instruction.opcode.form.Holds number.toInt
  pushes : ∀ known, instruction.operand.pushed? instruction.opcode.toNat known = some constant

theorem inlines_plain {n : Nat} (small : n ≤ 15) (pushes : pushedByPlain? n = some constant) :
    Inlines constant (plain (UInt8.ofNat n)) where
  shape := by
    show Operand.fits (Opcode.form (UInt8.ofNat n)) _ = true
    rw [Opcode.form_of_le small]
    rfl
  operand := .inl rfl
  pushes _ := by
    have same : (UInt8.ofNat n).toNat = n :=
      UInt8.toNat_ofNat_of_lt' (Nat.lt_of_le_of_lt small (by decide))
    simpa only [plain, same, Operand.pushed?] using pushes

/-- A number behind an opcode that pushes it, if there is room for the number. -/
theorem inlines_number {opcode : Opcode} {value : Int32}
    (pushes : opcode = Opcode.bipush ∨ opcode = Opcode.sipush)
    (holds : opcode.form.Holds value.toInt) : Inlines (.integer value) ⟨opcode, .int value⟩ where
  shape := by
    show Operand.fits opcode.form _ = true
    rcases pushes with rfl | rfl
    · rw [Opcode.form_bipush]
      rfl
    · rw [Opcode.form_sipush]
      rfl
  operand := .inr ⟨value, rfl, holds⟩
  pushes _ := by rcases pushes with rfl | rfl <;> rfl

theorem Inlined.inlines (h : Inlined constant instruction) : instruction.Inlines constant := by
  cases h with
  | @small value range =>
    exact inlines_plain (by omega) (pushedByPlain?_of_small range)
  | byte range =>
    refine inlines_number (.inl rfl) ?_
    rw [Opcode.form_bipush]
    exact range
  | short range =>
    refine inlines_number (.inr rfl) ?_
    rw [Opcode.form_sipush]
    exact range
  | long0 | long1 | float0 | float1 | float2 | double0 | double1 =>
    exact inlines_plain (by decide) rfl

/-- What a pushing leaves behind. -/
theorem push_eq_ok (h : push constant pool = .ok instruction pool') :
    (constant.Inline ∧ pool' = pool ∧ instruction.Inlines constant) ∨
      ¬ constant.Inline ∧ ∃ entry, instruction = ⟨constant.loader, .constant entry⟩ ∧
        Pool.add constant pool = .ok entry pool' := by
  rcases push_spec constant with ⟨inline, other, same, inlined⟩ | ⟨notInline, same⟩
  · rw [same] at h
    obtain ⟨rfl, rfl⟩ := Attempt.pure_eq_ok.mp h
    exact .inl ⟨inline, rfl, inlined.inlines⟩
  · rw [same] at h
    obtain ⟨entry, _, added, rest⟩ := Attempt.bind_eq_ok.mp h
    obtain ⟨rfl, rfl⟩ := Attempt.pure_eq_ok.mp rest
    exact .inr ⟨notInline, entry, rfl, added⟩

end Instruction

/-! ## Assembling a pushed constant -/

/-- **An index stands for the constant of its entry.** -/
theorem Pool.Indexes.constantAt?_eq {pool : Pool} (hpool : pool.Invariant)
    (settled : pool.state ≠ .growing) {entry : Entry} {index : Nat} (h : pool.Indexes entry index) :
    pool.constantAt? (UInt16.ofNat index) = pool.constant? entry := by
  obtain ⟨constant, present⟩ := h.exists_constant?
  obtain ⟨i, hindex, rfl⟩ := h
  obtain ⟨j, hj, -, hcell⟩ := index_of_constant? hpool settled present
  obtain rfl := Except.ok.inj (hindex.symm.trans hj)
  rw [UInt16.ofNat_toNat, present]
  exact (constantAt?_eq_some_iff hpool settled).mpr ⟨entry, hcell, present⟩

theorem Operand.Related.targets_eq_nil {τ υ κ μ : Type} {lands : τ → υ → Prop}
    {names : κ → μ → Prop} {operand : Operand τ κ} {operand' : Operand υ μ}
    (h : operand.Related lands names operand') (straight : operand.targets = []) :
    operand'.targets = [] := by
  cases operand <;> cases operand' <;> try exact False.elim h
  case branch.branch => cases straight
  case switch.switch => cases straight
  all_goals rfl

/-- Only a switch is longer than that. -/
theorem Instruction.length_le {τ κ : Type} {instruction : Instruction τ κ}
    (straight : instruction.operand.targets = []) (padding : Nat) :
    instruction.length padding ≤ 5 := by
  have fixed (form : OperandForm) : form.fixedLength?.getD 0 ≤ 4 := by cases form <;> decide
  obtain ⟨opcode, operand⟩ := instruction
  have here := fixed opcode.form
  cases operand with
  | switch cases => cases straight
  | none | int | constant | branch | increment =>
    show 1 + opcode.form.fixedLength?.getD 0 ≤ 5
    omega

namespace Code

variable {code : Code} {pool : Pool} {source : SourceInstruction}

theorem assemble_of_linkAt_error (only : code.instructions = #[source]) {cause : Error}
    (h : code.linkAt pool 0 source = .error cause) : code.assemble pool = .error cause := by
  have unlinked : code.link pool = .error cause := by simp [link, only, h]
  exact Check.bind_eq_error.mpr (.inl (Check.bind_eq_error.mpr (.inl unlinked)))

section

variable (hpool : pool.Invariant) (settled : pool.state ≠ .growing)

include hpool settled

/-- **Assembling does not change what an instruction pushes.** -/
theorem ReadsAs.pushed?_eq {layout : Layout} {position : Nat} {seen : ReadInstruction}
    (h : code.ReadsAs pool layout position seen)
    (hsource : code.instructions[position]? = some source) :
    seen.pushed? (fun index => pool.constantAt? (UInt16.ofNat index)) =
      source.operand.pushed? source.opcode.toNat pool.constant? := by
  obtain ⟨becomes, denotes⟩ := h.denotes hsource
  rw [ReadInstruction.pushed?, denotes.related.pushed?_eq
    (fun _ _ indexed => indexed.constantAt?_eq hpool settled), becomes.pushed?_eq]

/-- What is read of a single instruction. -/
theorem exists_seen_of_only (only : code.instructions = #[source]) {payload : CodeAttribute}
    (h : code.assemble pool = .ok payload) :
    ∃ seen, readCode payload.code.bytes = some [(0, seen)] ∧
      seen.pushed? (fun index => pool.constantAt? (UInt16.ofNat index)) =
        source.operand.pushed? source.opcode.toNat pool.constant? := by
  obtain ⟨layout, chunks, table, attributes, hlayout, hchunks, -, -, rfl⟩ := assemble_eq_ok.mp h
  obtain ⟨read, hread, count, found⟩ := exists_read hlayout hchunks
  have one : code.length = 1 := by simp [length, only]
  obtain ⟨seen, hseen, readsAs⟩ := found 0 (by omega)
  have first : layout.start 0 = 0 := by
    obtain ⟨linked, -, rfl, -⟩ := layout_eq_ok.mp hlayout
    exact Layout.getD_startsOf_zero
  obtain ⟨single, rfl⟩ := List.length_eq_one_iff.mp (count.trans one)
  obtain rfl : single = (layout.start 0, seen) := Option.some.inj hseen
  refine ⟨seen, ?_, readsAs.pushed?_eq hpool settled (by simp [only])⟩
  rw [hread, first]

theorem exists_assemble_of_only (only : code.instructions = #[source])
    (unguarded : code.handlers = #[]) (bare : code.attributes = .empty)
    (linkable : code.Linkable pool source) (encodable : Encodable pool source)
    (straight : source.operand.targets = []) : ∃ payload, code.assemble pool = .ok payload := by
  have at_zero : code.instructions[0]? = some source := by simp [only]
  obtain ⟨linked, hlinked⟩ : Check.Passes (code.link pool) :=
    (passes_link hpool settled).mpr (by simpa [only] using linkable)
  obtain ⟨instruction, hinstruction, links⟩ := links_of_link hlinked at_zero
  have short : (Layout.ofLinked linked).length ≤ 5 := by
    have one : linked.length = 1 := by simp [length_of_link hlinked, length, only]
    rw [Layout.length, Layout.length_ofLinked, one, Layout.start_ofLinked_succ hinstruction,
      show (Layout.ofLinked linked).start 0 = 0 from Layout.getD_startsOf_zero, Nat.zero_add]
    refine Instruction.length_le ?_ _
    rw [Layout.operand_widen]
    exact links.operand.targets_eq_nil straight
  have fits : ∀ (position : Nat) other, code.instructions[position]? = some other →
      code.ConditionalFits (Layout.ofLinked linked) position other := by
    intro position other hother target _ _ hbranch _
    have same : other = source := by simpa [only] using Array.mem_of_getElem? hother
    rw [← same, hbranch] at straight
    cases straight
  refine passes_assemble.mpr ⟨.ofLinked linked, layout_eq_ok.mpr ⟨linked, hlinked, rfl, ?_⟩,
    (passes_encodeAll hlinked).mpr ⟨by simpa [only] using encodable, fits⟩,
    (passes_exceptionTable hpool settled _).mpr (by simp [unguarded]),
    (Attributes.passes_resolve hpool settled _).mpr (by simp [bare, Attributes.empty])⟩
  exact short.trans (by decide)

/-- An instruction without a constant of the pool. -/
theorem exists_assemble_of_inlines (only : code.instructions = #[source])
    (unguarded : code.handlers = #[]) (bare : code.attributes = .empty) {constant : Constant}
    (h : source.Inlines constant) : ∃ payload, code.assemble pool = .ok payload := by
  obtain ⟨opcode, operand⟩ := source
  have kind := (opcode.admits_iff operand).mpr h.shape
  rcases h.operand with hoperand | ⟨number, hoperand, holds⟩
  · obtain rfl : operand = .none := hoperand
    exact exists_assemble_of_only hpool settled only unguarded bare
      ⟨kind, by simp [Operand.targets], by simp, by simp⟩ ⟨by simp, by simp, by simp⟩ rfl
  · obtain rfl : operand = .int number := hoperand
    exact exists_assemble_of_only hpool settled only unguarded bare
      ⟨kind, by simp [Operand.targets], by simp, by simp⟩
      ⟨by simpa [Opcode.holds_iff] using holds, by simp, by simp⟩ rfl

/-- A constant from the pool. -/
theorem exists_assemble_of_loadable {entry : Entry} {constant : Constant}
    (only : code.instructions = #[⟨constant.loader, .constant entry⟩])
    (unguarded : code.handlers = #[]) (bare : code.attributes = .empty)
    (present : pool.constant? entry = some constant) (loadable : constant.Loadable) :
    ∃ payload, code.assemble pool = .ok payload := by
  have kind := (constant.loader.admits_iff (Operand.constant entry : Operand Target Entry)).mpr
    (constant.fits_loader entry)
  have uncalled : constant.loader.form ≠ .interfaceMethod := by
    unfold Constant.loader
    split
    · rw [Opcode.form_ldc2W]
      decide
    · rw [Opcode.form_ldc]
      decide
  have tagged := constant.loadable_iff.mp loadable
  exact exists_assemble_of_only hpool settled only unguarded bare
    ⟨kind, by simp [Operand.targets], by simp, by simpa [present] using tagged⟩
    ⟨by simp, by simp,
      fun _ called => absurd ((Opcode.form_eq_interfaceMethod_iff _).mpr called) uncalled⟩ rfl

/-- A constant that no instruction loads. -/
theorem assemble_of_not_loadable {entry : Entry} {constant : Constant}
    (only : code.instructions = #[⟨constant.loader, .constant entry⟩])
    (present : pool.constant? entry = some constant) (unloadable : ¬ constant.Loadable) :
    code.assemble pool = .error (.invalidOperand 0 "ldc") := by
  have narrow : constant.loader = Opcode.ldc := by
    cases constant <;> first | rfl | exact absurd trivial unloadable
  have unsuited : Opcode.ldc.suits constant = false := by
    rw [← narrow, Bool.eq_false_iff, Ne, Opcode.suits_iff, ← constant.loadable_iff]
    exact unloadable
  obtain ⟨index, hindex, -⟩ := Pool.index_of_constant? hpool settled present
  have refused : linkConstant pool 0 Opcode.ldc entry = .error (.invalidOperand 0 "ldc") := by
    unfold linkConstant
    rw [present]
    refine Check.bind_eq_error.mpr (.inr ⟨index, hindex, ?_⟩)
    simp [unsuited, Opcode.mnemonic_ldc]
  refine assemble_of_linkAt_error only ?_
  have shape : (Operand.constant entry : Operand Target Entry).fits Opcode.ldc.form = true :=
    narrow ▸ constant.fits_loader entry
  have supported : Opcode.ldc.form ≠ .unsupported := by
    rw [Opcode.form_ldc]
    decide
  rw [narrow]
  simp only [linkAt, Instruction.operandMatches, shape, if_neg supported]
  exact Check.bind_eq_error.mpr (.inl refused)

end

end Code

/-! ## Pushing and loading -/

/-- **A pushed constant is what gets loaded.**  It goes into the pool only if there is no
instruction that has it inline.  In every later state of the pool in which indices are fixed, the
instruction can be assembled if and only if the constant is one that instructions load, and is
refused for its operand otherwise; and what is read back from the bytes, with the constants that the
pool has at indices, pushes exactly the constant that was asked for. -/
theorem Instruction.pushed_constant_is_loaded {constant : Constant}
    {instruction : SourceInstruction}
    {pool pool' : Pool} (reached : pool.Reachable)
    (pushed : push constant pool = .ok instruction pool') :
    ((constant.Inline ∧ pool' = pool ∧ ∀ entry, instruction.operand ≠ .constant entry) ∨
        ¬ constant.Inline ∧ ∃ entry, instruction.operand = .constant entry ∧
          Pool.add constant pool = .ok entry pool') ∧
      ∀ later, (pool'.after later).state ≠ .growing → ∀ code : Code,
        code.instructions = #[instruction] → code.handlers = #[] → code.attributes = .empty →
        (constant.Loadable → ∃ payload seen, code.assemble (pool'.after later) = .ok payload ∧
          readCode payload.code.bytes = some [(0, seen)] ∧
          seen.pushed? (fun index => (pool'.after later).constantAt? (UInt16.ofNat index)) =
            some constant) ∧
        (¬ constant.Loadable →
          code.assemble (pool'.after later) = .error (.invalidOperand 0 "ldc")) := by
  have hpool := reached.invariant
  rcases push_eq_ok pushed with ⟨inline, rfl, inlines⟩ | ⟨notInline, entry, rfl, added⟩
  · refine ⟨.inl ⟨inline, rfl, ?_⟩, ?_⟩
    · intro entry refers
      rcases inlines.operand with plain | ⟨number, plain, -⟩ <;>
        rw [plain] at refers <;> cases refers
    · intro later settled code only unguarded bare
      refine ⟨fun _ => ?_, fun unloadable => absurd inline.loadable unloadable⟩
      obtain ⟨payload, assembled⟩ :=
        Code.exists_assemble_of_inlines (hpool.after later) settled only
        unguarded bare inlines
      obtain ⟨seen, read, pushes⟩ :=
        Code.exists_seen_of_only (hpool.after later) settled only assembled
      exact ⟨payload, seen, assembled, read, pushes.trans (inlines.pushes _)⟩
  · obtain ⟨grown, present⟩ := (Pool.interns_add constant hpool).ok entry pool' added
    have hpool' := grown.invariant hpool
    refine ⟨.inr ⟨notInline, entry, rfl, added⟩, ?_⟩
    intro later settled code only unguarded bare
    have still := (Pool.extends_after hpool' later).constant? present
    refine ⟨fun loadable => ?_,
      Code.assemble_of_not_loadable (hpool'.after later) settled only still⟩
    obtain ⟨payload, assembled⟩ :=
      Code.exists_assemble_of_loadable (hpool'.after later) settled only
      unguarded bare still loadable
    obtain ⟨seen, read, pushes⟩ :=
      Code.exists_seen_of_only (hpool'.after later) settled only assembled
    exact ⟨payload, seen, assembled, read, pushes.trans (constant.pushed?_loader still loadable)⟩

/-- The zero that no instruction has inline. -/
def Constant.negativeZero : Constant := .float 0x80000000

namespace Pool

/-- A pool that the negative zero went into first. -/
def withZero : Pool := empty.after [.add .negativeZero]

/-- A pool that a text went into first. -/
def withText : Pool := empty.after [.add (.utf8 "x")]

/-- A text that is used more often takes the first index. -/
def textFirst : List Edit := [.add (.utf8 "x"), .add (.utf8 "x"), .optimize]

end Pool

/-- Code with the one instruction that loads the first constant of a pool. -/
def Code.firstLoaded : Code :=
  { Code.empty 0 with instructions := #[⟨Opcode.ldc, .constant ⟨0⟩⟩] }

/-- The negative zero is loaded, from wherever it is in the end.  A text can be pushed as well, but
not loaded. -/
theorem Instruction.negative_zero_is_loaded :
    push .negativeZero .empty = .ok ⟨Opcode.ldc, .constant ⟨0⟩⟩ Pool.withZero ∧
      ¬ Constant.negativeZero.Inline ∧ (Pool.withZero.after Pool.textFirst).state ≠ .growing ∧
      (Pool.withZero.after Pool.textFirst).index ⟨0⟩ = .ok 2 ∧
      (∃ payload seen,
        Code.firstLoaded.assemble (Pool.withZero.after Pool.textFirst) = .ok payload ∧
        readCode payload.code.bytes = some [(0, seen)] ∧
        seen.pushed? (fun index =>
          (Pool.withZero.after Pool.textFirst).constantAt? (UInt16.ofNat index)) =
            some .negativeZero) ∧
      push (.utf8 "x") .empty = .ok ⟨Opcode.ldc, .constant ⟨0⟩⟩ Pool.withText ∧
      (Pool.withText.after [.stabilize]).state ≠ .growing ∧
      Code.firstLoaded.assemble (Pool.withText.after [.stabilize]) =
        .error (.invalidOperand 0 "ldc") := by
  have pushedZero : push .negativeZero .empty = .ok ⟨Opcode.ldc, .constant ⟨0⟩⟩ Pool.withZero := by
    cbv
  have pushedText : push (.utf8 "x") .empty = .ok ⟨Opcode.ldc, .constant ⟨0⟩⟩ Pool.withText := by
    show load Opcode.ldc (.utf8 "x") .empty = _
    cbv
  have stableZero : (Pool.withZero.after Pool.textFirst).state = .stable := by cbv
  have stableText : (Pool.withText.after [.stabilize]).state = .stable := by cbv
  have second : (Pool.withZero.after Pool.textFirst).index ⟨0⟩ = .ok 2 := by cbv
  have settledZero := Pool.settled_of_state stableZero (by decide)
  have settledText := Pool.settled_of_state stableText (by decide)
  have pooled : ¬ Constant.negativeZero.Inline := by simp [Constant.Inline, Constant.negativeZero]
  obtain ⟨-, loads⟩ := pushed_constant_is_loaded ⟨[], rfl⟩ pushedZero
  obtain ⟨-, refuses⟩ := pushed_constant_is_loaded ⟨[], rfl⟩ pushedText
  exact ⟨pushedZero, pooled, settledZero, second,
    (loads Pool.textFirst settledZero Code.firstLoaded rfl rfl rfl).1 trivial, pushedText,
    settledText, (refuses [.stabilize] settledText Code.firstLoaded rfl rfl rfl).2 id⟩

end JvmAsm
