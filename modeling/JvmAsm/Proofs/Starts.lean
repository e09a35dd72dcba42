import JvmAsm.Code.Assembly
import JvmAsm.Proofs.Linking

/-! # Where instructions start

`Layout.startsOf` walks along the instructions once and notes every start.  Two
equations say all there is to know about the walk: the first instruction starts at
0, and each one starts where the one before it ends (`getD_startsOf_succ`).

They are used for two walks over the same code, that of the greatest lengths
(`Layout.reach`) and that of the real ones.  Widening and alignment only ever make
an instruction shorter than its greatest length (`lengthAt_widen_le`). -/

namespace JvmAsm

attribute [local irreducible] Opcode.form

namespace Layout

/-! ## The walk -/

section Walk

variable {α : Type} {length : Nat → α → Nat} {offset i : Nat} {known : Array Nat} {items : List α}

/-- Starts that are known stay as they are. -/
theorem getD_startsFrom_known (h : i < known.size) :
    (startsFrom length offset known items).getD i 0 = known.getD i 0 := by
  induction items generalizing offset known with
  | nil =>
    rw [startsFrom, Array.getD_eq_getD_getElem?, Array.getElem?_push_lt h]
    simp [h]
  | cons item items ih =>
    rw [startsFrom, ih (by rw [Array.size_push]; omega), Array.getD_eq_getD_getElem?,
      Array.getElem?_push_lt h]
    simp [h]

theorem getD_startsFrom_size :
    (startsFrom length offset known items).getD known.size 0 = offset := by
  have pushed : (known.push offset).getD known.size 0 = offset := by simp
  cases items with
  | nil => exact pushed
  | cons item items =>
    rw [startsFrom, getD_startsFrom_known (by rw [Array.size_push]; omega), pushed]

theorem getD_startsFrom_succ {item : α} (h : items[i]? = some item) :
    (startsFrom length offset known items).getD (known.size + i + 1) 0 =
      (startsFrom length offset known items).getD (known.size + i) 0 +
        length ((startsFrom length offset known items).getD (known.size + i) 0) item := by
  induction items generalizing offset known i with
  | nil => cases h
  | cons head items ih =>
    have size : (known.push offset).size = known.size + 1 := Array.size_push offset
    cases i with
    | zero =>
      obtain rfl : head = item := Option.some.inj h
      have here : (startsFrom length offset known (head :: items)).getD known.size 0 = offset :=
        getD_startsFrom_size
      have after : (startsFrom length offset known (head :: items)).getD (known.size + 1) 0 =
          offset + length offset head := by
        rw [startsFrom, ← size, getD_startsFrom_size]
      show (startsFrom length offset known (head :: items)).getD (known.size + 1) 0 =
        (startsFrom length offset known (head :: items)).getD known.size 0 +
          length ((startsFrom length offset known (head :: items)).getD known.size 0) head
      rw [after, here]
    | succ i =>
      have later : (startsFrom length (offset + length offset head) (known.push offset)
          items).getD ((known.push offset).size + i + 1) 0 = _ := ih h
      rw [size, show known.size + 1 + i = known.size + (i + 1) from by omega] at later
      exact later

theorem getD_startsOf_zero : (startsOf length items).getD 0 0 = 0 := getD_startsFrom_size

/-- **An instruction starts where the one before it ends.** -/
theorem getD_startsOf_succ {item : α} (h : items[i]? = some item) :
    (startsOf length items).getD (i + 1) 0 =
      (startsOf length items).getD i 0 + length ((startsOf length items).getD i 0) item := by
  have step : (startsFrom length 0 #[] items).getD ((#[] : Array Nat).size + i + 1) 0 = _ :=
    getD_startsFrom_succ h
  rw [show (#[] : Array Nat).size + i = i from Nat.zero_add i] at step
  exact step

/-- Starts ascend. -/
theorem getD_startsOf_le {j : Nat} (hij : i ≤ j) (hj : j ≤ items.length) :
    (startsOf length items).getD i 0 ≤ (startsOf length items).getD j 0 := by
  obtain ⟨d, rfl⟩ := Nat.exists_eq_add_of_le hij
  clear hij
  induction d with
  | zero => exact Nat.le_refl _
  | succ d ih =>
    have hitem : items[i + d]? = some _ := List.getElem?_eq_getElem (by omega)
    rw [← Nat.add_assoc, getD_startsOf_succ hitem]
    exact Nat.le_trans (ih (by omega)) (Nat.le_add_right _ _)

theorem size_startsFrom :
    (startsFrom length offset known items).size = known.size + items.length + 1 := by
  induction items generalizing offset known with
  | nil => exact Array.size_push offset
  | cons item items ih =>
    rw [startsFrom, ih, Array.size_push, List.length_cons]
    omega

/-- No start lies beyond the end of the last instruction. -/
theorem getD_startsOf_le_length (i : Nat) :
    (startsOf length items).getD i 0 ≤ (startsOf length items).getD items.length 0 := by
  rcases Nat.lt_or_ge items.length i with hlt | hle
  · have size : (startsOf length items).size = items.length + 1 := by
      rw [startsOf, size_startsFrom]
      exact congrArg (· + 1) (Nat.zero_add _)
    have beyond : (startsOf length items).getD i 0 = 0 := by
      rw [Array.getD_eq_getD_getElem?, Array.getElem?_eq_none (by omega)]
      rfl
    rw [beyond]
    exact Nat.zero_le _
  · exact getD_startsOf_le hle (Nat.le_refl _)

end Walk

/-! ## Greatest lengths and real lengths -/

/-- The starts if every instruction had its greatest length. -/
def reach (linked : List LinkedInstruction) : Array Nat :=
  startsOf (fun _ => Instruction.maxLength) linked

variable {linked : List LinkedInstruction} {position : Nat} {instruction : LinkedInstruction}

/-- A jump that reaches its target is kept, one that may not takes its wide form, and
nothing else changes. -/
theorem widen_cases (starts : Array Nat) (position : Nat) (instruction : LinkedInstruction) :
    (widen starts position instruction = instruction ∧
      ∀ target wide, instruction.operand = .branch target →
        instruction.opcode.widened? = some wide →
        fitsShort (displacement starts position target) = true) ∨
    ∃ target wide, instruction.operand = .branch target ∧
      instruction.opcode.widened? = some wide ∧
      widen starts position instruction = ⟨wide, .branch target⟩ := by
  unfold widen
  split
  · rename_i target wide hoperand hwide
    split
    · rename_i fits
      refine .inl ⟨rfl, ?_⟩
      intro target' _ htarget' _
      obtain rfl := Operand.branch.inj (hoperand.symm.trans htarget')
      exact fits
    · exact .inr ⟨target, wide, hoperand, hwide, by rw [hoperand]⟩
  · rename_i other
    exact .inl ⟨rfl, fun target wide htarget hwide => (other target wide htarget hwide).elim⟩

theorem operand_widen (starts : Array Nat) (position : Nat) (instruction : LinkedInstruction) :
    (widen starts position instruction).operand = instruction.operand := by
  rcases widen_cases starts position instruction with
    ⟨same, -⟩ | ⟨target, wide, hoperand, -, hwiden⟩
  · rw [same]
  · rw [hwiden, hoperand]

/-- Widening keeps the operand in the form of its opcode. -/
theorem operandMatches_widen (starts : Array Nat) (position : Nat)
    (shape : instruction.operandMatches = true) :
    (widen starts position instruction).operandMatches = true := by
  rcases widen_cases starts position instruction with ⟨same, -⟩ | ⟨target, wide, -, hwide, hwiden⟩
  · rw [same]
    exact shape
  · have hform : wide.form = .wideBranch := by
      rcases Opcode.widened?_eq_some hwide with ⟨-, rfl⟩ | ⟨-, rfl⟩
      · exact Opcode.form_gotoW
      · exact Opcode.form_jsrW
    rw [hwiden, Instruction.operandMatches, hform]
    rfl

theorem switchPadding_le (offset : Nat) : switchPadding offset ≤ 3 := by
  unfold switchPadding
  omega

/-- The length grows with the padding. -/
theorem length_mono {τ κ : Type} (instruction : Instruction τ κ) {padding padding' : Nat}
    (h : padding ≤ padding') : instruction.length padding ≤ instruction.length padding' := by
  obtain ⟨opcode, operand⟩ := instruction
  unfold Instruction.length
  cases operand with
  | switch cases => cases cases <;> simp only [SwitchTable.operandLength] <;> omega
  | _ => exact Nat.le_refl _

/-- The length of an instruction that is no switch is settled by its opcode. -/
theorem length_of_form {τ κ : Type} {opcode : Opcode} {form : OperandForm}
    {operand : Operand τ κ} {length : Nat} (padding : Nat) (hform : opcode.form = form)
    (hlength : form.fixedLength? = some length) (hoperand : ∀ cases, operand ≠ .switch cases) :
    (Instruction.mk opcode operand).length padding = 1 + length := by
  unfold Instruction.length
  cases operand with
  | switch cases => exact absurd rfl (hoperand cases)
  | none | int | constant | branch | increment =>
    dsimp only
    rw [hform, hlength]
    rfl

/-- **No instruction is longer than its greatest length**, wherever it stands and whether
or not it was widened. -/
theorem lengthAt_widen_le (starts : Array Nat) (position offset : Nat)
    (shape : instruction.operandMatches = true) :
    (widen starts position instruction).lengthAt offset ≤ instruction.maxLength := by
  obtain ⟨opcode, operand⟩ := instruction
  unfold Instruction.lengthAt Instruction.maxLength
  rcases widen_cases starts position ⟨opcode, operand⟩ with
    ⟨same, -⟩ | ⟨target, wide, hoperand, hwide, hwiden⟩
  · rw [same]
    cases hwide : opcode.widened? with
    | none => exact length_mono _ (switchPadding_le offset)
    | some wide =>
      -- The operand of a jump is a target, so its short form has three bytes.
      have hform : opcode.form = .branch := by
        rcases Opcode.widened?_eq_some hwide with ⟨rfl, -⟩ | ⟨rfl, -⟩
        · exact Opcode.form_goto
        · exact Opcode.form_jsr
      have shape : operand.fits opcode.form = true := shape
      rw [hform] at shape
      cases operand with
      | branch target =>
        have short : (Instruction.mk opcode (.branch target) : LinkedInstruction).length
            (switchPadding offset) = 3 := length_of_form _ hform rfl fun _ => nofun
        rw [short]
        exact Nat.le_add_right 3 2
      | none | int | constant | increment | switch => cases shape
  · have hlength : (Instruction.mk wide (.branch target) : LinkedInstruction).length
        (switchPadding offset) = 5 := by
      rcases Opcode.widened?_eq_some hwide with ⟨-, rfl⟩ | ⟨-, rfl⟩
      · exact length_of_form _ Opcode.form_gotoW rfl fun _ => nofun
      · exact length_of_form _ Opcode.form_jsrW rfl fun _ => nofun
    have hwide : opcode.widened? = some wide := hwide
    rw [hwiden, hlength, hwide]
    exact Nat.le_refl 5

theorem getElem?_ofLinked (h : linked[position]? = some instruction) :
    (ofLinked linked).instructions[position]? =
      some (widen (reach linked) position instruction) := by
  show (linked.zipIdx.map fun pair => widen (reach linked) pair.2 pair.1)[position]? = _
  rw [List.getElem?_map, List.getElem?_zipIdx, h]
  simp

theorem length_ofLinked : (ofLinked linked).instructions.length = linked.length := by
  show (linked.zipIdx.map _).length = _
  rw [List.length_map, List.length_zipIdx]

theorem start_ofLinked_succ (h : linked[position]? = some instruction) :
    (ofLinked linked).start (position + 1) = (ofLinked linked).start position +
      (widen (reach linked) position instruction).lengthAt ((ofLinked linked).start position) :=
  getD_startsOf_succ (getElem?_ofLinked h)

theorem start_le_start {i j : Nat} (hij : i ≤ j) (hj : j ≤ linked.length) :
    (ofLinked linked).start i ≤ (ofLinked linked).start j := by
  have bound : j ≤ (ofLinked linked).instructions.length := by rwa [length_ofLinked]
  exact getD_startsOf_le hij bound

theorem start_le_length (linked : List LinkedInstruction) (position : Nat) :
    (ofLinked linked).start position ≤ (ofLinked linked).length :=
  getD_startsOf_le_length position

theorem reach_succ (h : linked[position]? = some instruction) :
    (reach linked).getD (position + 1) 0 =
      (reach linked).getD position 0 + instruction.maxLength :=
  getD_startsOf_succ h

end Layout

/-- The layout of code is that of its linked instructions, and its length fits the format. -/
theorem Code.layout_eq_ok {code : Code} {pool : Pool} {layout : Layout} :
    code.layout pool = .ok layout ↔ ∃ linked, code.link pool = .ok linked ∧
      layout = Layout.ofLinked linked ∧ layout.length ≤ maxCount := by
  unfold Code.layout
  rw [Check.bind_eq_ok]
  constructor
  · rintro ⟨linked, hlinked, h⟩
    dsimp only at h
    split at h
    · cases h
    · rename_i hlength
      obtain rfl := Check.pure_eq_ok.mp h
      exact ⟨linked, hlinked, rfl, Nat.le_of_not_lt hlength⟩
  · rintro ⟨linked, hlinked, rfl, hlength⟩
    exact ⟨linked, hlinked, if_neg (Nat.not_lt.mpr hlength)⟩

/-- Assembled code is made of its layout, its rows of handlers and its attributes. -/
theorem Code.assemble_eq_ok {code : Code} {pool : Pool} {payload : CodeAttribute} :
    code.assemble pool = .ok payload ↔ ∃ layout chunks table attributes,
      code.layout pool = .ok layout ∧ layout.encodeAll = .ok chunks ∧
      code.exceptionTable pool layout = .ok table ∧ code.attributes.resolve pool = .ok attributes ∧
      payload = ⟨code.maxStack, code.maxLocals, ⟨chunks.flatten⟩, table, attributes⟩ := by
  unfold Code.assemble
  simp only [Check.bind_eq_ok, Check.pure_eq_ok]
  constructor
  · rintro ⟨layout, hlayout, chunks, hchunks, table, htable, attributes, hattributes, rfl⟩
    exact ⟨layout, chunks, table, attributes, hlayout, hchunks, htable, hattributes, rfl⟩
  · rintro ⟨layout, chunks, table, attributes, hlayout, hchunks, htable, hattributes, rfl⟩
    exact ⟨layout, hlayout, chunks, hchunks, table, htable, attributes, hattributes, rfl⟩

end JvmAsm
