import JvmAsm.Proofs.CodeMeaning
import Mathlib.Logic.Function.Basic
import Mathlib.Logic.Relation

/-! # Executing code

What the bytes of a method do when they are run.  The part of the instruction set that is
covered is the one that counting and printing needs: pushing numbers, static fields, one call,
addition, duplication, one conditional branch and the return.

A machine has a counter that is an **offset** into the bytes of the code, and nothing keeps it at
the start of an instruction: whatever bytes it points at are decoded there (`Program.fetch?`).
Operands are resolved through the pool of the same file (`ReadInstruction.operation?`), and a
branch adds its displacement to the counter.  So that the counter stays at the starts of
instructions, and that the stack keeps within the declared depth, is something to prove of a
program (`Program.Within`, `Program.Runs`).

Opcodes are numbers here, as they are for the reader of code; what the library calls them is not
used.  The link to code under construction is `Code.loads`: assembled code is the sequence of
operations its instructions were written for, each at its start, with displacements that lead to
the starts of the targets. -/

namespace JvmAsm

open Reader

/-! ## Operations -/

/-- What an instruction does, its constants resolved; `τ` is the type of branch targets. -/
inductive Operation (τ : Type) where
  | push (number : Int32)
  | getStatic (field : MemberValue)
  | putStatic (field : MemberValue)
  | invokeVirtual (method : MemberValue)
  | add
  | dup
  /-- Goes to the target if the number below the top of the stack is less than the top. -/
  | branchLess (target : τ)
  | finish
  deriving DecidableEq

namespace Operation

variable {τ υ κ μ : Type}

/-- What opcodes without operand do. -/
def ofPlain? (opcode : Nat) : Option (Operation τ) :=
  if 0x02 ≤ opcode ∧ opcode ≤ 0x08 then
    some (.push (Int32.ofInt ((opcode : Int) - 3)))  -- iconst_m1 to iconst_5
  else if opcode = 0x59 then some .dup
  else if opcode = 0x60 then some .add               -- iadd
  else if opcode = 0xb1 then some .finish            -- return
  else none

/-- What opcodes do that refer to a constant. -/
def ofConstant? (opcode : Nat) : ConstantValue → Option (Operation τ)
  | .integer number =>
    if opcode = 0x12 ∨ opcode = 0x13 then some (.push (Int32.ofInt number))  -- ldc, ldc_w
    else none
  | .fieldRef field =>
    if opcode = 0xb2 then some (.getStatic field)
    else if opcode = 0xb3 then some (.putStatic field)
    else none
  | .methodRef method =>
    if opcode = 0xb6 then some (.invokeVirtual method)
    else none
  | _ => none

/-- What an opcode does with its operand, given what references stand for. -/
def of? (opcode : Nat) (known : κ → Option ConstantValue) : Operand τ κ → Option (Operation τ)
  | .none => ofPlain? opcode
  | .int number =>
    if opcode = 0x10 ∨ opcode = 0x11 then some (.push number)  -- bipush, sipush
    else none
  | .constant reference => (known reference).bind (ofConstant? opcode)
  | .branch target =>
    if opcode = 0xa1 then some (.branchLess target)            -- if_icmplt
    else none
  | _ => none

/-- The same operation, but for its target. -/
inductive Related (lands : τ → υ → Prop) : Operation τ → Operation υ → Prop
  | push (number : Int32) : Related lands (.push number) (.push number)
  | getStatic (field : MemberValue) : Related lands (.getStatic field) (.getStatic field)
  | putStatic (field : MemberValue) : Related lands (.putStatic field) (.putStatic field)
  | invokeVirtual (method : MemberValue) :
    Related lands (.invokeVirtual method) (.invokeVirtual method)
  | add : Related lands .add .add
  | dup : Related lands .dup .dup
  | branchLess {target : τ} {target' : υ} (there : lands target target') :
    Related lands (.branchLess target) (.branchLess target')
  | finish : Related lands .finish .finish

/-- The same operation with its target replaced. -/
def map (f : τ → υ) : Operation τ → Operation υ
  | .push number => .push number
  | .getStatic field => .getStatic field
  | .putStatic field => .putStatic field
  | .invokeVirtual method => .invokeVirtual method
  | .add => .add
  | .dup => .dup
  | .branchLess target => .branchLess (f target)
  | .finish => .finish

/-- A relation that leaves no choice is a function. -/
theorem Related.eq_map {lands : τ → υ → Prop} {f : κ → τ} {g : κ → υ} {operation : Operation κ}
    {operation' : Operation υ} (related : (operation.map f).Related lands operation')
    (unique : ∀ target target', lands (f target) target' → target' = g target) :
    operation' = operation.map g := by
  cases operation <;> cases related <;> try rfl
  case branchLess.branchLess target target' there =>
    exact congrArg Operation.branchLess (unique _ _ there)

theorem exists_ofPlain? {opcode : Nat} {lands : τ → υ → Prop} {operation : Operation τ}
    (h : ofPlain? opcode = some operation) :
    ∃ operation', ofPlain? opcode = some operation' ∧ operation.Related lands operation' := by
  unfold ofPlain? at h ⊢
  split_ifs at h ⊢ <;> obtain rfl := Option.some.inj h
  · exact ⟨_, rfl, .push _⟩
  · exact ⟨_, rfl, .dup⟩
  · exact ⟨_, rfl, .add⟩
  · exact ⟨_, rfl, .finish⟩

theorem exists_ofConstant? {opcode : Nat} {value : ConstantValue} {lands : τ → υ → Prop}
    {operation : Operation τ} (h : ofConstant? opcode value = some operation) :
    ∃ operation', ofConstant? opcode value = some operation' ∧
      operation.Related lands operation' := by
  cases value with
  | integer number =>
    simp only [ofConstant?] at h ⊢
    split_ifs at h ⊢
    obtain rfl := Option.some.inj h
    exact ⟨_, rfl, .push _⟩
  | fieldRef field =>
    simp only [ofConstant?] at h ⊢
    split_ifs at h ⊢ <;> obtain rfl := Option.some.inj h
    · exact ⟨_, rfl, .getStatic field⟩
    · exact ⟨_, rfl, .putStatic field⟩
  | methodRef method =>
    simp only [ofConstant?] at h ⊢
    split_ifs at h ⊢
    obtain rfl := Option.some.inj h
    exact ⟨_, rfl, .invokeVirtual method⟩
  | _ => cases h

/-- **Related operands are for the same operation.** -/
theorem exists_of_related {opcode : Nat} {lands : τ → υ → Prop} {reference : κ → μ → Prop}
    {known : κ → Option ConstantValue} {known' : μ → Option ConstantValue}
    (hknown : ∀ r r', reference r r' → Agree (known r) (known' r'))
    {operand : Operand τ κ} {operand' : Operand υ μ}
    (related : operand.Related lands reference operand') {operation : Operation τ}
    (h : of? opcode known operand = some operation) :
    ∃ operation', of? opcode known' operand' = some operation' ∧
      operation.Related lands operation' := by
  cases operand <;> cases operand' <;> try exact False.elim related
  case none.none => exact exists_ofPlain? h
  case int.int number number' =>
    obtain rfl : number' = number := related
    simp only [of?] at h ⊢
    split_ifs at h ⊢
    obtain rfl := Option.some.inj h
    exact ⟨_, rfl, .push number'⟩
  case constant.constant r r' =>
    obtain ⟨value, hvalue, hvalue'⟩ := hknown r r' related
    simp only [of?, hvalue, hvalue', Option.bind_some] at h ⊢
    exact exists_ofConstant? h
  case branch.branch target target' =>
    simp only [of?] at h ⊢
    split_ifs at h ⊢
    obtain rfl := Option.some.inj h
    exact ⟨_, rfl, .branchLess related⟩
  case increment.increment => cases h
  case switch.switch => cases h

end Operation

/-- What an instruction under construction does, given what entries stand for. -/
def Instruction.operation? {τ κ : Type} (known : κ → Option ConstantValue)
    (instruction : Instruction τ κ) : Option (Operation τ) :=
  Operation.of? instruction.opcode.toNat known instruction.operand

/-- What an instruction as read does. -/
def ReadInstruction.operation? (names : ReadPool) (seen : ReadInstruction) :
    Option (Operation Int) :=
  Operation.of? seen.opcode.toNat names.value? seen.operand.plain

/-- Wide forms do with a constant what the short ones do. -/
theorem Operation.ofConstant?_of_becomes {τ : Type} {source final : Opcode}
    (becomes : source.Becomes final) (value : ConstantValue) :
    (ofConstant? final.toNat value : Option (Operation τ)) = ofConstant? source.toNat value := by
  rcases becomes with rfl | ⟨rfl, rfl⟩ | ⟨rfl, rfl⟩ | ⟨rfl, rfl⟩ <;> cases value <;> rfl

/-- Wide forms do what the short ones do. -/
theorem Operation.of?_of_becomes {τ κ : Type} {source final : Opcode}
    (becomes : source.Becomes final) (known : κ → Option ConstantValue) (operand : Operand τ κ) :
    of? final.toNat known operand = of? source.toNat known operand := by
  cases operand with
  | constant reference =>
    rw [of?, of?, funext (ofConstant?_of_becomes becomes)]
  | _ => rcases becomes with rfl | ⟨rfl, rfl⟩ | ⟨rfl, rfl⟩ | ⟨rfl, rfl⟩ <;> rfl

/-! ## Machines -/

/-- A value on the operand stack or in a static field. -/
inductive Value where
  | int (number : Int32)
  /-- The stream that prints to the standard output. -/
  | printStream
  deriving DecidableEq

/-- The field that holds the standard output. -/
def MemberValue.standardOutput : MemberValue :=
  ⟨"java/lang/System", "out", "Ljava/io/PrintStream;"⟩

/-- The method that prints a number on a line. -/
def MemberValue.printNumber : MemberValue := ⟨"java/io/PrintStream", "println", "(I)V"⟩

/-- A machine in the middle of a method. -/
structure Machine where
  /-- The offset of the next instruction. -/
  pc : Nat
  /-- The operand stack, its top first. -/
  stack : List Value
  /-- The values of static fields, where there is such a field. -/
  fields : MemberValue → Option Value
  /-- The numbers that were printed, the first one first. -/
  printed : List Int

/-- Performs an operation; `next` is the offset of the instruction behind it.  Operands of the wrong
kind, fields that do not exist and other methods have no meaning, and neither has going on after
a return. -/
def Operation.perform (next : Nat) (machine : Machine) : Operation Int → Option Machine
  | .push number => some { machine with pc := next, stack := .int number :: machine.stack }
  | .getStatic field => (machine.fields field).map fun value =>
    { machine with pc := next, stack := value :: machine.stack }
  | .putStatic field =>
    match machine.stack, machine.fields field with
    | value :: stack, some _ =>
      some { machine with
        pc := next, stack, fields := Function.update machine.fields field (some value) }
    | _, _ => none
  | .invokeVirtual method =>
    match machine.stack with
    | .int number :: .printStream :: stack =>
      if method = .printNumber then
        some { machine with pc := next, stack, printed := machine.printed ++ [number.toInt] }
      else none
    | _ => none
  | .add =>
    match machine.stack with
    | .int second :: .int first :: stack =>
      some { machine with pc := next, stack := .int (first + second) :: stack }
    | _ => none
  | .dup =>
    match machine.stack with
    | value :: stack => some { machine with pc := next, stack := value :: value :: stack }
    | _ => none
  | .branchLess displacement =>
    match machine.stack with
    | .int second :: .int first :: stack =>
      if first < second then
        ((machine.pc : Int) + displacement).toNat?.map fun pc => { machine with pc, stack }
      else some { machine with pc := next, stack }
    | _ => none
  | .finish => none

/-! ## Programs -/

/-- The code of a method and the pool its operands refer to. -/
structure Program where
  pool : ReadPool
  code : Bytes
  /-- The declared depth of the operand stack. -/
  maxStack : Nat

namespace Program

variable (program : Program)

/-- What is decoded at an offset, and the offset behind it. -/
def fetch? (pc : Nat) : Option (ReadInstruction × Nat) :=
  ((Reader.instruction pc).run (program.code.drop pc)).map fun read =>
    (read.1, program.code.length - read.2.length)

/-- The operation at an offset, and the offset behind it. -/
def operation? (pc : Nat) : Option (Operation Int × Nat) :=
  (program.fetch? pc).bind fun found =>
    (found.1.operation? program.pool).map fun operation => (operation, found.2)

/-- One step of a machine. -/
def step (machine : Machine) : Option Machine :=
  (program.operation? machine.pc).bind fun found => found.1.perform found.2 machine

/-- The machine is at a return. -/
def Finished (machine : Machine) : Prop :=
  ∃ next, program.operation? machine.pc = some (.finish, next)

/-- **The machine is where it should be**: at the start of an instruction, with no more on the stack
than was declared. -/
structure Within (machine : Machine) : Prop where
  boundary : ∃ read, readCode program.code = some read ∧ machine.pc ∈ read.map Prod.fst
  depth : machine.stack.length ≤ program.maxStack

/-- One machine comes after the other, in any number of steps. -/
def Reaches : Machine → Machine → Prop :=
  Relation.ReflTransGen fun machine machine' => program.step machine = some machine'

/-- **A run**: it ends at a return, and until then the machine is always where it should be. -/
structure Runs (first last : Machine) : Prop where
  reaches : program.Reaches first last
  finished : program.Finished last
  within : ∀ machine, program.Reaches first machine → program.Within machine

/-- Steps that are taken where they should be. -/
def Proceeds : Machine → Machine → Prop :=
  Relation.ReflTransGen fun machine machine' =>
    program.Within machine ∧ program.step machine = some machine'

variable {program} {first last machine machine' : Machine}

instance : Trans program.Proceeds program.Proceeds program.Proceeds := ⟨Relation.ReflTransGen.trans⟩

theorem Finished.step (h : program.Finished machine) : program.step machine = none := by
  obtain ⟨next, found⟩ := h
  rw [Program.step, found]
  rfl

/-- **Steps are determined**, so what holds on the way to a return holds of everything that can be
reached. -/
theorem Proceeds.runs (h : program.Proceeds first last) (within : program.Within last)
    (finished : program.Finished last) : program.Runs first last where
  reaches := Relation.ReflTransGen.mono (fun _ _ step => step.2) first last h
  finished := finished
  within := by
    induction h using Relation.ReflTransGen.head_induction_on with
    | refl =>
      intro machine reached
      rcases Relation.ReflTransGen.cases_head reached with rfl | ⟨next, taken, -⟩
      · exact within
      · cases finished.step.symm.trans taken
    | head step _ ih =>
      intro machine reached
      rcases Relation.ReflTransGen.cases_head reached with rfl | ⟨next, taken, later⟩
      · exact step.1
      · obtain rfl := Option.some.inj (step.2.symm.trans taken)
        exact ih machine later

/-- One operation that is performed. -/
theorem proceeds_of_perform (within : program.Within machine) {operation : Operation Int}
    {next : Nat} (found : program.operation? machine.pc = some (operation, next))
    (performed : operation.perform next machine = some machine') :
    program.Proceeds machine machine' := by
  refine .single ⟨within, ?_⟩
  rw [step, found]
  exact performed

/-- **The program is a sequence of operations**, the one at a position starting at an offset.  The
targets of branches are positions. -/
structure Loads (program : Program) (start : Nat → Nat) (operations : List (Operation Nat)) :
    Prop where
  first : start 0 = 0
  boundary : ∃ read, readCode program.code = some read ∧
    ∀ position < operations.length, start position ∈ read.map Prod.fst
  found : ∀ position operation, operations[position]? = some operation →
    program.operation? (start position) =
      some (operation.map fun target => (start target : Int) - start position, start (position + 1))

namespace Loads

variable {start : Nat → Nat} {operations : List (Operation Nat)} {position : Nat}
  {operation : Operation Nat} {stack : List Value} {fields : MemberValue → Option Value}
  {printed : List Int}

theorem within (h : program.Loads start operations) (inside : position < operations.length)
    (depth : stack.length ≤ program.maxStack) :
    program.Within ⟨start position, stack, fields, printed⟩ := by
  obtain ⟨read, hread, starts⟩ := h.boundary
  exact ⟨⟨read, hread, starts position inside⟩, depth⟩

/-- One operation of the sequence. -/
theorem proceeds (h : program.Loads start operations)
    (here : operations[position]? = some operation) (depth : stack.length ≤ program.maxStack)
    (performed : (operation.map fun target => (start target : Int) - start position).perform
      (start (position + 1)) ⟨start position, stack, fields, printed⟩ = some machine') :
    program.Proceeds ⟨start position, stack, fields, printed⟩ machine' :=
  proceeds_of_perform (h.within (List.getElem?_eq_some_iff.mp here).1 depth)
    (h.found position operation here) performed

end Loads

end Program

/-! ## The program in a class file -/

namespace ReadClass

variable (file : ReadClass)

/-- The static field, by its name and descriptor, is declared in the file. -/
def DeclaresStatic (signature : NameAndType) : Prop :=
  ∃ member ∈ file.fields, member.flags.testBit 3 = true ∧
    file.pool.text? member.name = some signature.name ∧
    file.pool.text? member.descriptor = some signature.descriptor

instance (signature : NameAndType) : Decidable (file.DeclaresStatic signature) :=
  inferInstanceAs (Decidable (∃ member ∈ file.fields, _ ∧ _ ∧ _))

/-- Static fields before anything is run: the standard output, and zero in every number that the
class declares. -/
def staticFields (field : MemberValue) : Option Value :=
  if field = .standardOutput then some .printStream
  else if file.pool.className? file.thisClass = some field.owner ∧
      field.nameAndType.descriptor = "I" ∧ file.DeclaresStatic field.nameAndType then
    some (.int 0)
  else none

/-- The code of `main`, which is public and static. -/
def mainCode? : Option ReadCode :=
  (file.methods.find? fun member =>
    member.flags.testBit 0 && member.flags.testBit 3 &&
      file.pool.text? member.name == some "main" &&
      file.pool.text? member.descriptor == some "([Ljava/lang/String;)V").bind fun main =>
  (file.pool.attribute? main.attributes "Code").bind Reader.code.whole

/-- The program of the file. -/
def program? : Option Program :=
  file.mainCode?.map fun main => ⟨file.pool, main.code, main.maxStack⟩

/-- The machine that is about to run the program. -/
def machine : Machine := ⟨0, [], file.staticFields, []⟩

end ReadClass

/-! ## Assembled code -/

namespace Code

variable {code : Code} {pool : Pool} {layout : Layout} {chunks : List Bytes} {position : Nat}

section

variable (hlayout : code.layout pool = .ok layout) (hchunks : layout.encodeAll = .ok chunks)

include hlayout hchunks

/-- From the start of an instruction on, there are the chunks from that one on. -/
theorem drop_start (inside : position ≤ code.length) :
    chunks.flatten.drop (layout.start position) = (chunks.drop position).flatten := by
  have each : ∀ i chunk, (chunks.take position)[i]? = some chunk →
      layout.start (0 + i + 1) = layout.start (0 + i) + chunk.length := by
    intro i chunk hchunk
    rw [List.getElem?_take] at hchunk
    split at hchunk
    · rw [Nat.zero_add]
      exact (start_chunk hlayout hchunks hchunk).2
    · cases hchunk
  have room := start_flatten layout.start 0 each
  have count := length_chunks hlayout hchunks
  have first : layout.start 0 = 0 := by
    obtain ⟨linked, -, rfl, -⟩ := layout_eq_ok.mp hlayout
    exact Layout.getD_startsOf_zero
  rw [List.length_take, count, Nat.min_eq_left inside, first, Nat.zero_add, Nat.zero_add] at room
  conv_lhs => rw [← List.take_append_drop position chunks, List.flatten_append]
  rw [room, List.drop_left]

/-- **The instruction at a position is what is decoded at its start**, and behind it starts the
next. -/
theorem fetch?_start (inside : position < code.length) (names : ReadPool) (depth : Nat) :
    ∃ seen, (Program.mk names chunks.flatten depth).fetch? (layout.start position) =
        some (seen, layout.start (position + 1)) ∧
      code.ReadsAs pool layout position seen := by
  have count := length_chunks hlayout hchunks
  have here := drop_start hlayout hchunks (Nat.le_of_lt inside)
  have behind := drop_start hlayout hchunks (show position + 1 ≤ code.length from inside)
  have ends : layout.start (position + 1) ≤ chunks.flatten.length := by
    rw [← start_length hlayout hchunks]
    rcases Nat.lt_or_eq_of_le (show position + 1 ≤ code.length from inside) with before | last
    · exact Nat.le_of_lt (start_lt_start hlayout hchunks before (Nat.le_refl _))
    · rw [last]
  obtain ⟨chunk, hchunk⟩ : ∃ chunk, chunks[position]? = some chunk :=
    ⟨_, List.getElem?_eq_getElem (count ▸ inside)⟩
  obtain ⟨linked, hlinked, rfl, hlength⟩ := layout_eq_ok.mp hlayout
  obtain ⟨seen, reads, readsAs, -, -⟩ := read_of_chunk hlinked hlength hchunks hchunk
  refine ⟨seen, ?_, readsAs⟩
  obtain ⟨bound, rfl⟩ := List.getElem?_eq_some_iff.mp hchunk
  rw [List.drop_eq_getElem_cons bound, List.flatten_cons] at here
  unfold Program.fetch?
  rw [here, reads, ← behind]
  simp only [Option.map_some, List.length_drop, Option.some.injEq, Prod.mk.injEq, true_and]
  omega

end

/-- **Assembled code is executed instruction by instruction.**  At the start of an instruction a
machine finds the operation that the instruction was written for, and a displacement that leads
to its target. -/
theorem operation_at (hpool : pool.Invariant) (settled : pool.state ≠ .growing)
    (hlayout : code.layout pool = .ok layout) (hchunks : layout.encodeAll = .ok chunks)
    {source : SourceInstruction} (hsource : code.instructions[position]? = some source)
    {operation : Operation Target} (h : source.operation? pool.known = some operation)
    (depth : Nat) :
    ∃ operation', (Program.mk pool.asRead chunks.flatten depth).operation? (layout.start position) =
        some (operation', layout.start (position + 1)) ∧
      operation.Related (fun target displacement => ∃ place,
        code.branchTarget position target = .ok place ∧ layout.Lands position place displacement)
        operation' := by
  have inside : position < code.length := (Array.getElem?_eq_some_iff.mp hsource).1
  obtain ⟨seen, fetched, readsAs⟩ := fetch?_start hlayout hchunks inside pool.asRead depth
  obtain ⟨becomes, denotes⟩ := readsAs.denotes hsource
  obtain ⟨operation', found, related⟩ := Operation.exists_of_related
    (fun entry index indexed => Pool.Indexes.agree hpool settled indexed) denotes.related
    ((Operation.of?_of_becomes becomes _ _).trans h)
  have decoded : seen.operation? pool.asRead = some operation' := found
  refine ⟨operation', ?_, related⟩
  rw [Program.operation?, fetched, Option.bind_some, decoded]
  rfl

/-- **Assembled code is the sequence of operations it was written for.** -/
theorem loads (hpool : pool.Invariant) (settled : pool.state ≠ .growing)
    (hlayout : code.layout pool = .ok layout) (hchunks : layout.encodeAll = .ok chunks)
    {operations : List (Operation Nat)}
    (h : code.instructions.toList.map (fun source => source.operation? pool.known) =
      operations.map fun operation => some (operation.map Target.position)) (depth : Nat) :
    (Program.mk pool.asRead chunks.flatten depth).Loads layout.start operations where
  first := by
    obtain ⟨linked, -, rfl, -⟩ := layout_eq_ok.mp hlayout
    exact Layout.getD_startsOf_zero
  boundary := by
    obtain ⟨read, hread, -, hall⟩ := exists_read hlayout hchunks
    refine ⟨read, hread, fun position inside => ?_⟩
    have count := congrArg List.length h
    rw [List.length_map, List.length_map, Array.length_toList] at count
    obtain ⟨seen, hseen, -⟩ := hall position (Nat.lt_of_lt_of_eq inside count.symm)
    exact List.mem_map.mpr ⟨_, List.mem_of_getElem? hseen, rfl⟩
  found position operation here := by
    have both := congrArg (fun items => items[position]?) h
    rw [List.getElem?_map, List.getElem?_map, here, Option.map_some, Array.getElem?_toList] at both
    obtain ⟨source, hsource, hoperation⟩ := Option.map_eq_some_iff.mp both
    obtain ⟨operation', found, related⟩ :=
      operation_at hpool settled hlayout hchunks hsource hoperation depth
    rw [found, related.eq_map]
    rintro target displacement ⟨place, hplace, lands⟩
    obtain rfl := Except.ok.inj (branchTarget_eq_ok.mp hplace).1
    exact eq_sub_of_add_eq' lands

end Code

end JvmAsm
