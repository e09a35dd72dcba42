import JvmAsm.Counter
import JvmAsm.Proofs.ExecutableClass

/-! # Building the counting class

The counting class is built for every name that fits into a class file and for every limit.  What
is built is written down here once: the field, the thirteen instructions of `main` and the constants
that the pool has to find room for (`Counter.exists_counting`).  The only instruction that depends
on the limit is the one that pushes it, and all that matters about it is that it does
(`Instruction.Pushes`).

The class can be executed, so it is written, whether its pool was optimized before or not. -/

namespace JvmAsm

open Constant (closure mem_closure)
open Pool (Grown Inside Roomy)

theorem Constant.closure_subset {constants : List Constant} {constant : Constant}
    (h : constant ∈ constants) : closure [constant] ⊆ closure constants := by
  intro part hpart
  obtain ⟨whole, hwhole, within⟩ := mem_closure.mp hpart
  obtain rfl := List.mem_singleton.mp hwhole
  exact mem_closure.mpr ⟨whole, h, within⟩

/-- A single member, of which nothing was asked. -/
theorem MembersReflect.singleton {μ ε : Type} {reflects : Pool → List ε → μ → Prop} {pool : Pool}
    {member : μ} (h : reflects pool [] member) :
    MembersReflect reflects pool (fun _ => []) #[member] := by
  have start : MembersReflect reflects pool (fun _ => []) #[] := ⟨by simp, by simp, fun _ _ => rfl⟩
  exact start.push (by simp) h

/-! ## Pushing a number -/

attribute [local irreducible] Opcode.form

namespace Instruction

variable {allowed : Finset Constant} {pool pool' : Pool} {number : Int32} {load : SourceInstruction}

/-- **The instruction pushes the number**, in whatever form. -/
structure Pushes (pool : Pool) (number : Int32) (load : SourceInstruction) : Prop where
  operation : load.operation? pool.known = some (.push number)
  targets : load.operand.targets = []
  room : ∀ value, load.operand = .int value → load.opcode.form.Holds value.toInt

theorem Pushes.mono (h : Pushes pool number load) (more : pool.Extends pool') :
    Pushes pool' number load :=
  ⟨operation?_mono more h.operation, h.targets, h.room⟩

/-- An inlined number is pushed without the pool. -/
theorem Inlined.pushes (h : Inlined (.integer number) load) : Pushes pool number load := by
  generalize same : Constant.integer number = constant at h
  cases h with
  | @small value range =>
    cases same
    refine ⟨?_, rfl, fun value hvalue => nomatch hvalue⟩
    have opcode : (UInt8.ofNat (3 + number.toInt).toNat).toNat = (3 + number.toInt).toNat :=
      UInt8.toNat_ofNat_of_lt' (show (3 + number.toInt).toNat < 256 by omega)
    have back : ((3 + number.toInt).toNat : Int) - 3 = number.toInt := by omega
    change Operation.ofPlain? (UInt8.ofNat (3 + number.toInt).toNat).toNat = _
    rw [opcode, Operation.ofPlain?, if_pos (by omega), back, Int32.ofInt_toInt]
  | byte range =>
    cases same
    refine ⟨rfl, rfl, ?_⟩
    rintro value ⟨⟩
    rw [show Opcode.bipush.form = .signedByte from (Opcode.form_of_operation _).2.1 rfl]
    exact range
  | short range =>
    cases same
    refine ⟨rfl, rfl, ?_⟩
    rintro value ⟨⟩
    rw [show Opcode.sipush.form = .signedShort from (Opcode.form_of_operation _).2.2.1 rfl]
    exact range
  | long0 | long1 | float0 | float1 | float2 | double0 | double1 => cases same

/-- A number is pushed inline or from the pool, and only the latter needs room there. -/
theorem exists_pushInt (inside : Inside allowed pool) (roomy : Roomy allowed) (number : Int32)
    (ours : closure [.integer number] ⊆ allowed) :
    ∃ load pool', pushInt number pool = .ok load pool' ∧ Inside allowed pool' ∧
      pool.Grown pool' ∧ Pushes pool' number load := by
  change ∃ load pool', push (.integer number) pool = .ok load pool' ∧ _
  rcases push_spec (.integer number) with ⟨-, instruction, same, inlined⟩ | ⟨-, same⟩
  · rw [same]
    exact ⟨instruction, pool, rfl, inside, .refl, inlined.pushes⟩
  · rw [same]
    obtain ⟨entry, pool', run, inside', grown, known⟩ :=
      inside.exists_entry roomy (.integer number) ours
    refine ⟨⟨Opcode.ldc, .constant entry⟩, pool', Attempt.bind_eq_ok.mpr ⟨entry, pool', run, rfl⟩,
      inside', grown, ?_, rfl, fun value hvalue => nomatch hvalue⟩
    refine Option.bind_eq_some_iff.mpr ⟨.integer number.toInt, ?_, ?_⟩
    · rw [Pool.known, known]
      rfl
    · change some (Operation.push (Int32.ofInt number.toInt)) = _
      rw [Int32.ofInt_toInt]

end Instruction

namespace Counter

/-! ## What is built -/

/-- The number, as an operand of `main`. -/
def countMember (name : BinaryName) : Constant := .fieldRef ⟨.object name, .field count .int⟩

/-- The standard output, as an operand of `main`. -/
def outMember : Constant := .fieldRef ⟨.object .system, .field .out (.object .printStream)⟩

/-- The method that prints a number, as an operand of `main`. -/
def printlnMember : Constant :=
  .methodRef ⟨.object .printStream, .method .println printlnDescriptor⟩

/-- The constants that are asked for until the class is written. -/
def constants (name : BinaryName) (limit : Int32) : List Constant :=
  [.utf8 count.text, .utf8 FieldType.int.render, .utf8 UnqualifiedName.main.text,
    .utf8 mainDescriptor.render, countMember name, outMember, printlnMember, .integer limit,
    .classNamed name, .classNamed .object, .utf8 codeName]

/-- The entries of the members' names and types. -/
structure Names where
  count : Entry
  countType : Entry
  main : Entry
  mainType : Entry

/-- What the instructions of `main` refer to, and the one that pushes the limit. -/
structure Operands where
  count : Entry
  out : Entry
  println : Entry
  load : SourceInstruction

/-- The entries stand for the names and types. -/
structure Names.Known (pool : Pool) (names : Names) : Prop where
  count : pool.constant? names.count = some (.utf8 Counter.count.text)
  countType : pool.constant? names.countType = some (.utf8 FieldType.int.render)
  main : pool.constant? names.main = some (.utf8 UnqualifiedName.main.text)
  mainType : pool.constant? names.mainType = some (.utf8 mainDescriptor.render)

/-- The entries stand for the members, and the limit is pushed. -/
structure Operands.Known (name : BinaryName) (limit : Int32) (pool : Pool) (operands : Operands) :
    Prop where
  count : pool.constant? operands.count = some (countMember name)
  out : pool.constant? operands.out = some outMember
  println : pool.constant? operands.println = some printlnMember
  load : Instruction.Pushes pool limit operands.load

theorem Names.Known.mono {pool pool' : Pool} {names : Names} (h : names.Known pool)
    (more : pool.Extends pool') : names.Known pool' :=
  ⟨more.constant? h.count, more.constant? h.countType, more.constant? h.main,
    more.constant? h.mainType⟩

theorem Operands.Known.mono {name : BinaryName} {limit : Int32} {pool pool' : Pool}
    {operands : Operands} (h : operands.Known name limit pool) (more : pool.Extends pool') :
    operands.Known name limit pool' :=
  ⟨more.constant? h.count, more.constant? h.out, more.constant? h.println, h.load.mono more⟩

/-- The field of the number. -/
def countField (names : Names) : Field :=
  ⟨count, .int, ⟨Flag.pub ||| Flag.static⟩, names.count, names.countType, none, .empty, false⟩

/-- The instructions of `main`. -/
def instructions (operands : Operands) : Array SourceInstruction := #[
  .plain Opcode.iconst0,
  ⟨Opcode.putstatic, .constant operands.count⟩,
  ⟨Opcode.getstatic, .constant operands.out⟩,
  ⟨Opcode.getstatic, .constant operands.count⟩,
  ⟨Opcode.invokevirtual, .constant operands.println⟩,
  ⟨Opcode.getstatic, .constant operands.count⟩,
  .plain 0x04,
  .plain Opcode.iadd,
  .plain Opcode.dup,
  ⟨Opcode.putstatic, .constant operands.count⟩,
  operands.load,
  ⟨Opcode.ifIcmplt, .branch (.position 2)⟩,
  .plain Opcode.ret]

/-- The code of `main` with so many of its instructions. -/
def mainCode (written : Array SourceInstruction) : Code :=
  { Code.empty 1 with instructions := written }

/-- The method `main` with so many of its instructions. -/
def mainMethod (names : Names) (written : Array SourceInstruction) : Method :=
  ⟨.main, mainDescriptor, ⟨Flag.pub ||| Flag.static⟩, names.main, names.mainType,
    some (mainCode written), [], .empty, false⟩

/-- The class with some of its members. -/
def classWith (name : BinaryName) (fields : Array Field) (methods : Array Method) (pool : Pool) :
    Class :=
  ⟨name, .object, ⟨Flag.pub ||| Flag.super ||| Flag.final⟩, Version.java1_1, [], fields, methods,
    .empty, none, pool, false⟩

/-- The class that counts. -/
def counting (name : BinaryName) (names : Names) (operands : Operands) (pool : Pool) : Class :=
  classWith name #[countField names] #[mainMethod names (instructions operands)] pool

/-! ## Room for the constants -/

/-- The texts of the class, its own name apart. -/
def texts : List String :=
  [count.text, FieldType.int.render, UnqualifiedName.main.text, mainDescriptor.render,
    BinaryName.system.text, UnqualifiedName.out.text, (FieldType.object .printStream).render,
    BinaryName.printStream.text, UnqualifiedName.println.text, printlnDescriptor.render,
    BinaryName.object.text, codeName]

theorem text_of_mem {name : BinaryName} {limit : Int32} {text : String}
    (h : .utf8 text ∈ closure (constants name limit)) : text = name.text ∨ text ∈ texts := by
  rw [Constant.closure, List.mem_toFinset] at h
  simp only [constants, Constant.parts, Constant.partsWithin, countMember, outMember, printlnMember,
    Constant.height, Constant.constituents, List.flatMap_cons, List.flatMap_nil, List.cons_append,
    List.nil_append, List.append_nil, List.mem_cons, Constant.utf8.injEq, reduceCtorEq, false_or,
    or_false, List.not_mem_nil, RefType.internalForm, NameAndType.field, NameAndType.method] at h
  simp only [texts, List.mem_cons]
  tauto

/-- **There is room for the constants of the class** if there is room for its name. -/
theorem roomy_constants {name : BinaryName} (limit : Int32)
    (short : (ModifiedUtf8.encode name.text).length ≤ 65535) :
    Roomy (closure (constants name limit)) := by
  have others : ∀ text ∈ texts, (ModifiedUtf8.encode text).length ≤ 65535 := by decide +kernel
  refine (Pool.roomy_iff _).mpr ⟨fun text htext => ?_, ?_⟩
  · rcases text_of_mem htext with rfl | hother
    · exact short
    · exact others text hother
  · have parts : ((constants name limit).flatMap Constant.parts).length = 28 := rfl
    have count : (closure (constants name limit)).card ≤ 28 := parts ▸ List.toFinset_card_le _
    have narrow (constant : Constant) : constant.width ≤ 2 := by
      cases constant <;> simp [Constant.width]
    have total : ∑ constant ∈ closure (constants name limit), constant.width ≤
        (closure (constants name limit)).card * 2 :=
      Finset.sum_le_card_nsmul _ _ 2 fun constant _ => narrow constant
    omega

/-! ## Building it -/

variable {name : BinaryName} {limit : Int32} {pool : Pool} {names : Names} {operands : Operands}

/-- Declaring the members. -/
theorem exists_members (roomy : Roomy (closure (constants name limit))) :
    ∃ names pool₁ pool, Field.declare count .int ⟨Flag.pub ||| Flag.static⟩ .empty =
        .ok (countField names) pool₁ ∧
      Method.declare .main mainDescriptor ⟨Flag.pub ||| Flag.static⟩ false pool₁ =
        .ok (mainMethod names #[]) pool ∧
      Inside (closure (constants name limit)) pool ∧ Pool.empty.Grown pool ∧ names.Known pool := by
  have start : Inside (closure (constants name limit)) .empty :=
    ⟨Pool.invariant_empty, by decide, Finset.empty_subset _⟩
  obtain ⟨count, pool₁, add₁, inside₁, grown₁, known₁⟩ := start.exists_entry roomy
    (.utf8 Counter.count.text) (Constant.closure_subset (by simp [constants]))
  obtain ⟨countType, pool₂, add₂, inside₂, grown₂, known₂⟩ := inside₁.exists_entry roomy
    (.utf8 FieldType.int.render) (Constant.closure_subset (by simp [constants]))
  obtain ⟨main, pool₃, add₃, inside₃, grown₃, known₃⟩ := inside₂.exists_entry roomy
    (.utf8 UnqualifiedName.main.text) (Constant.closure_subset (by simp [constants]))
  obtain ⟨mainType, pool₄, add₄, inside₄, grown₄, known₄⟩ := inside₃.exists_entry roomy
    (.utf8 mainDescriptor.render) (Constant.closure_subset (by simp [constants]))
  have more₃ := grown₄.extends
  have more₂ := grown₃.extends.trans more₃
  refine ⟨⟨count, countType, main, mainType⟩, pool₂, pool₄, ?_, ?_, inside₄,
    ((grown₁.trans grown₂).trans grown₃).trans grown₄, ?_⟩
  · exact Attempt.bind_eq_ok.mpr ⟨_, _, add₁, Attempt.bind_eq_ok.mpr ⟨_, _, add₂, rfl⟩⟩
  · exact Attempt.bind_eq_ok.mpr ⟨_, _, add₃, Attempt.bind_eq_ok.mpr ⟨_, _, add₄, rfl⟩⟩
  · exact ⟨(grown₂.extends.trans more₂).constant? known₁, more₂.constant? known₂,
      more₃.constant? known₃, known₄⟩

/-- Writing `main`. -/
theorem exists_main (roomy : Roomy (closure (constants name limit)))
    (inside : Inside (closure (constants name limit)) pool) (names : Names) :
    ∃ operands pool', writeMain name limit (mainMethod names #[], pool) =
        .ok () (mainMethod names (instructions operands), pool') ∧
      Inside (closure (constants name limit)) pool' ∧ pool.Grown pool' ∧
      operands.Known name limit pool' := by
  obtain ⟨count, pool₁, add₁, inside₁, grown₁, known₁⟩ := inside.exists_entry roomy
    (countMember name) (Constant.closure_subset (by simp [constants]))
  obtain ⟨out, pool₂, add₂, inside₂, grown₂, known₂⟩ := inside₁.exists_entry roomy
    outMember (Constant.closure_subset (by simp [constants]))
  obtain ⟨println, pool₃, add₃, inside₃, grown₃, known₃⟩ := inside₂.exists_entry roomy
    printlnMember (Constant.closure_subset (by simp [constants]))
  obtain ⟨load, pool₄, push₄, inside₄, grown₄, known₄⟩ := Instruction.exists_pushInt inside₃ roomy
    limit (Constant.closure_subset (by simp [constants]))
  let operands : Operands := ⟨count, out, println, load⟩
  have pushed : Method.push (.integer limit) none
      (mainMethod names ((instructions operands).take 10), pool₃) =
      .ok 10 (mainMethod names ((instructions operands).take 11), pool₄) :=
    Attempt.bind_eq_ok.mpr ⟨_, _, rfl, Attempt.bind_eq_ok.mpr
      ⟨_, _, MemberAction.onPool_eq_ok.mpr ⟨rfl, push₄⟩, rfl⟩⟩
  have more₂ := grown₃.extends.trans grown₄.extends
  refine ⟨operands, pool₄, ?_, inside₄, ((grown₁.trans grown₂).trans grown₃).trans grown₄,
    (grown₂.extends.trans more₂).constant? known₁, more₂.constant? known₂,
    grown₄.extends.constant? known₃, known₄⟩
  refine Attempt.bind_eq_ok.mpr ⟨_, _, MemberAction.onPool_eq_ok.mpr ⟨rfl, add₁⟩, ?_⟩
  refine Attempt.bind_eq_ok.mpr ⟨_, _, MemberAction.onPool_eq_ok.mpr ⟨rfl, add₂⟩, ?_⟩
  refine Attempt.bind_eq_ok.mpr ⟨_, _, MemberAction.onPool_eq_ok.mpr ⟨rfl, add₃⟩, ?_⟩
  iterate 10 refine Attempt.bind_eq_ok.mpr ⟨_, _, rfl, ?_⟩
  exact Attempt.bind_eq_ok.mpr ⟨_, _, pushed, rfl⟩

/-- **The counting class is built.** -/
theorem exists_counting (roomy : Roomy (closure (constants name limit))) :
    ∃ names operands pool, counterClass name limit = .ok (counting name names operands pool) ∧
      Inside (closure (constants name limit)) pool ∧ pool.state = .growing ∧ names.Known pool ∧
      operands.Known name limit pool := by
  obtain ⟨names, pool₁, pool₂, field, method, inside, grown, known⟩ := exists_members roomy
  obtain ⟨operands, pool₃, body, inside', grown', known'⟩ := exists_main roomy inside names
  have addField : Class.addField count .int ⟨Flag.pub ||| Flag.static⟩
      (classWith name #[] #[] .empty) = .ok 0 (classWith name #[countField names] #[] pool₁) := by
    refine Class.onFields_eq_ok.mpr ⟨#[countField names], pool₁, ?_, rfl⟩
    simp [field, maxCount, classWith]
  have addMethod : Class.addMethod .main mainDescriptor ⟨Flag.pub ||| Flag.static⟩
      (classWith name #[countField names] #[] pool₁) =
        .ok 0 (classWith name #[countField names] #[mainMethod names #[]] pool₂) := by
    have noInterface : (classWith name #[countField names] #[] pool₁).isInterface = false :=
      (by decide : AccessFlags.intersects ⟨Flag.pub ||| Flag.super ||| Flag.final⟩ Flag.interface =
        false)
    rw [Class.addMethod, noInterface]
    refine Class.onMethods_eq_ok.mpr ⟨#[mainMethod names #[]], pool₂, ?_, rfl⟩
    simp [method, maxCount, classWith]
  have onMethod : Class.onMethod 0 (writeMain name limit)
      (classWith name #[countField names] #[mainMethod names #[]] pool₂) =
        .ok (some ()) (counting name names operands pool₃) := by
    refine Class.onMethods_eq_ok.mpr ⟨#[mainMethod names (instructions operands)], pool₃, ?_, rfl⟩
    simp [MemberAction.onMember, body, classWith]
  have filled : fill name limit (classWith name #[] #[] .empty) =
      .ok () (counting name names operands pool₃) :=
    Attempt.bind_eq_ok.mpr ⟨_, _, addField, Attempt.bind_eq_ok.mpr ⟨_, _, addMethod,
      Attempt.bind_eq_ok.mpr ⟨_, _, onMethod, rfl⟩⟩⟩
  refine ⟨names, operands, pool₃, ?_, inside', grown'.state_eq.trans grown.state_eq, ?_, known'⟩
  · refine Check.bind_eq_ok.mpr ⟨classWith name #[] #[] .empty, rfl, ?_⟩
    simp only [filled]
  · exact known.mono grown'.extends

/-! ## The class that was built -/

/-- Where the number is kept. -/
def countValue (name : BinaryName) : MemberValue := ⟨name.text, "count", "I"⟩

/-- What the instructions of `main` do. -/
def operations (name : BinaryName) (limit : Int32) : List (Operation Nat) := [
  .push 0,
  .putStatic (countValue name),
  .getStatic .standardOutput,
  .getStatic (countValue name),
  .invokeVirtual .printNumber,
  .getStatic (countValue name),
  .push 1,
  .add,
  .dup,
  .putStatic (countValue name),
  .push limit,
  .branchLess 2,
  .finish]

theorem map_operation? (known : operands.Known name limit pool) :
    (instructions operands).toList.map (fun source => source.operation? pool.known) =
      (operations name limit).map fun operation => some (operation.map Target.position) := by
  have refers {opcode : Opcode} {entry : Entry} {constant : Constant}
      (present : pool.constant? entry = some constant) :
      (⟨opcode, .constant entry⟩ : SourceInstruction).operation? pool.known =
        Operation.ofConstant? opcode.toNat constant.value := by
    rw [Instruction.operation?, Operation.of?, Pool.known, present, Option.map_some,
      Option.bind_some]
  simp only [instructions, operations, List.map_cons, List.map_nil, refers known.count,
    refers known.out, refers known.println, known.load.operation]
  rfl

/-- The one target is the third instruction, and only the limit may be a number in the code. -/
theorem operand_cases {source : SourceInstruction} (h : source ∈ (instructions operands).toList) :
    source = operands.load ∨ source.operand = .none ∨ (∃ entry, source.operand = .constant entry) ∨
      source.operand = .branch (.position 2) := by
  simp only [instructions, List.mem_cons, List.not_mem_nil, or_false] at h
  rcases h with rfl | rfl | rfl | rfl | rfl | rfl | rfl | rfl | rfl | rfl | rfl | rfl | rfl <;>
    simp [Instruction.plain]

theorem executable_main (known : operands.Known name limit pool) :
    (mainCode (instructions operands)).Executable pool where
  operations source hsource := by
    have listed : source.operation? pool.known ∈
        (instructions operands).toList.map fun source => source.operation? pool.known :=
      List.mem_map.mpr ⟨source, hsource, rfl⟩
    rw [map_operation? known] at listed
    obtain ⟨operation, -, hoperation⟩ := List.mem_map.mp listed
    exact ⟨_, hoperation.symm⟩
  targets source hsource target htarget := by
    rcases operand_cases hsource with rfl | plain | ⟨entry, constant⟩ | branch
    · rw [known.load.targets] at htarget
      cases htarget
    · rw [plain] at htarget
      cases htarget
    · rw [constant] at htarget
      cases htarget
    · rw [branch] at htarget
      obtain rfl := List.mem_singleton.mp htarget
      exact ⟨2, rfl, show 2 < 13 by decide⟩
  numbers source hsource value hvalue := by
    rcases operand_cases hsource with rfl | plain | ⟨entry, constant⟩ | branch
    · exact known.load.room value hvalue
    · cases plain.symm.trans hvalue
    · cases constant.symm.trans hvalue
    · cases branch.symm.trans hvalue
  short := show 3 * 13 ≤ 32767 by decide
  handlers := rfl
  attributes := rfl

theorem reflects_counting (hpool : pool.Invariant) (known : names.Known pool) :
    (counting name names operands pool).Reflects [] where
  pool := hpool
  interfaces := Nat.zero_le _
  attributes := Attributes.sound_empty pool
  fields := MembersReflect.singleton
    ⟨known.count, known.countType, Attributes.sound_empty pool, rfl, rfl⟩
  methods := by
    refine MembersReflect.singleton
      ⟨known.main, known.mainType, Attributes.sound_empty pool, rfl, ?_, ?_, rfl⟩
    · rintro code ⟨⟩
      exact Attributes.sound_empty pool
    · rintro code ⟨⟩
      exact .nil
  unprepared := rfl

theorem executable_counting (inside : Inside (closure (constants name limit)) pool)
    (known : operands.Known name limit pool) :
    (counting name names operands pool).Executable (closure (constants name limit)) where
  inside := inside
  names other hother := by
    have listed : other ∈ [name, .object] := hother
    refine Constant.closure_subset ?_
    rcases List.mem_pair.mp listed with rfl | rfl <;> simp [constants]
  code := Constant.closure_subset (by simp [constants])
  sourceFile := rfl
  attributes := rfl
  fields field hfield := by
    obtain rfl : field = countField names := List.mem_singleton.mp hfield
    exact ⟨rfl, rfl, rfl⟩
  methods method hmethod := by
    obtain rfl : method = mainMethod names (instructions operands) := List.mem_singleton.mp hmethod
    exact ⟨⟨_, rfl, executable_main known⟩, rfl, rfl, rfl⟩

/-- Optimizes the pool, or not. -/
def arrange (optimized : Bool) : Class.Action Unit :=
  if optimized then Class.onPool Pool.optimize else pure ()

/-- **The counting class is built and arranged.** -/
theorem exists_arranged (roomy : Roomy (closure (constants name limit))) (optimized : Bool) :
    ∃ cls names operands pool, counterClass name limit = .ok cls ∧
      arrange optimized cls = .ok () (counting name names operands pool) ∧
      Inside (closure (constants name limit)) pool ∧ names.Known pool ∧
      operands.Known name limit pool := by
  obtain ⟨names, operands, pool, built, inside, growing, known, known'⟩ := exists_counting roomy
  cases optimized with
  | false => exact ⟨_, names, operands, pool, built, rfl, inside, known, known'⟩
  | true =>
    have run : Pool.optimize pool = .ok () (pool.layOut pool.entriesByUse) := if_pos growing
    have more := Pool.extends_layOut growing pool.entriesByUse
    refine ⟨_, names, operands, pool.layOut pool.entriesByUse, built, ?_, ?_, known.mono more,
      known'.mono more⟩
    · change Class.onPool Pool.optimize (counting name names operands pool) = _
      exact Class.onPool_eq_ok.mpr ⟨_, run, rfl⟩
    · exact inside.layOut growing (List.mergeSort_perm _ _)

end Counter
end JvmAsm
