import JvmAsm.Proofs.CounterConstruction

/-! # Running the counting class

The class file of the counting class is run, from the first byte of `main` to its return, and the
numbers it prints are `0`, `1` and so on below its limit (`Counter.counter_prints_every_number`).
A limit that is not positive makes no difference to one: the number is printed before it is
compared.

The loop has one invariant.  When its first instruction is reached with `count` in the field, the
numbers below `count` have been printed and the stack is empty; a turn prints `count` itself.  The
number of turns that are left is what the induction is on, and since the numbers that are counted
do not exceed the limit, none of the additions overflows. -/

namespace JvmAsm

open Constant (closure)
open Pool (Inside Roomy)

namespace Counter

variable {name : BinaryName} {limit : Int32} {program : Program} {start : Nat → Nat}
  {fields : MemberValue → Option Value} {printed : List Int}

/-! ## The field that is counted -/

theorem countValue_ne (name : BinaryName) : countValue name ≠ .standardOutput := by
  intro same
  exact absurd (congrArg (fun member => member.nameAndType.name) same) (by decide : "count" ≠ "out")

/-- The fields with this number in the one that is counted. -/
def holding (name : BinaryName) (fields : MemberValue → Option Value) (number : Int32) :
    MemberValue → Option Value :=
  Function.update fields (countValue name) (some (.int number))

theorem holding_count (number : Int32) :
    holding name fields number (countValue name) = some (.int number) := Function.update_self ..

theorem holding_standardOutput (number : Int32) :
    holding name fields number .standardOutput = fields .standardOutput :=
  Function.update_of_ne (countValue_ne name).symm _ _

theorem update_holding (number number' : Int32) :
    Function.update (holding name fields number) (countValue name) (some (.int number')) =
      holding name fields number' := Function.update_idem ..

/-! ## The instructions of `main` -/

section

variable (loads : program.Loads start (operations name limit)) (room : 2 ≤ program.maxStack)
  (out : fields .standardOutput = some .printStream)

include loads room

/-- The first two instructions set the number to zero. -/
theorem proceeds_start {value : Value} (declared : fields (countValue name) = some value) :
    program.Proceeds ⟨start 0, [], fields, printed⟩
      ⟨start 2, [], holding name fields 0, printed⟩ := by
  have zeroed : program.Proceeds ⟨start 0, [], fields, printed⟩
      ⟨start 1, [.int 0], fields, printed⟩ :=
    loads.proceeds rfl (Nat.zero_le _) rfl
  have stored : program.Proceeds ⟨start 1, [.int 0], fields, printed⟩
      ⟨start 2, [], holding name fields 0, printed⟩ := by
    refine loads.proceeds rfl (Nat.le_of_succ_le room) ?_
    simp only [Operation.map, Operation.perform, declared]
    rfl
  exact zeroed.trans stored

/-- The branch goes back to the loop's first instruction. -/
theorem proceeds_again {number : Int32} (less : number < limit) :
    program.Proceeds ⟨start 11, [.int limit, .int number], fields, printed⟩
      ⟨start 2, [], fields, printed⟩ := by
  refine loads.proceeds rfl room ?_
  simp only [Operation.map, Operation.perform, if_pos less, add_sub_cancel]
  rfl

/-- The branch is not taken. -/
theorem proceeds_on {number : Int32} (enough : ¬ number < limit) :
    program.Proceeds ⟨start 11, [.int limit, .int number], fields, printed⟩
      ⟨start 12, [], fields, printed⟩ := by
  refine loads.proceeds rfl room ?_
  simp only [Operation.map, Operation.perform, if_neg enough]

include out

/-- From the loop's first instruction to its branch: prints the number, and adds one to it. -/
theorem proceeds_body (number : Int32) :
    program.Proceeds ⟨start 2, [], holding name fields number, printed⟩
      ⟨start 11, [.int limit, .int (number + 1)], holding name fields (number + 1),
        printed ++ [number.toInt]⟩ := by
  have one : 1 ≤ program.maxStack := Nat.le_of_succ_le room
  have stream : holding name fields number .standardOutput = some .printStream :=
    (holding_standardOutput number).trans out
  have held : holding name fields number (countValue name) = some (.int number) :=
    holding_count number
  calc program.Proceeds _ ⟨start 3, [.printStream], holding name fields number, printed⟩ := by
        refine loads.proceeds rfl (Nat.zero_le _) ?_
        simp only [Operation.map, Operation.perform, stream, Option.map_some]
    program.Proceeds _ ⟨start 4, [.int number, .printStream], holding name fields number,
        printed⟩ := by
        refine loads.proceeds rfl one ?_
        simp only [Operation.map, Operation.perform, held, Option.map_some]
    program.Proceeds _ ⟨start 5, [], holding name fields number, printed ++ [number.toInt]⟩ :=
        loads.proceeds rfl room rfl
    program.Proceeds _ ⟨start 6, [.int number], holding name fields number,
        printed ++ [number.toInt]⟩ := by
        refine loads.proceeds rfl (Nat.zero_le _) ?_
        simp only [Operation.map, Operation.perform, held, Option.map_some]
    program.Proceeds _ ⟨start 7, [.int 1, .int number], holding name fields number,
        printed ++ [number.toInt]⟩ := loads.proceeds rfl one rfl
    program.Proceeds _ ⟨start 8, [.int (number + 1)], holding name fields number,
        printed ++ [number.toInt]⟩ := loads.proceeds rfl room rfl
    program.Proceeds _ ⟨start 9, [.int (number + 1), .int (number + 1)],
        holding name fields number, printed ++ [number.toInt]⟩ := loads.proceeds rfl one rfl
    program.Proceeds _ ⟨start 10, [.int (number + 1)], holding name fields (number + 1),
        printed ++ [number.toInt]⟩ := by
        refine loads.proceeds rfl room ?_
        simp only [Operation.map, Operation.perform, held, update_holding]
    program.Proceeds _ ⟨start 11, [.int limit, .int (number + 1)],
        holding name fields (number + 1), printed ++ [number.toInt]⟩ := loads.proceeds rfl one rfl

/-- One turn of the loop, up to its branch. -/
theorem proceeds_turn {count : Nat} (exact : (Int32.ofNat count).toInt = count) :
    program.Proceeds
      ⟨start 2, [], holding name fields (Int32.ofNat count), (List.range count).map Int.ofNat⟩
      ⟨start 11, [.int limit, .int (Int32.ofNat (count + 1))],
        holding name fields (Int32.ofNat (count + 1)), (List.range (count + 1)).map Int.ofNat⟩ := by
  have next : Int32.ofNat (count + 1) = Int32.ofNat count + 1 := Int32.ofNat_add count 1
  have longer : (List.range (count + 1)).map Int.ofNat =
      (List.range count).map Int.ofNat ++ [(Int32.ofNat count).toInt] := by
    rw [exact, List.range_succ, List.map_append]
    rfl
  rw [next, longer]
  exact proceeds_body loads room out (Int32.ofNat count)

/-- **The loop prints all numbers that are left.** -/
theorem proceeds_loop {total count : Nat} (htotal : (total : Int) = max limit.toInt 1)
    (before : count < total) :
    program.Proceeds
      ⟨start 2, [], holding name fields (Int32.ofNat count), (List.range count).map Int.ofNat⟩
      ⟨start 12, [], holding name fields (Int32.ofNat total),
        (List.range total).map Int.ofNat⟩ := by
  have bound := limit.toInt_lt
  have value {number : Nat} (small : number ≤ total) : (Int32.ofNat number).toInt = number :=
    Int32.toInt_ofNat_of_lt (by omega)
  have less {number : Nat} (small : number ≤ total) :
      Int32.ofNat number < limit ↔ (number : Int) < limit.toInt := by
    rw [Int32.lt_iff_toInt_lt, value small]
  -- By the number of turns that are left.
  induction left : total - (count + 1) generalizing count with
  | zero =>
    obtain rfl : count + 1 = total := by omega
    refine (proceeds_turn loads room out (value before.le)).trans (proceeds_on loads room ?_)
    rw [less le_rfl]
    omega
  | succ left ih =>
    refine (proceeds_turn loads room out (value before.le)).trans ?_
    refine (proceeds_again loads room ?_).trans (ih (by omega) (by omega))
    rw [less (by omega)]
    omega

/-- **Running `main`** prints every number up to the limit, and zero if there is none. -/
theorem runs_counting {value : Value} (declared : fields (countValue name) = some value) :
    ∃ machine, program.Runs ⟨0, [], fields, []⟩ machine ∧
      machine.printed = (List.range (max limit.toInt 1).toNat).map Int.ofNat := by
  have entered : program.Proceeds ⟨start 0, [], fields, []⟩
      ⟨start 2, [], holding name fields 0, []⟩ :=
    proceeds_start loads room declared
  rw [loads.first] at entered
  have looped : program.Proceeds ⟨start 2, [], holding name fields 0, []⟩ _ :=
    proceeds_loop loads room out (Int.toNat_of_nonneg (by omega)) (show 0 < _ by omega)
  exact ⟨_, Program.Proceeds.runs (entered.trans looped)
    (loads.within (show 12 < 13 by decide) (Nat.zero_le _)) ⟨_, loads.found 12 _ rfl⟩, rfl⟩

end

/-! ## The file -/

section

variable {file : ReadClass} {built final : Class} {names : Names} {operands : Operands}

theorem exists_program (described : file.Describes built final) (hpool : final.pool.Invariant)
    (settled : final.pool.state ≠ .growing) (pool : file.pool = final.pool.asRead)
    (one : built.methods = #[mainMethod names (instructions operands)])
    (known : operands.Known name limit final.pool) :
    ∃ program start, file.program? = some program ∧
      program.Loads start (operations name limit) ∧ 2 ≤ program.maxStack := by
  have methods := described.methods
  have code := described.code
  rw [one] at methods code
  obtain ⟨main, rest, declares, none, hmethods⟩ := List.forall₂_cons_left_iff.mp methods
  obtain rfl := List.forall₂_nil_left_iff.mp none
  rw [hmethods] at code
  obtain ⟨info, seen, hinfo, hseen, holds⟩ := (List.forall₂_cons.mp code).1 _ rfl
  obtain ⟨layout, chunks, hlayout, hchunks, same, -⟩ := holds.framed.body
  have flags : main.flags = 9 := declares.flags
  have mainName : file.pool.text? main.name = some "main" := declares.name
  have descriptor : file.pool.text? main.descriptor = some "([Ljava/lang/String;)V" :=
    declares.descriptor
  have found : file.mainCode? = some seen := by
    rw [ReadClass.mainCode?, hmethods, List.find?_cons_of_pos, Option.bind_some]
    · exact Option.bind_eq_some_iff.mpr ⟨info, hinfo, hseen⟩
    · rw [flags, mainName, descriptor]
      decide
  refine ⟨⟨file.pool, seen.code, seen.maxStack⟩, layout.start, ?_, ?_, ?_⟩
  · rw [ReadClass.program?, found]
    rfl
  · rw [pool, same]
    exact Code.loads hpool settled hlayout hchunks (map_operation? known) _
  · rw [holds.framed.maxStack]
    exact (by decide : 2 ≤ (Code.empty 1).maxStack.toNat)

theorem staticFields_count (described : file.Describes built final)
    (one : built.fields = #[countField names])
    (named : file.pool.className? file.thisClass = some name.text) :
    file.staticFields (countValue name) = some (.int 0) := by
  have fields := described.fields
  rw [one] at fields
  obtain ⟨member, rest, declares, none, hfields⟩ := List.forall₂_cons_left_iff.mp fields
  have flags : member.flags = 9 := declares.flags
  have declared : file.DeclaresStatic (countValue name).nameAndType := by
    refine ⟨member, ?_, ?_, declares.name, declares.descriptor⟩
    · rw [hfields]
      exact List.mem_cons_self
    · rw [flags]
      decide
  rw [ReadClass.staticFields, if_neg (countValue_ne name), if_pos ⟨named, rfl, declared⟩]

end

/-- **The counting class counts.** -/
theorem counter_prints_every_number {name : BinaryName} (limit : Int32) (optimized : Bool)
    (short : (ModifiedUtf8.encode name.text).length ≤ 65535) :
    ∃ cls ready bytes final file program machine,
      counterClass name limit = .ok cls ∧ arrange optimized cls = .ok () ready ∧
      ready.toBytes = .ok bytes final ∧ Reader.classFile.whole bytes = some file ∧
      file.program? = some program ∧ program.Runs file.machine machine ∧
      machine.printed = (List.range (max limit.toInt 1).toNat).map Int.ofNat := by
  have roomy := roomy_constants limit short
  obtain ⟨cls, names, operands, pool, built, arranged, inside, known, known'⟩ :=
    exists_arranged roomy optimized
  have reflects : (counting name names operands pool).Reflects [] :=
    reflects_counting inside.invariant known
  obtain ⟨bytes, final, written, short⟩ :=
    (executable_counting inside known').exists_written roomy reflects
  obtain ⟨prepared, file, framed, -, read⟩ := reflects.framed written
  have described := framed.describes reflects prepared short
  have settled := Pool.settled_of_state prepared.closed (by decide)
  obtain ⟨program, start, found, loads, room⟩ := exists_program described prepared.pool settled
    framed.pool rfl (known'.mono prepared.more)
  have named : file.pool.className? file.thisClass = some name.text := by
    rw [framed.pool, framed.thisClass, prepared.same]
    exact Pool.className?_asRead prepared.pool settled (prepared.names name List.mem_cons_self)
  obtain ⟨machine, runs, printed⟩ := runs_counting loads room
    (show file.staticFields .standardOutput = some .printStream from if_pos rfl)
    (staticFields_count described rfl named)
  exact ⟨cls, _, bytes, final, file, program, machine, built, arranged, written, read short, found,
    runs, printed⟩

/-- A limit that is loaded from the pool, in a class whose name is that of a class it uses. -/
theorem counter_prints_forty_thousand :
    (ModifiedUtf8.encode BinaryName.system.text).length ≤ 65535 ∧
      ∃ cls ready bytes final file program machine,
        counterClass .system 40000 = .ok cls ∧ arrange true cls = .ok () ready ∧
        ready.toBytes = .ok bytes final ∧ Reader.classFile.whole bytes = some file ∧
        file.program? = some program ∧ program.Runs file.machine machine ∧
        machine.printed = (List.range 40000).map Int.ofNat := by
  have total : (max (40000 : Int32).toInt 1).toNat = 40000 := by decide
  have short : (ModifiedUtf8.encode BinaryName.system.text).length ≤ 65535 := by decide +kernel
  refine ⟨short, ?_⟩
  rw [← total]
  exact counter_prints_every_number 40000 true short

end Counter
end JvmAsm
