import JvmAsm.Proofs.ClassLifecycle
import JvmAsm.Proofs.PoolLockstep
import JvmAsm.Proofs.ClassMeaning
import Mathlib.Data.List.Permutation

/-! # The order of the pool

Until its indices are fixed, a pool can be put in the order of use.  This gives the file of the
class other bytes: constants change places, so every index to them changes, and an instruction
that loads one of them may become longer or shorter and move everything behind it.

`pool_order_keeps_meaning` says that this is all.  Two things make it so.  The pools of both runs
are in lockstep, so in the end they hold the same constants under the same entries; and
both files show what the class means, which depends on the pool only through what entries stand
for.

The class may have any history.  If it was written before, its pool was left growing by a failed
preparation, and then it cannot be written at all (`unprepared_of_toBytes`). -/

namespace JvmAsm

open Reader

/-! ## The constants of a pool -/

/-- The pool in a file has these constants, in some order. -/
def ReadPool.Lists (names : ReadPool) (values : List ConstantValue) : Prop :=
  (names.constants.map fun numbered => names.resolve? numbered.2).Perm (values.map some)

namespace Pool

/-- The constants of a pool in the order of insertion. -/
def values (pool : Pool) : List ConstantValue := pool.bodies.map fun body => body.1.value

theorem map_known_entries (pool : Pool) : pool.entries.map pool.known = pool.values.map some := by
  refine List.ext_getElem? fun rank => ?_
  rw [entries, values, List.map_map, List.map_map, List.getElem?_map, List.getElem?_map]
  by_cases inside : rank < pool.slots.size
  · have body :
        pool.bodies[rank]? = some (pool.slots[rank].constant, pool.slots[rank].children) := by
      rw [getElem?_bodies, Array.getElem?_eq_getElem inside]
      rfl
    rw [List.getElem?_range inside, body]
    simp only [Option.map_some, Function.comp_apply, known, constant?_eq_bodies, body]
  · have outside : pool.bodies.length ≤ rank := by
      rw [bodies, List.length_map, Array.length_toList]
      exact Nat.le_of_not_lt inside
    rw [List.getElem?_eq_none outside, List.getElem?_eq_none (by simpa using inside)]
    rfl

/-- **A file lists the constants of its pool**, each one once. -/
theorem lists_asRead {pool : Pool} (hpool : pool.Invariant) (settled : pool.state ≠ .growing) :
    pool.asRead.Lists pool.values := by
  have resolved : ∀ cell ∈ pool.layout.row,
      pool.asRead.resolve? (pool.entryView cell.2) = pool.known cell.2 := by
    intro cell hcell
    obtain ⟨constant, present, -⟩ := (mem_cells_iff hpool settled).mp hcell
    rw [entryView, known, present]
    exact resolve?_written hpool settled present
  have inOrder : (pool.asRead.constants.map fun numbered => pool.asRead.resolve? numbered.2) =
      (pool.layout.row.map Prod.snd).map pool.known := by
    rw [asRead, List.map_map, List.map_map]
    exact List.map_congr_left resolved
  unfold ReadPool.Lists
  rw [inOrder, ← map_known_entries]
  exact (hpool.settled settled).once.map pool.known

theorem Alike.known {pool pool' : Pool} (h : Alike pool pool') : pool'.known = pool.known := by
  funext entry
  rw [Pool.known, Pool.known, h.constant?]

theorem Alike.values {pool pool' : Pool} (h : Alike pool pool') : pool'.values = pool.values := by
  rw [Pool.values, Pool.values, h.bodies]

end Pool

/-! ## A preparation is made once -/

namespace Class

variable {cls : Class}

theorem prepared_onPool {α : Type} (action : Pool.Action α) (cls : Class) :
    ((onPool action).after cls).prepared = cls.prepared := by
  unfold Attempt.after
  cases run : onPool action cls with
  | ok a cls' =>
    obtain ⟨pool, -, rfl⟩ := onPool_eq_ok.mp run
    rfl
  | error cause cls' =>
    obtain ⟨pool, -, rfl⟩ := onPool_eq_error.mp run
    rfl

/-- A preparation counts as made even if it fails. -/
theorem prepared_perform_serialize (cls : Class) (room : Option Nat) :
    ((Edit.serialize room).perform.after cls).prepared = true := by
  unfold Attempt.after
  simp only [Edit.perform, serialize]
  cases run : prepareOnce cls with
  | error cause cls' => exact (respects_of_prepareOnce run).prepared
  | ok _ cls' =>
    dsimp only
    cases cls'.write { room } <;> exact prepared_of_prepareOnce run

theorem prepared_perform (h : cls.prepared = true) (edit : Edit) :
    (edit.perform.after cls).prepared = true := by
  by_cases closing : edit = .pool .close
  · subst closing
    exact (prepared_onPool _ cls).trans h
  · exact (respects_perform h fun same => absurd same closing).prepared.trans h

theorem prepared_after (h : cls.prepared = true) (history : List Edit) :
    (cls.after history).prepared = true := by
  induction history generalizing cls with
  | nil => exact h
  | cons edit later ih => exact ih (prepared_perform h edit)

/-- Nothing in the history of a class that was not prepared wrote it. -/
theorem unwritten_of_unprepared {history : List Edit} (h : (cls.after history).prepared = false)
    (room : Option Nat) : .serialize room ∉ history := by
  intro wrote
  obtain ⟨before, later, rfl⟩ := List.append_of_mem wrote
  have prepared := prepared_after (prepared_perform_serialize (cls.after before) room) later
  rw [after, List.foldl_append] at h
  exact Bool.false_ne_true (h.symm.trans prepared)

/-- A class can only be written with a growing pool if no preparation was made. -/
theorem unprepared_of_toBytes {bytes : Bytes} {final : Class} (growing : cls.pool.state = .growing)
    (written : toBytes cls = .ok bytes final) : cls.prepared = false := by
  refine Bool.eq_false_iff.mpr fun prepared => ?_
  have unsealed : cls.pool.state ≠ .sealed := by
    rw [growing]
    decide
  rw [toBytes_of_unsealed prepared unsealed] at written
  cases written

/-! ## Both orders -/

/-- Ordering by use changes nothing but the pool. -/
theorem after_optimize (growing : cls.pool.state = .growing) :
    cls.after [.pool .optimize] = { cls with pool := cls.pool.layOut cls.pool.entriesByUse } := by
  have ordered : Pool.Edit.optimize.perform cls.pool =
      .ok .done (cls.pool.layOut cls.pool.entriesByUse) := by
    refine Attempt.bind_eq_ok.mpr ⟨(), _, ?_, rfl⟩
    rw [Pool.optimize, if_pos growing]
  exact Attempt.after_of_ok (onPool_eq_ok.mpr ⟨_, ordered, rfl⟩)

end Class

/-- The bytes are the file that `seen` describes, with its pool in front; and a reader finds it
there, unless an attribute is too long for its length to be written. -/
structure ReadClass.FileOf (seen : ReadClass) (final : Class) (bytes : Bytes) : Prop where
  spelled : ∃ pool, bytes = seen.bytes pool ∧ Reader.pool.whole pool = some seen.pool
  read : final.Short → classFile.whole bytes = some seen

namespace Class

variable {built final : Class} {log : List Edit} {bytes : Bytes}

/-- What the file of a class has to show, by the pool of the class after writing. -/
theorem Reflects.exists_file (reflects : built.Reflects log)
    (written : toBytes built = .ok bytes final) :
    ∃ seen : ReadClass, seen.FileOf final bytes ∧ seen.pool.count = final.pool.nextSlot ∧
      seen.pool.Lists final.pool.values ∧
      ∃ meaning, built.meaning? final.pool.known = some meaning ∧ seen.Shows meaning := by
  obtain ⟨prepared, seen, framed, spelled, read⟩ := reflects.framed written
  have settled := Pool.settled_of_state prepared.closed nofun
  have listed := Pool.lists_asRead prepared.pool settled
  have readPool := (Pool.reads_output prepared.pool prepared.closed).whole
  rw [← framed.pool] at listed readPool
  refine ⟨seen, ⟨⟨_, spelled, readPool⟩, read⟩, ?_, listed, framed.shows reflects prepared⟩
  rw [framed.pool]
  rfl

/-- **The order of the pool does not change the meaning of the file.**  If a class with a growing
pool can be written as it is, and also after the pool was ordered by use, then the pools of both
files count alike and have the same constants, and both files show the same meaning, which is that
of the class: the header, interfaces and members, attributes with their names and payloads in
their order, instructions with their targets, and the ranges of handlers. -/
theorem pool_order_keeps_meaning {name superName : BinaryName} {flags : AccessFlags .type}
    {cls final final' : Class} {history : List Edit} {bytes bytes' : Bytes}
    (declared : declare name superName flags = .ok cls)
    (growing : (cls.after history).pool.state = .growing)
    (written : toBytes (cls.after history) = .ok bytes final)
    (written' : toBytes ((cls.after history).after [.pool .optimize]) = .ok bytes' final') :
    ∃ seen seen' : ReadClass, seen.FileOf final bytes ∧ seen'.FileOf final' bytes' ∧
      seen'.pool.count = seen.pool.count ∧
      (∃ values, seen.pool.Lists values ∧ seen'.pool.Lists values) ∧
      ∃ meaning, (cls.after history).meaning? final.pool.known = some meaning ∧
        seen.Shows meaning ∧ seen'.Shows meaning := by
  have unprepared := unprepared_of_toBytes growing written
  have reflects := (reflects_declare declared).after (unwritten_of_unprepared unprepared)
  have reflects' := reflects.editPool .optimize
  change ((cls.after history).after [.pool .optimize]).Reflects _ at reflects'
  rw [after_optimize growing] at written' reflects'
  obtain ⟨seen, file, count, lists, meaning, means, shows⟩ := reflects.exists_file written
  obtain ⟨seen', file', count', lists', meaning', means', shows'⟩ := reflects'.exists_file written'
  have alike : final.pool.Alike final'.pool :=
    alike_of_prepareOnce unprepared (Pool.alike_layOut _ _) (toBytes_eq_ok written).1
      (toBytes_eq_ok written').1
  -- The class means the same with either pool, since entries stand for the same constants.
  have same : meaning' = meaning := by
    rw [alike.known] at means'
    exact Option.some.inj (means'.symm.trans means)
  subst same
  rw [alike.values] at lists'
  refine ⟨seen, seen', file, file', ?_, ⟨_, lists, lists'⟩, meaning', means, shows, shows'⟩
  rw [count, count', alike.nextSlot]

end Class

/-! ## A shared constant -/

namespace Sample

def fieldName : UnqualifiedName := ⟨"n", by decide⟩

/-- A field, and a method that loads the value of the field. -/
def sharing : List Class.Edit :=
  [.addField fieldName .float ⟨0x18⟩, .field 0 (.setConstant (.float 0x40490fdb)),
    .addMethod methodName ⟨[], none⟩ ⟨0x9⟩, .method 0 (.push (.float 0x40490fdb) none),
    .method 0 (.code (.append ⟨Opcode.ret, .none⟩))]

/-- The class, with its pool in the order of insertion or of use. -/
def shared : Bool → Class
  | false => start.after sharing
  | true => (start.after sharing).after [.pool .optimize]

/-- Its constants in the order of insertion, each with its constituents and uses. -/
def sharedConstants : List (Constant × List Entry × UInt32) :=
  [(.utf8 "n", [], 1), (.utf8 "F", [], 1), (.float 0x40490fdb, [], 2), (.utf8 "m", [], 1),
    (.utf8 "()V", [], 1), (.utf8 "A", [], 1), (.classNamed start.name, [⟨5⟩], 1),
    (.utf8 "B", [], 1), (.classNamed start.superName, [⟨7⟩], 1), (.utf8 "Code", [], 1),
    (.utf8 "ConstantValue", [], 1)]

/-- Which constant comes first, second, and so on. -/
def ranks (byUse : Bool) : List Nat :=
  (if byUse then [2, 0, 1] else [0, 1, 2]) ++ [3, 4, 5, 6, 7, 8, 9, 10]

/-- The pool with the first of these constants.  All of them are narrow. -/
def sharedPool (byUse : Bool) (count : Nat) (state : PoolState) : Pool where
  slots := ((sharedConstants.take count).zipIdx.map fun ((constant, children, uses), rank) =>
    ⟨constant, children, uses, some (UInt16.ofNat ((ranks byUse).idxOf rank + 1))⟩).toArray
  lookup := (sharedConstants.take count).zipIdx.foldl
    (fun lookup ((constant, _), rank) => lookup.insert constant ⟨rank⟩) ∅
  layout := ⟨(((ranks byUse).take count).zipIdx.map fun (rank, before) =>
    (UInt64.ofNat (before + 1), Entry.mk rank)).toArray, .ofNat (count + 1)⟩
  state
  nextSlot := count + 1

def sharedCode : Code :=
  { Code.empty 0 with instructions := #[⟨Opcode.ldc, .constant ⟨2⟩⟩, ⟨Opcode.ret, .none⟩] }

/-- The index of the constant is the second byte. -/
def sharedPayload (byUse : Bool) : CodeAttribute :=
  ⟨16, 0, ⟨[18, if byUse then 1 else 3, 177]⟩, [], []⟩

def sharedField (attributes : List NamedAttribute) (finalized : Bool) : Field :=
  ⟨fieldName, .float, ⟨0x18⟩, ⟨0⟩, ⟨1⟩, some ⟨2⟩, ⟨attributes⟩, finalized⟩

def sharedMethod (attributes : List NamedAttribute) (finalized : Bool) : Method :=
  ⟨methodName, ⟨[], none⟩, ⟨0x9⟩, ⟨3⟩, ⟨4⟩, some sharedCode, [], ⟨attributes⟩, finalized⟩

/-- The class when its members are about to be finalized. -/
def sharedSettled (byUse : Bool) : Class :=
  { start with
    fields := #[sharedField [] false]
    methods := #[sharedMethod [] false]
    pool := sharedPool byUse 9 .stable
    prepared := true }

def sharedMethods (byUse : Bool) : Array Method :=
  #[sharedMethod [⟨"Code", ⟨9⟩, .bytes (encode (sharedPayload byUse))⟩] true]

/-- The class when its field is left to be finalized. -/
def sharedAssembled (byUse : Bool) : Class :=
  { sharedSettled byUse with methods := sharedMethods byUse, pool := sharedPool byUse 10 .stable }

/-- The class as it is written. -/
def sharedFinal (byUse : Bool) : Class :=
  { sharedSettled byUse with
    fields := #[sharedField [⟨"ConstantValue", ⟨10⟩, .constant ⟨2⟩⟩] true]
    methods := sharedMethods byUse
    pool := sharedPool byUse 11 .sealed }

theorem assemble_sharedCode (byUse : Bool) :
    sharedCode.assemble (sharedPool byUse 9 .stable) = .ok (sharedPayload byUse) := by
  cases byUse <;> decide +kernel

theorem finalizeMethods_sharedSettled (byUse : Bool) :
    (sharedSettled byUse).finalizeMethods = .ok () (sharedAssembled byUse) := by
  refine Class.onMethods_eq_ok.mpr ⟨sharedMethods byUse, sharedPool byUse 10 .stable, ?_, rfl⟩
  change MemberAction.finalizeFrom Method.finalize #[] [sharedMethod [] false]
    (sharedPool byUse 9 .stable) = _
  rw [MemberAction.finalizeFrom, Method.finalize_of_assemble rfl rfl (assemble_sharedCode byUse)]
  cases byUse <;> cbv

theorem prepare_shared (byUse : Bool) :
    Class.prepare { shared byUse with prepared := true } = .ok () (sharedFinal byUse) := by
  have built : (do Class.internNames; Class.recordSource; Class.stabilize : Class.Action Unit)
      { shared byUse with prepared := true } = .ok () (sharedSettled byUse) := by
    cases byUse <;> cbv
  have finished : (do Class.finalizeFields; Class.onPool Pool.close : Class.Action Unit)
      (sharedAssembled byUse) = .ok () (sharedFinal byUse) := by
    cases byUse <;> cbv
  rw [Class.prepare_around_methods]
  exact Attempt.bind_eq_ok.mpr ⟨_, sharedSettled byUse, built, Attempt.bind_eq_ok.mpr
    ⟨_, sharedAssembled byUse, finalizeMethods_sharedSettled byUse, finished⟩⟩

theorem toBytes_shared (byUse : Bool) :
    (shared byUse).toBytes = .ok (sharedFinal byUse).output.bytes (sharedFinal byUse) := by
  have unprepared : (shared byUse).prepared = false := by cases byUse <;> cbv
  have complete : (sharedFinal byUse).output.failure = none := by cases byUse <;> cbv
  exact Class.toBytes_of_prepare unprepared (prepare_shared byUse) complete

theorem shared_means_the_same_in_both_orders :
    Class.declare start.name start.superName ⟨0x21⟩ = .ok start ∧
      (start.after sharing).pool.state = .growing ∧
      (start.after sharing).toBytes = .ok (sharedFinal false).output.bytes (sharedFinal false) ∧
      ((start.after sharing).after [.pool .optimize]).toBytes =
        .ok (sharedFinal true).output.bytes (sharedFinal true) ∧
      (sharedFinal true).output.bytes ≠ (sharedFinal false).output.bytes ∧
      ∃ seen seen' : ReadClass, seen.FileOf (sharedFinal false) (sharedFinal false).output.bytes ∧
        seen'.FileOf (sharedFinal true) (sharedFinal true).output.bytes ∧
        seen'.pool.count = seen.pool.count ∧
        (∃ values, seen.pool.Lists values ∧ seen'.pool.Lists values) ∧
        ∃ meaning, (start.after sharing).meaning? (sharedFinal false).pool.known = some meaning ∧
          seen.Shows meaning ∧ seen'.Shows meaning := by
  have declared : Class.declare start.name start.superName ⟨0x21⟩ = .ok start := rfl
  have growing : (start.after sharing).pool.state = .growing := by cbv
  have apart : (sharedFinal true).output.bytes ≠ (sharedFinal false).output.bytes := by
    decide +kernel
  exact ⟨declared, growing, toBytes_shared false, toBytes_shared true, apart,
    Class.pool_order_keeps_meaning declared growing (toBytes_shared false) (toBytes_shared true)⟩

end Sample

end JvmAsm
