import JvmAsm.Proofs.ClassFraming
import Mathlib.Data.List.Permutation

/-! # A class file reads back

The framing of a class file relates indices to entries.  A reader has no entries; it
follows indices through the pool at the head of the file.  With the pool's own round
trip the relations turn into what a reader can see: names, descriptors and attributes
by their text (`ReadClass.Describes`).

`class_file_reads_back` is about every class that was built by any edits, refused ones
among them, and then written for the first time. -/

namespace JvmAsm

open Reader

/-! ## Names -/

section

variable {pool : Pool} (hpool : pool.Invariant) (settled : pool.state ≠ .growing)

include hpool settled

theorem Pool.Indexes.text? {entry : Entry} {text : String} {index : Nat}
    (h : pool.Indexes entry index) (present : pool.constant? entry = some (.utf8 text)) :
    pool.asRead.text? index = some text := by
  obtain ⟨i, hindex, rfl⟩ := h
  rw [← Pool.position_of_index hpool settled present hindex]
  exact Pool.text?_asRead hpool settled ⟨entry, present⟩

/-- **An attribute is found by its name.** -/
theorem Attributes.Framed.attribute? {attributes : Attributes} {seen : List ReadAttribute}
    (h : attributes.Framed pool seen) (sound : attributes.Sound pool) {name : String}
    {value : AttributeValue} (found : attributes.get? name = some value) :
    ∃ info, pool.asRead.attribute? seen name = some info ∧ payload pool value = .ok info := by
  obtain ⟨entries⟩ := attributes
  have named := sound.named
  unfold Attributes.get? at found
  unfold ReadPool.attribute?
  change List.Forall₂ _ entries seen at h
  dsimp only at found named
  -- The container and the file are searched in step.
  induction h with
  | nil => cases found
  | @cons first read entries seen head tail ih =>
    have text := head.1.text? hpool settled (named first List.mem_cons_self)
    by_cases here : first.name = name
    · rw [List.find?_cons_of_pos (by simpa using here)] at found
      rw [List.find?_cons_of_pos (by simpa [text] using here)]
      obtain rfl := Option.some.inj found
      exact ⟨read.info, rfl, head.2⟩
    · rw [List.find?_cons_of_neg (by simpa using here)] at found
      rw [List.find?_cons_of_neg (by simpa [text] using here)]
      have later : Sound pool ⟨entries⟩ :=
        ⟨fun other hother => named other (List.mem_cons_of_mem first hother),
          Nat.le_of_succ_le sound.few⟩
      exact ih later found later.named

end

/-! ## By name -/

/-- Attributes as read, by name and payload, in the order of the container. -/
def Attributes.Listed (pool : Pool) (names : ReadPool) (attributes : Attributes) :
    List ReadAttribute → Prop :=
  List.Forall₂ (fun named seen => names.text? seen.name = some named.name ∧
    payload pool named.value = .ok seen.info) attributes.entries

/-- A member as read has these flags, this name and this descriptor. -/
structure ReadMember.Declares (names : ReadPool) (flags : UInt16) (name descriptor : String)
    (seen : ReadMember) : Prop where
  flags : seen.flags = flags.toNat
  name : names.text? seen.name = some name
  descriptor : names.text? seen.descriptor = some descriptor

/-- The payload of code as read, its attributes by name. -/
structure ReadCode.Holds (pool : Pool) (names : ReadPool) (code : Code) (seen : ReadCode) :
    Prop where
  framed : code.Framed pool seen
  attributes : code.attributes.Listed pool names seen.attributes

/-- **The class file has everything in its place.**  `built` is the class before it was written, and
`final` after: attributes were generated in between. -/
structure ReadClass.Describes (seen : ReadClass) (built final : Class) : Prop where
  minor : seen.minor = built.version.minor.toNat
  major : seen.major = built.version.major.toNat
  flags : seen.flags = built.flags.bits.toNat
  interfaces : seen.interfaces.map seen.pool.className? =
    built.interfaces.map fun name => some name.text
  fields : List.Forall₂ (fun field member => member.Declares seen.pool field.flags.bits
    field.name.text field.type.render) built.fields.toList seen.fields
  methods : List.Forall₂ (fun method member => member.Declares seen.pool method.flags.bits
    method.name.text method.descriptor.render) built.methods.toList seen.methods
  attributes : final.attributes.Listed final.pool seen.pool seen.attributes
  inFields : List.Forall₂ (fun field member =>
    field.attributes.Listed final.pool seen.pool member.attributes) final.fields.toList seen.fields
  inMethods : List.Forall₂ (fun method member =>
    method.attributes.Listed final.pool seen.pool member.attributes)
      final.methods.toList seen.methods
  code : List.Forall₂ (fun method member => ∀ code, method.code = some code → ∃ info payload,
    seen.pool.attribute? member.attributes codeName = some info ∧
      Reader.code.whole info = some payload ∧ payload.Holds final.pool seen.pool code)
    built.methods.toList seen.methods
  exceptions : List.Forall₂ (fun method member => method.throws ≠ [] → ∃ info indices,
    seen.pool.attribute? member.attributes exceptionsName = some info ∧
      (counted (unsigned 2)).whole info = some indices ∧
      List.Forall₂ final.pool.Indexes method.throws indices) built.methods.toList seen.methods

/-- Attributes are found under the names they were given. -/
theorem Attributes.Framed.listed {pool : Pool} (hpool : pool.Invariant)
    (settled : pool.state ≠ .growing) {attributes : Attributes} {seen : List ReadAttribute}
    (h : attributes.Framed pool seen) (sound : attributes.Sound pool) :
    attributes.Listed pool pool.asRead seen := by
  refine ((List.forall₂_and_left _ _).mpr ⟨sound.named, h⟩).imp ?_
  rintro named read ⟨present, index, info⟩
  exact ⟨index.text? hpool settled present, info⟩

/-- Flags, name and descriptor of a member are those it was declared with. -/
theorem MemberFramed.declares {pool : Pool} (hpool : pool.Invariant)
    (settled : pool.state ≠ .growing)
    {flags : UInt16} {nameEntry descriptorEntry : Entry} {attributes : Attributes}
    {seen : ReadMember} (h : MemberFramed pool flags nameEntry descriptorEntry attributes seen)
    {name descriptor : String} (hname : pool.constant? nameEntry = some (.utf8 name))
    (hdescriptor : pool.constant? descriptorEntry = some (.utf8 descriptor)) :
    seen.Declares pool.asRead flags name descriptor :=
  ⟨h.flags, h.name.text? hpool settled hname, h.descriptor.text? hpool settled hdescriptor⟩

namespace Class

variable {built final : Class} {log : List Edit} {seen : ReadClass}

/-- Classes that are known to the pool are read back by their names. -/
theorem className?_of_mem {pool : Pool} (hpool : pool.Invariant) (settled : pool.state ≠ .growing)
    {names : List BinaryName}
    (known : ∀ name ∈ names, ∃ entry, pool.constant? entry = some (.classNamed name)) :
    (names.map fun name => pool.position (.classNamed name)).map pool.asRead.className? =
      names.map fun name => some name.text := by
  rw [List.map_map]
  refine List.map_congr_left fun name hname => ?_
  exact Pool.className?_asRead hpool settled (known name hname)

/-- **A written class is described by its file.** -/
theorem Framed.describes (reflects : built.Reflects log) (prepared : built.Prepared final)
    (short : final.Short) (framed : final.Framed seen) : seen.Describes built final := by
  have builtPool := reflects.pool
  have hpool := prepared.pool
  have settled := Pool.settled_of_state prepared.closed nofun
  have same := prepared.same
  have fields := (List.forall₂_and_left _ _).mpr
    ⟨fun _ hfield => reflects.fields.of_mem hfield, prepared.fields⟩
  have methods := (List.forall₂_and_left _ _).mpr
    ⟨fun _ hmethod => reflects.methods.of_mem hmethod, prepared.methods⟩
  exact {
    minor := by
      rw [framed.minor, same]
    major := by
      rw [framed.major, same]
    flags := by
      rw [framed.flags, same]
    interfaces := by
      rw [framed.interfaces, framed.pool, same]
      exact className?_of_mem hpool settled fun name hname =>
        prepared.names name (List.mem_cons_of_mem _ (List.mem_cons_of_mem _ hname))
    fields := by
      rw [framed.pool]
      refine forall₂_trans ?_ fields framed.fields
      rintro field done member ⟨⟨index, reflects⟩, finished⟩ framed
      have known := reflects.mono prepared.more
      rw [Field.Framed, finished.same] at framed
      exact framed.declares hpool settled known.name known.type
    methods := by
      rw [framed.pool]
      refine forall₂_trans ?_ methods framed.methods
      rintro method done member ⟨⟨index, reflects⟩, finished⟩ framed
      have known := reflects.mono prepared.more
      rw [Method.Framed, finished.same] at framed
      exact framed.declares hpool settled known.name known.descriptor
    attributes := by
      rw [framed.pool]
      exact framed.attributes.listed hpool settled prepared.attributes
    inFields := by
      rw [framed.pool]
      refine ((List.forall₂_and_left _ _).mpr ⟨prepared.sound_field, framed.fields⟩).imp ?_
      rintro field member ⟨sound, framed⟩
      exact framed.attributes.listed hpool settled sound
    inMethods := by
      rw [framed.pool]
      refine ((List.forall₂_and_left _ _).mpr ⟨prepared.sound_method, framed.methods⟩).imp ?_
      rintro method member ⟨sound, framed⟩
      exact framed.attributes.listed hpool settled sound
    code := by
      rw [framed.pool]
      refine forall₂_trans ?_ methods ((List.forall₂_and_left _ _).mpr ⟨short.code, framed.methods⟩)
      rintro method done member ⟨⟨index, reflects⟩, finished⟩ ⟨shortCode, framed⟩ code hcode
      have nested := (reflects.mono prepared.more).nested code hcode
      have shortNested : code.attributes.Short := by
        refine shortCode code ?_
        rw [finished.same]
        exact hcode
      -- The attribute is found by its name, and its payload is what the code was assembled to.
      obtain ⟨payload, hpayload, hget⟩ := finished.code hcode
      obtain ⟨info, hinfo, hbytes⟩ :=
        framed.attributes.attribute? hpool settled finished.attributes hget
      obtain rfl := Except.ok.inj hbytes
      obtain ⟨framedCode, reads⟩ := Code.reads_assembled hpayload nested.few
      exact ⟨_, payload.asRead, hinfo, (reads shortNested).whole,
        ⟨framedCode, framedCode.attributes.listed hpool settled nested⟩⟩
    exceptions := by
      rw [framed.pool]
      refine forall₂_trans ?_ methods framed.methods
      rintro method done member ⟨⟨index, reflects⟩, finished⟩ framed declared
      have few := reflects.few_throws builtPool
      obtain ⟨info, indices, hget, read, indexed⟩ := finished.exceptions declared few
      obtain ⟨_, hinfo, hbytes⟩ :=
        framed.attributes.attribute? hpool settled finished.attributes hget
      obtain rfl := Except.ok.inj hbytes
      exact ⟨info, indices, hinfo, read, indexed⟩ }

/-- **A class file reads back.**  If the first writing of a class succeeds, whatever was done to the
class before, a reader of the format takes the whole file and finds the class in it: version and
flags, interfaces and members by name and in order, the attributes of each container in its order
and with its payloads, and in the attribute of a method's code the limits, the instructions, the
table of handlers and the attributes of the code, and in that of its exceptions one index for each.
The containers are those of the class after writing; `Prepared` says what was generated in
between. -/
theorem class_file_reads_back {name superName : BinaryName} {flags : AccessFlags .type}
    {cls final : Class} {history : List Edit} {bytes : Bytes}
    (declared : declare name superName flags = .ok cls)
    (unwritten : ∀ room, .serialize room ∉ history)
    (written : toBytes (cls.after history) = .ok bytes final) (short : final.Short) :
    (cls.after history).Prepared final ∧
      ∃ seen, classFile.whole bytes = some seen ∧ seen.Describes (cls.after history) final := by
  have reflects := (reflects_declare declared).after unwritten
  obtain ⟨prepared, seen, framed, -, read⟩ := reflects.framed written
  exact ⟨prepared, seen, read short, framed.describes reflects prepared short⟩

/-! ## A small class

Assembling code is the one part of a preparation that does not unfold by evaluation. -/

/-- A preparation, cut around the methods. -/
theorem prepare_around_methods : prepare = (do internNames; recordSource; stabilize) >>= fun _ =>
    finalizeMethods >>= fun _ => (do finalizeFields; onPool Pool.close) := by
  simp only [prepare, bind_assoc]

/-- It is enough to run the preparation; the mark is set before. -/
theorem toBytes_of_prepare {cls final : Class} (unprepared : cls.prepared = false)
    (run : prepare { cls with prepared := true } = .ok () final)
    (complete : final.output.failure = none) : toBytes cls = .ok final.output.bytes final := by
  have once : prepareOnce cls = .ok () final := by
    simp only [prepareOnce, unprepared, Bool.false_eq_true, if_false, run]
  rw [toBytes_of_prepareOnce once, complete, Option.elim_none]

end Class

theorem Method.finalize_of_assemble {method : Method} {pool : Pool} {code : Code}
    {payload : CodeAttribute} (unfinished : method.finalized = false)
    (hcode : method.code = some code) (assembled : code.assemble pool = .ok payload) :
    Method.finalize (method, pool) =
      (do Method.putAttribute codeName (.bytes (encode payload)); Method.declareThrows)
        ({ method with finalized := true }, pool) := by
  simp only [Method.finalize, unfinished, Bool.false_eq_true, if_false, bind, EStateM.bind,
    Method.assembleCode, hcode, assembled, contents_serialize]

namespace Sample

/-- A class without members. -/
def start : Class :=
  ⟨⟨"A", by decide⟩, ⟨"B", by decide⟩, ⟨0x21⟩, Version.java1_1, [], #[], #[], .empty, none, .empty,
    false⟩

def interface : BinaryName := ⟨"R", by decide⟩

def exception : BinaryName := ⟨"E", by decide⟩

def methodName : UnqualifiedName := ⟨"m", by decide⟩

/-- A field with an initial value, indices by use, and a method that loads a constant and declares
and catches an exception.  The last edit is for a field that does not exist. -/
def history : List Class.Edit :=
  [.addField ⟨"x", by decide⟩ .int ⟨0x18⟩, .field 0 (.setConstant (.integer 7)),
    .field 0 (.setConstant (.integer 7)), .pool .optimize, .addInterface interface,
    .setSourceFile "S", .addMethod methodName ⟨[], none⟩ ⟨0x9⟩,
    .method 0 (.push (.float 0x40490fdb) none), .method 0 (.code (.append ⟨Opcode.ret, .none⟩)),
    .method 0 (.addHandler (.position 0) (.position 1) (.position 1) (some exception)),
    .method 0 (.addThrows exception), .method 0 (.addThrows exception),
    .field 1 (.setConstant (.integer 1))]

/-- Its constants in the order of insertion, each with its constituents, uses and index. -/
def constants : List (Constant × List Entry × UInt32 × UInt16) :=
  [(.utf8 "x", [], 1, 2), (.utf8 "I", [], 1, 3), (.integer 7, [], 2, 1), (.utf8 "m", [], 1, 4),
    (.utf8 "()V", [], 1, 5), (.float 0x40490fdb, [], 1, 6), (.utf8 "E", [], 1, 7),
    (.classNamed exception, [⟨6⟩], 1, 8), (.utf8 "A", [], 1, 9),
    (.classNamed start.name, [⟨8⟩], 1, 10), (.utf8 "B", [], 1, 11),
    (.classNamed start.superName, [⟨10⟩], 1, 12), (.utf8 "R", [], 1, 13),
    (.classNamed interface, [⟨12⟩], 1, 14), (.utf8 "S", [], 1, 15), (.utf8 "SourceFile", [], 1, 16),
    (.utf8 "Code", [], 1, 17), (.utf8 "Exceptions", [], 1, 18), (.utf8 "ConstantValue", [], 1, 19)]

/-- The pool with the first of these constants.  All of them are narrow, and the first three
changed places. -/
def pool (count : Nat) (state : PoolState) : Pool where
  slots := ((constants.take count).map fun (constant, children, uses, index) =>
    ⟨constant, children, uses, some index⟩).toArray
  lookup := (constants.take count).zipIdx.foldl
    (fun lookup ((constant, _), rank) => lookup.insert constant ⟨rank⟩) ∅
  layout := ⟨(([2, 0, 1] ++ (List.range (count - 3)).map (· + 3)).zipIdx.map fun (rank, before) =>
    (UInt64.ofNat (before + 1), Entry.mk rank)).toArray, .ofNat (count + 1)⟩
  state
  nextSlot := count + 1

def code : Code :=
  { Code.empty 0 with
    instructions := #[⟨Opcode.ldc, .constant ⟨5⟩⟩, ⟨Opcode.ret, .none⟩]
    handlers := #[⟨.position 0, .position 1, .position 1, some ⟨7⟩⟩] }

def payload : CodeAttribute := ⟨16, 0, ⟨[18, 6, 177]⟩, [⟨0, 2, 2, 8⟩], []⟩

def field (attributes : List NamedAttribute) (finalized : Bool) : Field :=
  ⟨⟨"x", by decide⟩, .int, ⟨0x18⟩, ⟨0⟩, ⟨1⟩, some ⟨2⟩, ⟨attributes⟩, finalized⟩

def method (attributes : List NamedAttribute) (finalized : Bool) : Method :=
  ⟨methodName, ⟨[], none⟩, ⟨0x9⟩, ⟨3⟩, ⟨4⟩, some code, [⟨7⟩], ⟨attributes⟩, finalized⟩

/-- The class when its members are about to be finalized. -/
def settled : Class :=
  { start with
    interfaces := [interface]
    fields := #[field [] false]
    methods := #[method [] false]
    attributes := ⟨[⟨"SourceFile", ⟨15⟩, .constant ⟨14⟩⟩]⟩
    sourceFile := some "S"
    pool := pool 16 .stable
    prepared := true }

def finishedMethods : Array Method :=
  #[method [⟨"Code", ⟨16⟩, .bytes (encode payload)⟩,
    ⟨"Exceptions", ⟨17⟩, .bytes [0, 1, 0, 8]⟩] true]

/-- The class when its fields are left to be finalized. -/
def assembled : Class :=
  { settled with methods := finishedMethods, pool := pool 18 .stable }

/-- The class as it is written. -/
def final : Class :=
  { settled with
    fields := #[field [⟨"ConstantValue", ⟨18⟩, .constant ⟨2⟩⟩] true]
    methods := finishedMethods
    pool := pool 19 .sealed }

theorem finalizeMethods_settled : settled.finalizeMethods = .ok () assembled := by
  have assembled : code.assemble (pool 16 .stable) = .ok payload := by decide +kernel
  refine Class.onMethods_eq_ok.mpr ⟨finishedMethods, pool 18 .stable, ?_, rfl⟩
  change MemberAction.finalizeFrom Method.finalize #[] [method [] false] (pool 16 .stable) = _
  rw [MemberAction.finalizeFrom, Method.finalize_of_assemble rfl rfl assembled]
  cbv

theorem prepare_eq :
    Class.prepare { start.after history with prepared := true } = .ok () final := by
  have built : (do Class.internNames; Class.recordSource; Class.stabilize : Class.Action Unit)
      { start.after history with prepared := true } = .ok () settled := by cbv
  have finished : (do Class.finalizeFields; Class.onPool Pool.close : Class.Action Unit)
      assembled = .ok () final := by cbv
  rw [Class.prepare_around_methods]
  exact Attempt.bind_eq_ok.mpr ⟨_, settled, built,
    Attempt.bind_eq_ok.mpr ⟨_, assembled, finalizeMethods_settled, finished⟩⟩

theorem toBytes_eq : (start.after history).toBytes = .ok final.output.bytes final := by
  have unprepared : (start.after history).prepared = false := by cbv
  have complete : final.output.failure = none := by cbv
  exact Class.toBytes_of_prepare unprepared prepare_eq complete

theorem short_final : final.Short where
  attributes := by decide
  fields := by decide
  methods := by decide
  code := by
    rintro method hmethod code hcode
    obtain rfl := List.mem_singleton.mp hmethod
    obtain rfl := Option.some.inj hcode
    decide

theorem sample_class_file_reads_back :
    Class.declare start.name start.superName ⟨0x21⟩ = .ok start ∧
      (∀ room, .serialize room ∉ history) ∧
      (start.after history).toBytes = .ok final.output.bytes final ∧
      final.Short ∧ (start.after history).Prepared final ∧
      ∃ seen, classFile.whole final.output.bytes = some seen ∧
        seen.Describes (start.after history) final := by
  have declared : Class.declare start.name start.superName ⟨0x21⟩ = .ok start := rfl
  have unwritten : ∀ room, .serialize room ∉ history := by simp [history]
  exact ⟨declared, unwritten, toBytes_eq, short_final,
    Class.class_file_reads_back declared unwritten toBytes_eq short_final⟩

end Sample

end JvmAsm
