import JvmAsm.Proofs.ClassRoundTrip
import JvmAsm.Proofs.Sealing
import JvmAsm.Registry

/-! # After the first attempt to write a class

Preparation happens once.  What becomes of a class afterwards depends on its pool
alone.  If preparation failed, the pool was not sealed, and no edit seals it, with one
exception: the pool can be sealed by hand.  Without that the class is never written
(`failed_preparation_is_final`); with it a class is written some of whose methods were
never assembled (`sealed_by_hand_is_written`).

If preparation succeeded the pool is sealed, and then nothing of what is written can be
changed, again with an exception: neither the version nor the interfaces of a class
live in the pool.  So a class is written with the same bytes each time if and only if
these two are what they were (`same_bytes_iff`).

Both rest on `Class.Respects`, which says what edits do to a class that was prepared,
and which holds for whole histories (`respects_after`). -/

namespace JvmAsm

/-! ## Outputs -/

namespace Output

theorem append_assoc (first second third : Output) :
    first ++ second ++ third = first ++ (second ++ third) := by
  obtain ⟨bytes, failure⟩ := first
  obtain ⟨bytes', failure'⟩ := second
  cases failure with
  | some cause => rfl
  | none =>
    cases failure' with
    | some cause => rfl
    | none =>
      simp only [mk_append]
      rw [List.append_assoc]

/-- What is sent of elements depends on what there is to view of them. -/
theorem each_map {α β : Type} (view : α → β) (output : β → Output) (elements : List α) :
    each elements (fun element => output (view element)) = each (elements.map view) output := by
  unfold each
  rw [List.foldr_map]

end Output

open Attempt (Keeps keeps_of keeps_pure keeps_fail)
open MemberAction (views respects_same_pool respects_same_member respects_unsealed)

namespace Class

variable {α : Type} {cls cls' : Class}

/-! ## What edits respect -/

/-- Two classes are written alike, apart from their versions, interfaces and pools. -/
structure WritesLike (cls cls' : Class) : Prop where
  name : cls'.name = cls.name
  superName : cls'.superName = cls.superName
  flags : cls'.flags = cls.flags
  fields : views Field.output cls'.fields = views Field.output cls.fields
  methods : views Method.output cls'.methods = views Method.output cls.methods
  attributes : cls'.attributes = cls.attributes

/-- **What happens to a class that was prepared.**  Interfaces are only added, a pool that is not
sealed stays so, and a sealed pool fixes all else that is written. -/
structure Respects (cls cls' : Class) : Prop where
  prepared : cls'.prepared = cls.prepared
  interfaces : cls.interfaces <+: cls'.interfaces
  pool : cls.pool.Respects cls'.pool
  written : cls.pool.state = .sealed → cls.WritesLike cls'

instance : IsPreorder Class Respects where
  refl cls :=
    ⟨rfl, List.prefix_rfl, refl_of Pool.Respects cls.pool, fun _ => ⟨rfl, rfl, rfl, rfl, rfl, rfl⟩⟩
  trans cls cls' cls'' h h' := by
    refine ⟨h'.prepared.trans h.prepared, h.interfaces.trans h'.interfaces,
      trans_of Pool.Respects h.pool h'.pool, fun closed => ?_⟩
    -- A sealed pool is still sealed in the middle, so both steps write alike.
    have still : cls'.pool.state = .sealed := by rw [h.pool.closed closed, closed]
    have first := h.written closed
    have second := h'.written still
    exact ⟨second.name.trans first.name, second.superName.trans first.superName,
      second.flags.trans first.flags, second.fields.trans first.fields,
      second.methods.trans first.methods, second.attributes.trans first.attributes⟩

theorem respects_pool {pool : Pool} (h : cls.pool.Respects pool) : cls.Respects { cls with pool } :=
  ⟨rfl, List.prefix_rfl, h, fun _ => ⟨rfl, rfl, rfl, rfl, rfl, rfl⟩⟩

theorem keeps_onPool {action : Pool.Action α} (h : action.Keeps Pool.Respects) :
    (onPool action).Keeps Respects := by
  refine keeps_of ?_ ?_
  · intro cls a cls' run
    obtain ⟨pool, inner, rfl⟩ := onPool_eq_ok.mp run
    exact respects_pool (h.ok inner)
  · intro cls e cls' run
    obtain ⟨pool, inner, rfl⟩ := onPool_eq_error.mp run
    exact respects_pool (h.error inner)

theorem keeps_onFields {action : MemberAction (Array Field) α}
    (h : action.Keeps (MemberRespects (views Field.output))) :
    (onFields action).Keeps Respects := by
  have moved {cls : Class} {fields : Array Field} {pool : Pool}
      (kept : MemberRespects (views Field.output) (cls.fields, cls.pool) (fields, pool)) :
      cls.Respects { cls with fields, pool } :=
    ⟨rfl, List.prefix_rfl, kept.pool, fun closed => ⟨rfl, rfl, rfl, kept.written closed, rfl, rfl⟩⟩
  refine keeps_of ?_ ?_
  · intro cls a cls' run
    obtain ⟨fields, pool, inner, rfl⟩ := onFields_eq_ok.mp run
    exact moved (h.ok inner)
  · intro cls e cls' run
    obtain ⟨fields, pool, inner, rfl⟩ := onFields_eq_error.mp run
    exact moved (h.error inner)

theorem keeps_onMethods {action : MemberAction (Array Method) α}
    (h : action.Keeps (MemberRespects (views Method.output))) :
    (onMethods action).Keeps Respects := by
  have moved {cls : Class} {methods : Array Method} {pool : Pool}
      (kept : MemberRespects (views Method.output) (cls.methods, cls.pool) (methods, pool)) :
      cls.Respects { cls with methods, pool } :=
    ⟨rfl, List.prefix_rfl, kept.pool, fun closed => ⟨rfl, rfl, rfl, rfl, kept.written closed, rfl⟩⟩
  refine keeps_of ?_ ?_
  · intro cls a cls' run
    obtain ⟨methods, pool, inner, rfl⟩ := onMethods_eq_ok.mp run
    exact moved (h.ok inner)
  · intro cls e cls' run
    obtain ⟨methods, pool, inner, rfl⟩ := onMethods_eq_error.mp run
    exact moved (h.error inner)

/-! ## Building -/

theorem keeps_addInterface (name : BinaryName) : (addInterface name).Keeps Respects := by
  intro cls
  unfold Attempt.after addInterface
  split_ifs
  · exact refl_of Respects cls
  · exact refl_of Respects cls
  · exact ⟨rfl, List.prefix_append _ _, refl_of Pool.Respects cls.pool,
      fun _ => ⟨rfl, rfl, rfl, rfl, rfl, rfl⟩⟩

theorem keeps_addField (name : UnqualifiedName) (type : FieldType) (flags : AccessFlags .field) :
    (addField name type flags).Keeps Respects := by
  refine keeps_onFields ?_
  rintro ⟨fields, pool⟩
  have kept := Field.keeps_declare name type flags
  unfold Attempt.after
  dsimp only
  by_cases full : maxCount ≤ fields.size
  · rw [if_pos full]
    exact respects_same_pool rfl
  · rw [if_neg full]
    cases run : Field.declare name type flags pool with
    | error e pool' => exact respects_same_member (kept.error run)
    | ok field pool' => exact respects_unsealed (Field.unsealed_of_declare run) (kept.ok run)

theorem keeps_addMethod (name : UnqualifiedName) (descriptor : MethodDescriptor)
    (flags : AccessFlags .method) : (addMethod name descriptor flags).Keeps Respects := by
  intro cls
  have kept := Method.keeps_declare name descriptor flags cls.isInterface
  unfold Attempt.after addMethod
  dsimp only
  refine keeps_onMethods ?_ cls
  rintro ⟨methods, pool⟩
  unfold Attempt.after
  dsimp only
  by_cases full : maxCount ≤ methods.size
  · rw [if_pos full]
    exact respects_same_pool rfl
  · rw [if_neg full]
    cases run : Method.declare name descriptor flags cls.isInterface pool with
    | error e pool' => exact respects_same_member (kept.error run)
    | ok method pool' => exact respects_unsealed (Method.unsealed_of_declare run) (kept.ok run)

theorem keeps_addAttribute (name : String) (value : AttributeValue) :
    (addAttribute name value).Keeps Respects := by
  intro cls
  have kept := Attributes.keeps_add cls.attributes name value
  unfold Attempt.after addAttribute
  dsimp only
  cases run : onPool (cls.attributes.add name value) cls with
  | error e cls' => exact (keeps_onPool kept).error run
  | ok attributes cls' =>
    obtain ⟨pool, inner, rfl⟩ := onPool_eq_ok.mp run
    -- The name of the attribute went into the pool, which was therefore not sealed.
    have unsealed := Pool.unsealed_of_add_bind inner
    exact ⟨rfl, List.prefix_rfl, kept.ok inner, fun closed => absurd closed unsealed⟩

/-! ## Preparing -/

/-- Everything in a preparation but the last step. -/
def finalizeMembers : Action Unit := do
  internNames
  recordSource
  stabilize
  finalizeMethods
  finalizeFields

theorem prepare_eq : prepare = finalizeMembers >>= fun _ => onPool Pool.close := by
  simp only [prepare, finalizeMembers, bind_assoc]

theorem keeps_finalizeMembers : finalizeMembers.Keeps Respects := by
  have names : internNames.Keeps Respects := by
    intro cls
    refine keeps_onPool (Attempt.keeps_forM _ fun name => ?_) cls
    exact (Pool.keeps_add _).bind fun _ => keeps_pure _
  have source : recordSource.Keeps Respects := by
    intro cls
    unfold Attempt.after recordSource
    cases cls.sourceFile with
    | none => exact refl_of Respects cls
    | some file =>
      dsimp only
      by_cases present : cls.attributes.contains sourceFileName = true
      · rw [if_pos present]
        exact refl_of Respects cls
      · rw [if_neg present]
        exact ((keeps_onPool (Pool.keeps_add _)).bind fun _ => keeps_addAttribute _ _) cls
  have stable : stabilize.Keeps Respects := keeps_onPool fun pool => pool.respects_stabilize
  have methods : finalizeMethods.Keeps Respects :=
    keeps_onMethods (MemberAction.keeps_finalizeAll Method.keeps_finalize)
  have fields : finalizeFields.Keeps Respects :=
    keeps_onFields (MemberAction.keeps_finalizeAll Field.keeps_finalize)
  exact names.bind fun _ => source.bind fun _ => stable.bind fun _ => methods.bind fun _ => fields

theorem close_eq_error {pool pool' : Pool} {cause : Error}
    (run : Pool.close pool = .error cause pool') :
    pool' = pool := by
  unfold Pool.close at run
  split at run
  · cases run
    rfl
  · cases run
    rfl
  · cases run

/-- A preparation that fails has done nothing but what comes before sealing. -/
theorem respects_of_prepareOnce {cause : Error} (run : prepareOnce cls = .error cause cls') :
    Respects { cls with prepared := true } cls' := by
  unfold prepareOnce at run
  split at run
  · cases run
  · rw [prepare_eq] at run
    -- Sealing is the last step, and if it fails itself it leaves the pool as it was.
    rcases Attempt.bind_eq_error.mp run with failed | ⟨_, middle, done, failed⟩
    · exact keeps_finalizeMembers.error failed
    · obtain ⟨pool, closing, rfl⟩ := onPool_eq_error.mp failed
      obtain rfl := close_eq_error closing
      exact keeps_finalizeMembers.ok done

/-- A preparation that fails leaves the pool unsealed, if it was. -/
theorem unsealed_of_prepareOnce {cause : Error} (run : prepareOnce cls = .error cause cls')
    (unsealed : cls.pool.state ≠ .sealed) : cls'.prepared = true ∧ cls'.pool.state ≠ .sealed := by
  have kept := respects_of_prepareOnce run
  exact ⟨kept.prepared, kept.pool.unsealed unsealed⟩

theorem prepared_of_prepareOnce (run : prepareOnce cls = .ok () cls') : cls'.prepared = true := by
  unfold prepareOnce at run
  split at run
  · rename_i prepared
    cases run
    exact prepared
  · rw [prepare_eq] at run
    obtain ⟨_, middle, done, closing⟩ := Attempt.bind_eq_ok.mp run
    obtain ⟨pool, -, rfl⟩ := onPool_eq_ok.mp closing
    exact (keeps_finalizeMembers.ok done).prepared

/-! ## Histories -/

theorem prepareOnce_of_prepared (h : cls.prepared = true) : prepareOnce cls = .ok () cls := if_pos h

/-- Nothing is prepared a second time, so writing changes only the destination. -/
theorem after_serialize (h : cls.prepared = true) (room : Option Nat) :
    (Edit.serialize room).perform.after cls = cls := by
  unfold Attempt.after Edit.perform serialize
  simp only [prepareOnce_of_prepared h]
  cases cls.write { room } <;> rfl

/-- One edit that neither writes the class nor seals its pool. -/
theorem respects_edit {edit : Edit} (building : ∀ room, edit ≠ .serialize room)
    (closing : edit = .pool .close → cls.pool.state = .sealed) :
    cls.Respects (edit.perform.after cls) := by
  cases edit with
  | setVersion version =>
    exact ⟨rfl, List.prefix_rfl, refl_of Pool.Respects cls.pool,
      fun _ => ⟨rfl, rfl, rfl, rfl, rfl, rfl⟩⟩
  | setSourceFile file =>
    exact ⟨rfl, List.prefix_rfl, refl_of Pool.Respects cls.pool,
      fun _ => ⟨rfl, rfl, rfl, rfl, rfl, rfl⟩⟩
  | addInterface name => exact ((keeps_addInterface name).bind fun _ => keeps_pure _) cls
  | addField name type flags =>
    exact ((keeps_addField name type flags).bind fun _ => keeps_pure _) cls
  | addMethod name descriptor flags =>
    exact ((keeps_addMethod name descriptor flags).bind fun _ => keeps_pure _) cls
  | addAttribute name value =>
    exact ((keeps_addAttribute name value).bind fun _ => keeps_pure _) cls
  | pool edit =>
    cases edit with
    | add constant =>
      exact keeps_onPool ((Pool.keeps_add constant).bind fun _ => keeps_pure _) cls
    | stabilize =>
      have kept : Pool.Edit.stabilize.perform.Keeps Pool.Respects := Pool.respects_stabilize
      exact keeps_onPool kept cls
    | optimize => exact keeps_onPool (Pool.keeps_optimize.bind fun _ => keeps_pure _) cls
    | close =>
      have closed := closing rfl
      have refused : (Edit.pool .close).perform cls = .error .poolSealed cls := by
        refine onPool_eq_error.mpr ⟨cls.pool, Attempt.bind_eq_error.mpr (.inl ?_), rfl⟩
        simp only [Pool.close, closed]
      rw [Attempt.after_of_error refused]
      exact refl_of Respects cls
  | field index edit =>
    exact ((keeps_onFields (MemberAction.keeps_onMember index (Field.keeps_perform edit))).bind
      fun _ => keeps_pure _) cls
  | method index edit =>
    exact ((keeps_onMethods (MemberAction.keeps_onMember index (Method.keeps_perform edit))).bind
      fun _ => keeps_pure _) cls
  | serialize room => exact absurd rfl (building room)

/-- One edit of a class that was prepared. -/
theorem respects_perform (h : cls.prepared = true) {edit : Edit}
    (closing : edit = .pool .close → cls.pool.state = .sealed) :
    cls.Respects (edit.perform.after cls) := by
  by_cases writing : ∃ room, edit = .serialize room
  · obtain ⟨room, rfl⟩ := writing
    rw [after_serialize h]
    exact refl_of Respects cls
  · exact respects_edit (not_exists.mp writing) closing

/-- **A history of a class that was prepared**, in which an unsealed pool is not sealed by hand. -/
theorem respects_after (h : cls.prepared = true) {later : List Edit}
    (closing : .pool .close ∈ later → cls.pool.state = .sealed) :
    cls.Respects (cls.after later) := by
  induction later generalizing cls with
  | nil => exact refl_of Respects cls
  | cons edit later ih =>
    have first : cls.Respects (edit.perform.after cls) :=
      respects_perform h fun same => closing (same ▸ List.mem_cons_self)
    refine trans_of Respects first (ih (first.prepared.trans h) fun hmem => ?_)
    -- Sealing by hand is allowed later on only if the pool is sealed already, and it stays so.
    have closed := closing (List.mem_cons_of_mem edit hmem)
    rw [first.pool.closed closed, closed]

/-! ## A class that could not be prepared -/

/-- A class with an unsealed pool is written up to its version. -/
theorem output_of_unsealed (unsealed : cls.pool.state ≠ .sealed) :
    cls.output = ⟨magic ++ encode cls.version, some .poolNotSealed⟩ := by
  have refused : cls.pool.output = ⟨[], some .poolNotSealed⟩ := if_neg unsealed
  unfold output Output.sequence Output.each
  rw [List.foldr_cons, List.foldr_cons, List.foldr_cons]
  show (⟨magic, none⟩ : Output) ++ (⟨encode cls.version, none⟩ ++ (cls.pool.output ++ _)) = _
  rw [refused]
  show (⟨magic ++ (encode cls.version ++ []), some Error.poolNotSealed⟩ : Output) = _
  rw [List.append_nil]

theorem toBytes_of_unsealed (prepared : cls.prepared = true) (unsealed : cls.pool.state ≠ .sealed) :
    toBytes cls = .error .poolNotSealed cls := by
  rw [toBytes_of_prepareOnce (prepareOnce_of_prepared prepared), output_of_unsealed unsealed]
  rfl

theorem serialize_of_unsealed (prepared : cls.prepared = true) (unsealed : cls.pool.state ≠ .sealed)
    (sink : Sink) : ∃ cause sink', serialize (cls, sink) = .error cause (cls, sink') := by
  have write : cls.write =
      (Writer.put (magic ++ encode cls.version) >>= fun _ => Attempt.fail .poolNotSealed) := by
    rw [write_eq, output_of_unsealed unsealed]
    rfl
  simp only [serialize, prepareOnce_of_prepared prepared, write, bind, EStateM.bind]
  cases Writer.put (magic ++ encode cls.version) sink with
  | ok _ sink' => exact ⟨_, sink', rfl⟩
  | error cause sink' => exact ⟨cause, sink', rfl⟩

/-- **A class that could not be prepared is never written**, whatever is done to it, unless its pool
is sealed by hand, before the preparation or after it. -/
theorem failed_preparation_is_final {cls failed : Class} {cause : Error} {later : List Edit}
    (failure : prepareOnce cls = .error cause failed) (unsealed : cls.pool.state ≠ .sealed)
    (not_by_hand : .pool .close ∉ later) :
    toBytes (failed.after later) = .error .poolNotSealed (failed.after later) ∧
      (∀ sink, ∃ cause sink',
        serialize (failed.after later, sink) = .error cause (failed.after later, sink')) ∧
      ∀ registry : Registry, Registry.add (registry, failed.after later) =
        .error .poolNotSealed (registry, failed.after later) := by
  obtain ⟨prepared, unsealed⟩ := unsealed_of_prepareOnce failure unsealed
  have kept := respects_after prepared fun closing => absurd closing not_by_hand
  have prepared' := kept.prepared.trans prepared
  have unsealed' := kept.pool.unsealed unsealed
  have refused := toBytes_of_unsealed prepared' unsealed'
  refine ⟨refused, serialize_of_unsealed prepared' unsealed', fun registry => ?_⟩
  simp only [Registry.add, refused]

end Class

namespace Sample

/-- A method with an instruction whose operand cannot be given. -/
def unsupported : List Class.Edit :=
  [.addMethod methodName ⟨[], none⟩ ⟨0x9⟩, .method 0 (.code (.append ⟨0xba, .none⟩))]

/-- The names of a class with one method. -/
def namesPool : Pool where
  slots := #[⟨.utf8 "m", [], 1, some 1⟩, ⟨.utf8 "()V", [], 1, some 2⟩, ⟨.utf8 "A", [], 1, some 3⟩,
    ⟨.classNamed start.name, [⟨2⟩], 1, some 4⟩, ⟨.utf8 "B", [], 1, some 5⟩,
    ⟨.classNamed start.superName, [⟨4⟩], 1, some 6⟩]
  lookup := [.utf8 "m", .utf8 "()V", .utf8 "A", .classNamed start.name, .utf8 "B",
    .classNamed start.superName].zipIdx.foldl
      (fun lookup (constant, rank) => lookup.insert constant ⟨rank⟩) ∅
  layout := ⟨#[(1, ⟨0⟩), (2, ⟨1⟩), (3, ⟨2⟩), (4, ⟨3⟩), (5, ⟨4⟩), (6, ⟨5⟩)], 7⟩
  state := .stable
  nextSlot := 7

def brokenMethod (finalized : Bool) : Method :=
  ⟨methodName, ⟨[], none⟩, ⟨0x9⟩, ⟨0⟩, ⟨1⟩,
    some { Code.empty 0 with instructions := #[⟨0xba, .none⟩] }, [], .empty, finalized⟩

/-- The class with that method, before and after it was tried to assemble it. -/
def broken (finalized : Bool) : Class :=
  { start with methods := #[brokenMethod finalized], pool := namesPool, prepared := true }

theorem finalizeMethods_broken :
    (broken false).finalizeMethods = .error (.unsupportedOpcode 0 0xba) (broken true) := by
  have refused : Code.assemble { Code.empty 0 with instructions := #[⟨0xba, .none⟩] } namesPool =
      .error (.unsupportedOpcode 0 0xba) := by decide +kernel
  have one : Method.finalize (brokenMethod false, namesPool) =
      .error (.unsupportedOpcode 0 0xba) (brokenMethod true, namesPool) := by
    simp only [Method.finalize, brokenMethod, Bool.false_eq_true, if_false, bind, EStateM.bind,
      Method.assembleCode, refused]
  refine Class.onMethods_eq_error.mpr ⟨#[brokenMethod true], namesPool, ?_, rfl⟩
  change MemberAction.finalizeFrom Method.finalize #[] [brokenMethod false] namesPool = _
  rw [MemberAction.finalizeFrom, one]
  rfl

theorem prepareOnce_unsupported : (start.after unsupported).prepareOnce =
    .error (.unsupportedOpcode 0 0xba) (broken true) := by
  have unprepared : (start.after unsupported).prepared = false := by cbv
  have built : (do Class.internNames; Class.recordSource; Class.stabilize : Class.Action Unit)
      { start.after unsupported with prepared := true } = .ok () (broken false) := by cbv
  unfold Class.prepareOnce
  simp only [unprepared, Bool.false_eq_true, if_false]
  rw [Class.prepare_around_methods]
  exact Attempt.bind_eq_error.mpr
    (.inr ⟨_, broken false, built, Attempt.bind_eq_error.mpr (.inl finalizeMethods_broken)⟩)

theorem unsupported_preparation_is_final :
    let later := [.method 0 (.code (.set 0 ⟨Opcode.ret, .none⟩)), .pool .stabilize, .serialize none]
    (start.after unsupported).prepareOnce = .error (.unsupportedOpcode 0 0xba) (broken true) ∧
      (start.after unsupported).pool.state ≠ .sealed ∧ .pool .close ∉ later ∧
      ((broken true).after later).toBytes = .error .poolNotSealed ((broken true).after later) ∧
      (∀ sink, ∃ cause sink', Class.serialize ((broken true).after later, sink) =
        .error cause ((broken true).after later, sink')) ∧
      ∀ registry : Registry, Registry.add (registry, (broken true).after later) =
        .error .poolNotSealed (registry, (broken true).after later) := by
  intro later
  have unsealed : (start.after unsupported).pool.state ≠ .sealed := by
    have growing : (start.after unsupported).pool.state = .growing := by cbv
    rw [growing]
    decide
  have not_by_hand : .pool .close ∉ later := by simp [later]
  exact ⟨prepareOnce_unsupported, unsealed, not_by_hand,
    Class.failed_preparation_is_final prepareOnce_unsupported unsealed not_by_hand⟩

/-- **Sealed by hand, a class that could not be prepared is written**, and its method, which has
code, is written without any. -/
theorem sealed_by_hand_is_written :
    (start.after unsupported).prepareOnce = .error (.unsupportedOpcode 0 0xba) (broken true) ∧
      ∃ bytes, ((broken true).after [.pool .close]).toBytes =
        .ok bytes ((broken true).after [.pool .close]) ∧
      ((broken true).after [.pool .close]).methods = #[brokenMethod true] ∧
      (brokenMethod true).code.isSome = true ∧ (brokenMethod true).attributes = .empty := by
  have prepared : ((broken true).after [.pool .close]).prepared = true := by cbv
  have complete : ((broken true).after [.pool .close]).output.failure = none := by cbv
  refine ⟨prepareOnce_unsupported, ((broken true).after [.pool .close]).output.bytes, ?_, ?_,
    rfl, rfl⟩
  · rw [Class.toBytes_of_prepareOnce (Class.prepareOnce_of_prepared prepared), complete,
      Option.elim_none]
  · cbv

end Sample

namespace Class

variable {cls cls' : Class}

/-! ## A class that was written -/

/-- What stands between the version and the interfaces. -/
def front (cls : Class) : Output :=
  .sequence [cls.pool.output, .value cls.flags, .attempt (classIndex cls.pool cls.name),
    .attempt (classIndex cls.pool cls.superName)]

/-- What follows the interfaces. -/
def rest (cls : Class) : Output :=
  .sequence [⟨Bytes.ofNat 2 cls.fields.size, none⟩,
    .each cls.fields.toList fun field => field.output cls.pool,
    ⟨Bytes.ofNat 2 cls.methods.size, none⟩,
    .each cls.methods.toList fun method => method.output cls.pool,
    cls.attributes.output cls.pool]

theorem output_eq (cls : Class) : cls.output = ⟨magic ++ encode cls.version, none⟩ ++
    (cls.front ++ (.attempt (cls.interfaces.mapM (classIndex cls.pool)) ++ cls.rest)) := by
  have head (following : Output) : (⟨magic ++ encode cls.version, none⟩ : Output) ++ following =
      ⟨magic, none⟩ ++ (⟨encode cls.version, none⟩ ++ following) :=
    congrArg (Output.mk · following.failure) (List.append_assoc _ _ _)
  rw [head]
  show Output.sequence _ = _
  simp only [front, Output.sequence, Output.each, List.foldr_cons, List.foldr_nil, id,
    Output.append_assoc]
  rfl

theorem WritesLike.front_eq (h : cls.WritesLike cls') (pool : cls'.pool = cls.pool) :
    cls'.front = cls.front := by
  rw [front, front, h.flags, h.name, h.superName, pool]

theorem WritesLike.rest_eq (h : cls.WritesLike cls') (pool : cls'.pool = cls.pool) :
    cls'.rest = cls.rest := by
  have fields := h.fields
  have methods := h.methods
  unfold views at fields methods
  have fieldCount := congrArg List.length fields
  have methodCount := congrArg List.length methods
  rw [List.length_map, List.length_map, Array.length_toList, Array.length_toList]
    at fieldCount methodCount
  have eachField : Output.each cls'.fields.toList (fun field => field.output cls.pool) =
      Output.each cls.fields.toList fun field => field.output cls.pool := by
    rw [Output.each_map Field.output (· cls.pool), fields, ← Output.each_map]
  have eachMethod : Output.each cls'.methods.toList (fun method => method.output cls.pool) =
      Output.each cls.methods.toList fun method => method.output cls.pool := by
    rw [Output.each_map Method.output (· cls.pool), methods, ← Output.each_map]
  rw [rest, rest, fieldCount, methodCount, h.attributes, pool, eachField, eachMethod]

/-- Only a sealed pool is written. -/
theorem sealed_of_output {bytes : Bytes} (h : cls.output = ⟨bytes, none⟩) :
    cls.pool.state = .sealed := by
  by_contra unsealed
  rw [output_of_unsealed unsealed] at h
  cases h

theorem length_encode_indices (indices : List UInt16) :
    (encode indices).length = 2 + 2 * indices.length := by
  have each : (indices.flatMap encode).length = 2 * indices.length := by
    induction indices with
    | nil => rfl
    | cons index indices ih =>
      have two : (encode index).length = 2 := Bytes.length_ofNat 2 index.toNat
      rw [List.flatMap_cons, List.length_append, two, ih, List.length_cons]
      omega
  show (Bytes.ofNat 2 indices.length ++ indices.flatMap encode).length = _
  rw [List.length_append, Bytes.length_ofNat, each]

theorem version_of_encode {version version' : Version} (h : encode version = encode version') :
    version = version' := by
  obtain ⟨minor, major⟩ := version
  obtain ⟨minor', major'⟩ := version'
  have same (n n' : UInt16) (h : encode n = encode n') : n = n' := by
    have read := congrArg Bytes.toNat h
    change Bytes.toNat (Bytes.ofNat 2 n.toNat) = Bytes.toNat (Bytes.ofNat 2 n'.toNat) at read
    have small (m : UInt16) : m.toNat % 256 ^ 2 = m.toNat := Nat.mod_eq_of_lt m.toNat_lt
    rw [Bytes.toNat_ofNat, Bytes.toNat_ofNat, small, small] at read
    exact UInt16.toNat_inj.mp read
  obtain ⟨hminor, hmajor⟩ := List.append_inj (show encode minor ++ encode major = encode minor' ++
    encode major' from h) (by rw [show (encode minor).length = 2 from Bytes.length_ofNat 2 _,
      show (encode minor').length = 2 from Bytes.length_ofNat 2 _])
  rw [same _ _ hminor, same _ _ hmajor]

/-- The bytes of a class file, around its interfaces. -/
theorem bytes_of_output {bytes : Bytes} (h : cls.output = ⟨bytes, none⟩) :
    ∃ front indices rest, cls.front = ⟨front, none⟩ ∧
      cls.interfaces.mapM (classIndex cls.pool) = .ok indices ∧ cls.rest = ⟨rest, none⟩ ∧
      bytes = magic ++ encode cls.version ++ (front ++ (encode indices ++ rest)) := by
  rw [output_eq] at h
  obtain ⟨head, tail₁, hhead, h₁, rfl⟩ := Output.append_eq_ok h
  obtain ⟨front, tail₂, hfront, h₂, rfl⟩ := Output.append_eq_ok h₁
  obtain ⟨names, rest, hnames, hrest, rfl⟩ := Output.append_eq_ok h₂
  cases hhead
  cases hindices : cls.interfaces.mapM (classIndex cls.pool) with
  | error cause =>
    rw [hindices] at hnames
    cases hnames
  | ok indices =>
    rw [hindices] at hnames
    cases hnames
    exact ⟨front, indices, rest, hfront, rfl, hrest, rfl⟩

/-- Written alike and with the same bytes, two classes have the same version and as many
interfaces. -/
theorem WritesLike.same_of_output (h : cls.WritesLike cls') (pool : cls'.pool = cls.pool)
    {bytes : Bytes} (first : cls.output = ⟨bytes, none⟩) (second : cls'.output = ⟨bytes, none⟩) :
    cls'.version = cls.version ∧ cls'.interfaces.length = cls.interfaces.length := by
  obtain ⟨front, indices, rest, hfront, hindices, hrest, rfl⟩ := bytes_of_output first
  obtain ⟨front', indices', rest', hfront', hindices', hrest', same⟩ := bytes_of_output second
  rw [h.front_eq pool, hfront] at hfront'
  rw [h.rest_eq pool, hrest] at hrest'
  cases hfront'
  cases hrest'
  -- Versions are equally long, and after them only the interfaces can differ.
  have four (version : Version) : (encode version).length = 4 :=
    List.length_append.trans (congrArg₂ (· + ·) (Bytes.length_ofNat 2 _) (Bytes.length_ofNat 2 _))
  obtain ⟨sameHead, sameTail⟩ := List.append_inj same (by
    rw [List.length_append, List.length_append, four, four])
  have sameNames := List.append_cancel_right (List.append_cancel_left sameTail)
  refine ⟨(version_of_encode (List.append_cancel_left sameHead)).symm, ?_⟩
  have sameLength := congrArg List.length sameNames
  rw [length_encode_indices, length_encode_indices, Check.length_of_mapM hindices,
    Check.length_of_mapM hindices'] at sameLength
  omega

/-- **When a class that was written is written with the same bytes again.**  After any edits,
refused ones among them, this is so if and only if its version and its interfaces are what they
were. -/
theorem same_bytes_iff {cls final : Class} {bytes : Bytes} (written : toBytes cls = .ok bytes final)
    (later : List Edit) :
    toBytes (final.after later) = .ok bytes (final.after later) ↔
      (final.after later).version = final.version ∧
        (final.after later).interfaces = final.interfaces := by
  obtain ⟨hprepare, sent⟩ := toBytes_eq_ok written
  have prepared := prepared_of_prepareOnce hprepare
  have closed := sealed_of_output sent
  have kept : final.Respects (final.after later) := respects_after prepared fun _ => closed
  have pool := kept.pool.closed closed
  have like := kept.written closed
  have prepared' := kept.prepared.trans prepared
  constructor
  · -- Interfaces are only added, so as many as before are the same as before.
    intro again
    obtain ⟨-, sent'⟩ := toBytes_eq_ok again
    obtain ⟨version, count⟩ := like.same_of_output pool sent sent'
    exact ⟨version, (kept.interfaces.eq_of_length count.symm).symm⟩
  · rintro ⟨version, interfaces⟩
    have same : (final.after later).output = final.output := by
      rw [output_eq, like.front_eq pool, like.rest_eq pool, version, interfaces, pool, ← output_eq]
    rw [toBytes_of_prepareOnce (prepareOnce_of_prepared prepared'), same, sent, Option.elim_none]

end Class

namespace Sample

theorem sample_same_bytes_iff :
    let later := [.addInterface interface, .setSourceFile "T", .pool (.add (.integer 1)),
      .method 0 (.addThrows interface)]
    (start.after history).toBytes = .ok final.output.bytes final ∧
      (final.after later).version = final.version ∧
      (final.after later).interfaces = final.interfaces ∧
      (final.after later).toBytes = .ok final.output.bytes (final.after later) := by
  intro later
  have version : (final.after later).version = final.version := by cbv
  have interfaces : (final.after later).interfaces = final.interfaces := by cbv
  exact ⟨toBytes_eq, version, interfaces,
    (Class.same_bytes_iff toBytes_eq later).mpr ⟨version, interfaces⟩⟩

/-- **With another version a class that was written is written with other bytes.** -/
theorem other_version_other_bytes :
    (start.after history).toBytes = .ok final.output.bytes final ∧
      ∃ bytes, (final.after [.setVersion .java8]).toBytes =
        .ok bytes (final.after [.setVersion .java8]) ∧ bytes ≠ final.output.bytes := by
  have complete : final.output.failure = none := by cbv
  have complete' : (final.after [.setVersion .java8]).output.failure = none := by cbv
  have like : final.WritesLike (final.after [.setVersion .java8]) := ⟨rfl, rfl, rfl, rfl, rfl, rfl⟩
  refine ⟨toBytes_eq, (final.after [.setVersion .java8]).output.bytes, ?_, ?_⟩
  · have prepared : (final.after [.setVersion .java8]).prepared = true := rfl
    rw [Class.toBytes_of_prepareOnce (Class.prepareOnce_of_prepared prepared), complete',
      Option.elim_none]
  · intro same
    have sent : final.output = ⟨final.output.bytes, none⟩ := by rw [← complete]
    have sent' : (final.after [.setVersion .java8]).output = ⟨final.output.bytes, none⟩ := by
      rw [← same, ← complete']
    have version : Version.java8 = Version.java1_1 := (like.same_of_output rfl sent sent').1
    exact absurd version (by decide)

end Sample

end JvmAsm
