import JvmAsm.Proofs.ClassLifecycle

/-! # What a class that was written refuses

Writing a class seals its pool and finalizes its members, and each of the two closes
some ways to change it.  A sealed pool takes no constants, not even those it has; so
whatever interns a name first is refused before it did anything.  A finalized member
refuses the rest: changes of its code, which need no constant, and additions that look
at the member before they look at the pool.

Edits check different things in different orders, and for most of them several checks
fail at once.  What they share is `Attempt.Refuses`: they fail with some cause and leave
the state as it was.  Being refused is decided by the first step of a sequence
(`Refuses.bind`), and it passes from a part of the class to the class.

A class that was written is `Frozen`: prepared, with a sealed pool and finalized
members.  The few edits that are left, such as another version, keep it frozen, and so
does every history (`Frozen.after`). -/

namespace JvmAsm

/-! ## Attempts that are refused -/

namespace Attempt

variable {ε σ α β : Type} {s : σ}

/-- The attempt fails and changes nothing. -/
def Refuses (attempt : Attempt ε σ α) (s : σ) : Prop := ∃ cause, attempt s = .error cause s

/-- What would come next is not reached. -/
theorem Refuses.bind {first : Attempt ε σ α} (h : first.Refuses s) (next : α → Attempt ε σ β) :
    (first >>= next).Refuses s := by
  obtain ⟨cause, run⟩ := h
  exact ⟨cause, bind_eq_error.mpr (.inl run)⟩

theorem Refuses.after_eq {attempt : Attempt ε σ α} (h : attempt.Refuses s) :
    attempt.after s = s := by
  obtain ⟨cause, run⟩ := h
  exact after_of_error run

end Attempt

/-! ## Sealed pools -/

namespace Pool

variable {pool : Pool}

/-- A sealed pool takes no constant, not even one it has. -/
theorem refuses_add (closed : pool.state = .sealed) (constant : Constant) :
    (add constant).Refuses pool :=
  ⟨.poolSealed, add_of_sealed closed constant⟩

/-- Indices that are fixed stay what they are. -/
theorem stabilize_of_sealed (closed : pool.state = .sealed) : pool.stabilize = pool := by
  simp [stabilize, closed]

/-- Fixing indices is the only edit of a sealed pool that is not refused. -/
theorem refuses_perform (closed : pool.state = .sealed) {edit : Edit} (alters : edit ≠ .stabilize) :
    edit.perform.Refuses pool := by
  cases edit with
  | add constant => exact (refuses_add closed constant).bind _
  | stabilize => exact absurd rfl alters
  | optimize =>
    have refused : optimize.Refuses pool := ⟨.poolAlreadyStable, by simp [optimize, closed]⟩
    exact refused.bind _
  | close =>
    have refused : close.Refuses pool := ⟨.poolSealed, by simp [close, closed]⟩
    exact refused.bind _

theorem sealed_of_close {pool' : Pool} (run : close pool = .ok () pool') :
    pool'.state = .sealed := by
  unfold close at run
  split at run
  · cases run
  · cases run
  · cases run
    rfl

end Pool

/-! ## Finalized members -/

namespace MemberAction

variable {μ α : Type} {pool : Pool}

theorem refuses_onPool {action : Pool.Action α} (h : action.Refuses pool) (member : μ) :
    (onPool action).Refuses (member, pool) := by
  obtain ⟨cause, run⟩ := h
  exact ⟨cause, onPool_eq_error.mpr ⟨rfl, run⟩⟩

/-- An edit of a member that does not exist is answered, without effect. -/
theorem onMember_of_absent [Inhabited μ] {members : Array μ} {index : Nat}
    (absent : ¬ index < members.size) (action : MemberAction μ α) :
    onMember index action (members, pool) = .ok none (members, pool) :=
  dif_neg absent

/-- What a member refuses, the array of members refuses. -/
theorem refuses_onMember [Inhabited μ] {action : MemberAction μ α} {members : Array μ} {index : Nat}
    (inside : index < members.size) (h : action.Refuses (members[index], pool)) :
    (onMember index action).Refuses (members, pool) := by
  obtain ⟨cause, run⟩ := h
  refine ⟨cause, ?_⟩
  simp [onMember, inside, run, Array.setIfInBounds]

/-- **Members that are finalized one after the other are finalized in the end.** -/
theorem finalized_of_finalizeFrom {finalize : MemberAction μ Unit} {finalized : μ → Prop}
    (step : ∀ {s : μ × Pool} {s' : μ × Pool}, finalize s = .ok () s' → finalized s'.1)
    {members : List μ} {done members' : Array μ} {pool' : Pool}
    (hdone : ∀ member ∈ done, finalized member)
    (run : finalizeFrom finalize done members pool = .ok () (members', pool')) :
    ∀ member ∈ members', finalized member := by
  induction members generalizing done pool with
  | nil =>
    cases run
    exact hdone
  | cons member members ih =>
    unfold finalizeFrom at run
    split at run
    · rename_i member' pool₁ first
      refine ih (fun other hother => ?_) run
      rcases Array.mem_push.mp hother with before | rfl
      · exact hdone other before
      · exact step first
    · cases run

end MemberAction

open MemberAction (refuses_onPool)

namespace Field

variable {field : Field} {pool : Pool}

/-- The flags are checked first, but a field needs a name whatever its flags are. -/
theorem refuses_declare (closed : pool.state = .sealed) (name : UnqualifiedName) (type : FieldType)
    (flags : AccessFlags .field) : (declare name type flags).Refuses pool := by
  unfold declare
  cases flags.check with
  | error cause => exact ⟨_, rfl⟩
  | ok flags => exact (Pool.refuses_add closed _).bind _

theorem refuses_perform (h : field.finalized = true) (edit : Edit) :
    edit.perform.Refuses (field, pool) := by
  cases edit with
  | setConstant constant => exact ⟨.memberFinalized, if_pos h⟩
  | addAttribute name value => exact ⟨.memberFinalized, if_pos h⟩

theorem finalized_of_putAttribute {name : String} {value : AttributeValue} {s s' : Field × Pool}
    (run : putAttribute name value s = .ok () s') : s'.1.finalized = s.1.finalized := by
  obtain ⟨field, pool⟩ := s
  cases added : field.attributes.add name value pool with
  | ok attributes pool' =>
    simp only [putAttribute, added] at run
    cases run
    rfl
  | error cause pool' =>
    simp only [putAttribute, added] at run
    cases run

/-- Whether it is finalized now or was before. -/
theorem finalized_of_finalize {s s' : Field × Pool} (run : finalize s = .ok () s') :
    s'.1.finalized = true := by
  obtain ⟨field, pool⟩ := s
  by_cases before : field.finalized = true
  · have same : finalize (field, pool) = .ok () (field, pool) := if_pos before
    rw [same] at run
    cases run
    exact before
  · simp only [finalize, if_neg before] at run
    split at run
    · cases run
      rfl
    · exact finalized_of_putAttribute run

end Field

namespace Method

variable {α : Type} {method : Method} {pool : Pool}

theorem refuses_declare (closed : pool.state = .sealed) (name : UnqualifiedName)
    (descriptor : MethodDescriptor) (flags : AccessFlags .method) (inInterface : Bool) :
    (declare name descriptor flags inInterface).Refuses pool := by
  unfold declare
  cases flags.check with
  | error cause => exact ⟨_, rfl⟩
  | ok flags =>
    dsimp only
    split
    · exact ⟨_, rfl⟩
    · exact (Pool.refuses_add closed _).bind _

/-- A finalized method without code refuses to have it changed too, for another cause. -/
theorem refuses_onCode (h : method.finalized = true) (action : Code.Action α) :
    (onCode action).Refuses (method, pool) := by
  obtain ⟨name, descriptor, flags, nameEntry, descriptorEntry, code, throws, attributes,
    finalized⟩ := method
  obtain rfl : finalized = true := h
  cases code with
  | none => exact ⟨.methodHasNoCode, rfl⟩
  | some code => exact ⟨.memberFinalized, rfl⟩

theorem refuses_whileOpen (h : method.finalized = true) (action : Action α) :
    (whileOpen action).Refuses (method, pool) :=
  ⟨.memberFinalized, if_pos h⟩

/-- Of all edits only the request for a constant does not ask whether the method is finalized. -/
theorem refuses_alteration (h : method.finalized = true) {edit : Edit}
    (alters : ∀ constant, edit ≠ .intern constant) : edit.perform.Refuses (method, pool) := by
  cases edit with
  | code edit => exact refuses_onCode h edit.perform
  | push constant position => exact ((refuses_onCode h _).bind _).bind _
  | addHandler start stop handler catchName => exact ((refuses_onCode h _).bind _).bind _
  | addThrows exception => exact (refuses_whileOpen h _).bind _
  | addAttribute name value => exact refuses_whileOpen h _
  | addCodeAttribute name value => exact ((refuses_onCode h _).bind _).bind _
  | intern constant => exact absurd rfl (alters constant)

/-- A finalized method in a sealed pool refuses all edits: what does not ask for a change of the
method asks for a constant. -/
theorem refuses_perform (h : method.finalized = true) (closed : pool.state = .sealed)
    (edit : Edit) :
    edit.perform.Refuses (method, pool) := by
  by_cases interns : ∃ constant, edit = .intern constant
  · obtain ⟨constant, rfl⟩ := interns
    exact (refuses_onPool (Pool.refuses_add closed constant) method).bind _
  · exact refuses_alteration h (not_exists.mp interns)

theorem finalized_of_putAttribute {name : String} {value : AttributeValue} {s s' : Method × Pool}
    (run : putAttribute name value s = .ok () s') : s'.1.finalized = s.1.finalized := by
  obtain ⟨method, pool⟩ := s
  cases added : method.attributes.add name value pool with
  | ok attributes pool' =>
    simp only [putAttribute, added] at run
    cases run
    rfl
  | error cause pool' =>
    simp only [putAttribute, added] at run
    cases run

/-- Assembling does not touch the mark, which is set before. -/
theorem finalized_of_assembleCode {s s' : Method × Pool} (run : assembleCode s = .ok () s') :
    s'.1.finalized = s.1.finalized := by
  obtain ⟨method, pool⟩ := s
  unfold assembleCode at run
  dsimp only at run
  split at run
  · cases run
    rfl
  · split at run
    · cases run
    · exact finalized_of_putAttribute run

theorem finalized_of_declareThrows {s s' : Method × Pool} (run : declareThrows s = .ok () s') :
    s'.1.finalized = s.1.finalized := by
  obtain ⟨method, pool⟩ := s
  unfold declareThrows at run
  dsimp only at run
  split at run
  · cases run
    rfl
  · split at run
    · cases run
    · exact finalized_of_putAttribute run

theorem finalized_of_finalize {s s' : Method × Pool} (run : finalize s = .ok () s') :
    s'.1.finalized = true := by
  obtain ⟨method, pool⟩ := s
  by_cases before : method.finalized = true
  · have same : finalize (method, pool) = .ok () (method, pool) := if_pos before
    rw [same] at run
    cases run
    exact before
  · simp only [finalize, if_neg before] at run
    obtain ⟨_, middle, assembled, declared⟩ := Attempt.bind_eq_ok.mp run
    rw [finalized_of_declareThrows declared, finalized_of_assembleCode assembled]

end Method

/-! ## Frozen classes -/

namespace Class

variable {α : Type} {cls cls' : Class}

/-- **A class that was written.** -/
structure Frozen (cls : Class) : Prop where
  prepared : cls.prepared = true
  closed : cls.pool.state = .sealed
  fields : ∀ field ∈ cls.fields, field.finalized = true
  methods : ∀ method ∈ cls.methods, method.finalized = true

/-- The edit is for something the class has and asks for a change of its pool, of its members or
of its attributes.  Fixing the indices of the pool is not among them. -/
def Edit.Alters (cls : Class) : Edit → Prop
  | setVersion _ | setSourceFile _ | addInterface _ | serialize _ => False
  | addField .. | addMethod .. | addAttribute .. => True
  | pool edit => edit ≠ .stabilize
  | field index _ => index < cls.fields.size
  | method index _ => index < cls.methods.size

theorem refuses_onPool {action : Pool.Action α} (h : action.Refuses cls.pool) :
    (onPool action).Refuses cls := by
  obtain ⟨cause, run⟩ := h
  exact ⟨cause, onPool_eq_error.mpr ⟨cls.pool, run, rfl⟩⟩

theorem refuses_onFields {action : MemberAction (Array Field) α}
    (h : action.Refuses (cls.fields, cls.pool)) : (onFields action).Refuses cls := by
  obtain ⟨cause, run⟩ := h
  exact ⟨cause, onFields_eq_error.mpr ⟨cls.fields, cls.pool, run, rfl⟩⟩

theorem refuses_onMethods {action : MemberAction (Array Method) α}
    (h : action.Refuses (cls.methods, cls.pool)) : (onMethods action).Refuses cls := by
  obtain ⟨cause, run⟩ := h
  exact ⟨cause, onMethods_eq_error.mpr ⟨cls.methods, cls.pool, run, rfl⟩⟩

theorem refuses_addField (closed : cls.pool.state = .sealed) (name : UnqualifiedName)
    (type : FieldType) (flags : AccessFlags .field) : (addField name type flags).Refuses cls := by
  apply refuses_onFields
  by_cases full : maxCount ≤ cls.fields.size
  · exact ⟨_, if_pos full⟩
  · obtain ⟨cause, run⟩ := Field.refuses_declare closed name type flags
    exact ⟨cause, by simp [full, run]⟩

theorem refuses_addMethod (closed : cls.pool.state = .sealed) (name : UnqualifiedName)
    (descriptor : MethodDescriptor) (flags : AccessFlags .method) :
    (addMethod name descriptor flags).Refuses cls := by
  unfold Attempt.Refuses addMethod
  refine refuses_onMethods ?_
  by_cases full : maxCount ≤ cls.methods.size
  · exact ⟨_, if_pos full⟩
  · obtain ⟨cause, run⟩ := Method.refuses_declare closed name descriptor flags cls.isInterface
    exact ⟨cause, by simp [full, run]⟩

/-- The name of an attribute would have to go into the pool. -/
theorem refuses_addAttribute (closed : cls.pool.state = .sealed) (name : String)
    (value : AttributeValue) : (addAttribute name value).Refuses cls := by
  have named : (cls.attributes.add name value).Refuses cls.pool :=
    (Pool.refuses_add closed (.utf8 name)).bind _
  obtain ⟨cause, run⟩ := refuses_onPool named
  exact ⟨cause, by simp only [addAttribute, run]⟩

/-- Edits of members that the class does not have are answered as such. -/
theorem perform_field_of_absent {index : Nat} (absent : ¬ index < cls.fields.size)
    (edit : Field.Edit) : (Edit.field index edit).perform cls = .ok .absent cls := by
  have found : onField index edit.perform cls = .ok none cls :=
    onFields_eq_ok.mpr ⟨cls.fields, cls.pool, MemberAction.onMember_of_absent absent _, rfl⟩
  exact Attempt.bind_eq_ok.mpr ⟨none, cls, found, rfl⟩

theorem perform_method_of_absent {index : Nat} (absent : ¬ index < cls.methods.size)
    (edit : Method.Edit) : (Edit.method index edit).perform cls = .ok .absent cls := by
  have found : onMethod index edit.perform cls = .ok none cls :=
    onMethods_eq_ok.mpr ⟨cls.methods, cls.pool, MemberAction.onMember_of_absent absent _, rfl⟩
  exact Attempt.bind_eq_ok.mpr ⟨none, cls, found, rfl⟩

namespace Frozen

/-- **Every change is refused**, by the pool or by the member it is for. -/
theorem refuses (h : cls.Frozen) {edit : Edit} (alters : edit.Alters cls) :
    edit.perform.Refuses cls := by
  cases edit with
  | setVersion | setSourceFile | addInterface | serialize => exact alters.elim
  | addField name type flags => exact (refuses_addField h.closed name type flags).bind _
  | addMethod name descriptor flags =>
    exact (refuses_addMethod h.closed name descriptor flags).bind _
  | addAttribute name value => exact (refuses_addAttribute h.closed name value).bind _
  | pool edit => exact refuses_onPool (Pool.refuses_perform h.closed alters)
  | field index edit =>
    have finalized := h.fields _ (Array.getElem_mem alters)
    exact (refuses_onFields (MemberAction.refuses_onMember alters
      (Field.refuses_perform finalized edit))).bind _
  | method index edit =>
    have finalized := h.methods _ (Array.getElem_mem alters)
    exact (refuses_onMethods (MemberAction.refuses_onMember alters
      (Method.refuses_perform finalized h.closed edit))).bind _

theorem stabilize (h : cls.Frozen) : (Edit.pool .stabilize).perform cls = .ok .done cls := by
  have same : Pool.Edit.stabilize.perform cls.pool = .ok .done cls.pool :=
    congrArg (EStateM.Result.ok Reply.done) (Pool.stabilize_of_sealed h.closed)
  exact onPool_eq_ok.mpr ⟨cls.pool, same, rfl⟩

/-- One edit, refused or not. -/
theorem perform (h : cls.Frozen) (edit : Edit) : (edit.perform.after cls).Frozen := by
  by_cases alters : edit.Alters cls
  · rw [(h.refuses alters).after_eq]
    exact h
  cases edit with
  | setVersion version => exact ⟨h.prepared, h.closed, h.fields, h.methods⟩
  | setSourceFile file => exact ⟨h.prepared, h.closed, h.fields, h.methods⟩
  | addInterface name =>
    unfold Attempt.after Edit.perform
    simp only [bind, EStateM.bind, addInterface]
    split_ifs
    · exact h
    · exact h
    · exact ⟨h.prepared, h.closed, h.fields, h.methods⟩
  | addField | addMethod | addAttribute => exact absurd trivial alters
  | pool edit =>
    obtain rfl : edit = .stabilize := not_not.mp alters
    rw [Attempt.after_of_ok h.stabilize]
    exact h
  | field index edit =>
    rw [Attempt.after_of_ok (perform_field_of_absent alters edit)]
    exact h
  | method index edit =>
    rw [Attempt.after_of_ok (perform_method_of_absent alters edit)]
    exact h
  | serialize room =>
    rw [after_serialize h.prepared]
    exact h

/-- Every history, whatever of it was refused. -/
theorem after (h : cls.Frozen) (later : List Edit) : (cls.after later).Frozen := by
  induction later generalizing cls with
  | nil => exact h
  | cons edit later ih => exact ih (h.perform edit)

end Frozen

/-- Preparing finalizes all members and ends with sealing the pool. -/
theorem frozen_of_prepareOnce (first : cls.prepared = false) (run : prepareOnce cls = .ok () cls') :
    cls'.Frozen := by
  have prepared := prepared_of_prepareOnce run
  have started : prepareOnce cls = prepare { cls with prepared := true } := by
    simp [prepareOnce, first]
  rw [started, prepare_around_methods] at run
  obtain ⟨_, settled, -, run₁⟩ := Attempt.bind_eq_ok.mp run
  obtain ⟨_, assembled, hmethods, run₂⟩ := Attempt.bind_eq_ok.mp run₁
  obtain ⟨_, finished, hfields, closing⟩ := Attempt.bind_eq_ok.mp run₂
  obtain ⟨methods, _, all, rfl⟩ := onMethods_eq_ok.mp hmethods
  obtain ⟨fields, _, all', rfl⟩ := onFields_eq_ok.mp hfields
  obtain ⟨pool, closes, rfl⟩ := onPool_eq_ok.mp closing
  exact ⟨prepared, Pool.sealed_of_close closes,
    MemberAction.finalized_of_finalizeFrom Field.finalized_of_finalize (by simp) all',
    MemberAction.finalized_of_finalizeFrom Method.finalized_of_finalize (by simp) all⟩

/-- A class whose first writing succeeds is frozen by it, whether it was written to a destination
or into memory. -/
theorem frozen_of_written (first : cls.prepared = false)
    (written : (∃ bytes, toBytes cls = .ok bytes cls') ∨
      ∃ sink sink', serialize (cls, sink) = .ok () (cls', sink')) : cls'.Frozen := by
  rcases written with ⟨bytes, run⟩ | ⟨sink, sink', run⟩
  · exact frozen_of_prepareOnce first (toBytes_eq_ok run).1
  · unfold serialize at run
    dsimp only at run
    split at run
    · cases run
    · rename_i prepared hprepare
      split at run
      · cases run
        exact frozen_of_prepareOnce first hprepare
      · cases run

/-- **A class that was written refuses to be changed.**  After its first successful writing, and
whatever was tried since, every edit that asks for a change of the pool, of a member or of the
attributes fails and leaves the class exactly as it was.  Fixing the indices of the pool succeeds
and changes nothing. -/
theorem written_class_refuses_changes {cls final : Class} (first : cls.prepared = false)
    (written : (∃ bytes, toBytes cls = .ok bytes final) ∨
      ∃ sink sink', serialize (cls, sink) = .ok () (final, sink')) (later : List Edit) :
    (∀ edit : Edit, edit.Alters (final.after later) →
        ∃ cause, edit.perform (final.after later) = .error cause (final.after later)) ∧
      (Edit.pool .stabilize).perform (final.after later) = .ok .done (final.after later) := by
  have frozen : (final.after later).Frozen := (frozen_of_written first written).after later
  exact ⟨fun edit alters => frozen.refuses alters, frozen.stabilize⟩

end Class

namespace Sample

/-- Edits of the written sample that ask for nothing new: its constants are in the pool, its method
declares the exception and it has a method of that name. -/
def repeated : List Class.Edit :=
  [.pool (.add (.integer 7)), .pool .optimize, .pool .close, .addMethod methodName ⟨[], none⟩ ⟨0x9⟩,
    .addAttribute "SourceFile" (.constant ⟨14⟩), .field 0 (.setConstant (.integer 7)),
    .method 0 (.code .freshLabel), .method 0 (.push (.integer 1) none),
    .method 0 (.addThrows exception), .method 0 (.intern (.utf8 "m"))]

/-- The written sample, edited since, refuses even what it has already. -/
theorem sample_refuses_changes :
    let later := [.setVersion .java8, .addInterface exception, .method 7 (.addThrows exception)]
    (start.after history).prepared = false ∧
      (start.after history).toBytes = .ok final.output.bytes final ∧
      (∀ edit ∈ repeated, edit.Alters (final.after later) ∧
        ∃ cause, edit.perform (final.after later) = .error cause (final.after later)) ∧
      (Class.Edit.pool .stabilize).perform (final.after later) = .ok .done (final.after later) := by
  intro later
  have first : (start.after history).prepared = false := by cbv
  have fields : (final.after later).fields.size = 1 := by cbv
  have methods : (final.after later).methods.size = 1 := by cbv
  have alters : ∀ edit ∈ repeated, edit.Alters (final.after later) := by
    simp [repeated, Class.Edit.Alters, fields, methods]
  obtain ⟨refused, stable⟩ :=
    Class.written_class_refuses_changes first (.inl ⟨_, toBytes_eq⟩) later
  exact ⟨first, toBytes_eq, fun edit hedit => ⟨alters edit hedit, refused edit (alters edit hedit)⟩,
    stable⟩

end Sample

end JvmAsm
