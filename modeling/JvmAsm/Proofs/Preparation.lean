import JvmAsm.Proofs.ClassHistory
import JvmAsm.Proofs.Writers

/-! # Preparing a class

What is written is not quite what was built.  Preparing a class interns its names,
fixes the indices and generates attributes: `SourceFile` for the class,
`ConstantValue` for a field with an initial value, `Code` and `Exceptions` for
methods.  An attribute of that name that is there already gives way to a generated
one, except for `SourceFile`; `Attributes.Gains` is what a container gains.

Members are finalized one after the other, and each may add the name of an attribute
to the pool.  So what is said about a member when its turn has come has to stay true
while later members take theirs: `Field.Finished` and `Method.Finished` only depend on
what the pool knows about entries, and go up with `Pool.Extends`.

`Class.Prepared` collects what a successful preparation achieves, all of it about the
pool that is written in the end (`Reflects.prepared`). -/

namespace JvmAsm

open Pool (Grown Interns)

/-! ## Generated attributes -/

namespace Attributes

variable {attributes result : Attributes} {name other : String} {value : AttributeValue}

/-- The container gained an attribute, if there was one to generate. -/
def Gains (attributes : Attributes) (name : String) (generated : Option AttributeValue)
    (result : Attributes) : Prop :=
  match generated with
  | none => result = attributes
  | some value => ∃ entry, result = attributes.put name entry value

/-- What is generated is found by its name… -/
theorem Gains.get?_self (h : attributes.Gains name (some value) result) :
    result.get? name = some value := by
  obtain ⟨entry, rfl⟩ := h
  exact get?_put_self

/-- …and the rest is as before. -/
theorem Gains.get?_of_ne {generated : Option AttributeValue}
    (h : attributes.Gains name generated result) (apart : other ≠ name) :
    result.get? other = attributes.get? other := by
  cases generated with
  | none =>
    obtain rfl : result = attributes := h
    rfl
  | some value =>
    obtain ⟨entry, rfl⟩ := h
    exact get?_put_of_ne apart

/-- Adding an attribute is gaining it. -/
theorem gains_of_add {pool pool' : Pool} (hpool : pool.Invariant) (sound : attributes.Sound pool)
    (run : attributes.add name value pool = .ok result pool') :
    Grown pool pool' ∧ attributes.Gains name (some value) result ∧ result.Sound pool' := by
  obtain ⟨grown, entry, hresult, sound'⟩ := (interns_add hpool sound).ok result pool' run
  exact ⟨grown, ⟨entry, hresult⟩, sound'⟩

end Attributes

/-! ## Fields -/

namespace Field

variable {field field' : Field} {pool pool' : Pool}

/-- A field that was not finalized yet. -/
structure Ready (pool : Pool) (field : Field) : Prop where
  unfinished : field.finalized = false
  attributes : field.attributes.Sound pool

theorem Ready.mono (h : field.Ready pool) (more : pool.Extends pool') : field.Ready pool' :=
  ⟨h.unfinished, h.attributes.mono more⟩

/-- **What finalizing makes of a field.** -/
structure Finished (pool : Pool) (built final : Field) : Prop where
  same : final = { built with attributes := final.attributes, finalized := true }
  attributes : final.attributes.Sound pool
  generated : built.attributes.Gains constantValueName
    (built.constantValue.map AttributeValue.constant) final.attributes

theorem Finished.mono (h : field.Finished pool field') (more : pool.Extends pool') :
    field.Finished pool' field' :=
  { h with attributes := h.attributes.mono more }

/-- A field ends with an attribute for its constant, if it has one. -/
theorem Ready.finished (hpool : pool.Invariant) (h : field.Ready pool)
    (run : finalize (field, pool) = .ok () (field', pool')) :
    Grown pool pool' ∧ field.Finished pool' field' := by
  unfold finalize at run
  simp only [h.unfinished, Bool.false_eq_true, if_false] at run
  cases hvalue : field.constantValue with
  | none =>
    simp only [hvalue] at run
    cases run
    refine ⟨.refl, by rw [hvalue], h.attributes, ?_⟩
    rw [hvalue]
    rfl
  | some entry =>
    simp only [hvalue] at run
    unfold putAttribute at run
    dsimp only at run
    split at run
    · rename_i attributes pool₁ hadd
      cases run
      obtain ⟨grown, gains, sound'⟩ := Attributes.gains_of_add hpool h.attributes hadd
      refine ⟨grown, by rw [hvalue], sound', ?_⟩
      rw [hvalue]
      exact gains
    · cases run

end Field

/-! ## Methods -/

namespace Method

variable {method method' : Method} {pool pool' : Pool}

attribute [local irreducible] Opcode.form

/-- The attribute of the declared exceptions, if there are any. -/
def exceptionsValue? (indices : List UInt16) : Option AttributeValue :=
  if indices.isEmpty then none else some (.bytes (encode (Exceptions.mk indices)))

theorem exceptionsValue?_of_mapM {throws : List Entry} {indices : List UInt16}
    (h : throws.mapM pool.index = .ok indices) (some_declared : throws ≠ []) :
    exceptionsValue? indices = some (.bytes (encode (Exceptions.mk indices))) := by
  have filled : indices ≠ [] := by
    rintro rfl
    exact some_declared (List.eq_nil_of_length_eq_zero (Check.length_of_mapM h).symm)
  unfold exceptionsValue?
  rw [if_neg (by simpa using filled)]

/-- A method that was not finalized yet. -/
structure Ready (pool : Pool) (method : Method) : Prop where
  unfinished : method.finalized = false
  attributes : method.attributes.Sound pool

/-- Being ready is about what the pool knows, and it forgets nothing. -/
theorem Ready.mono (h : method.Ready pool) (more : pool.Extends pool') : method.Ready pool' :=
  ⟨h.unfinished, h.attributes.mono more⟩

/-- **What finalizing makes of a method.** -/
structure Finished (pool : Pool) (built final : Method) : Prop where
  same : final = { built with attributes := final.attributes, finalized := true }
  attributes : final.attributes.Sound pool
  generated : ∃ assembled indices middle,
    built.code.mapM (fun code => code.assemble pool) = .ok assembled ∧
      built.throws.mapM pool.index = .ok indices ∧
      built.attributes.Gains codeName
        (assembled.map fun payload => .bytes (encode payload)) middle ∧
      middle.Gains exceptionsName (exceptionsValue? indices) final.attributes

/-- Code that can be assembled is assembled to the same bytes in a larger pool. -/
theorem assembled_mono {code : Option Code} {assembled : Option CodeAttribute}
    (more : pool.Extends pool') (h : code.mapM (fun code => code.assemble pool) = .ok assembled) :
    code.mapM (fun code => code.assemble pool') = .ok assembled := by
  cases code with
  | none => exact h
  | some code =>
    obtain ⟨payload, hpayload, rest⟩ := Check.bind_eq_ok.mp h
    exact Check.bind_eq_ok.mpr ⟨payload, Code.assemble_mono more hpayload, rest⟩

namespace Finished

variable {built final : Method}

/-- Code was assembled into its attribute. -/
theorem code (h : Finished pool built final) {code : Code} (hcode : built.code = some code) :
    ∃ payload, code.assemble pool = .ok payload ∧
      final.attributes.get? codeName = some (.bytes (encode payload)) := by
  obtain ⟨assembled, indices, middle, hassembled, -, gainsCode, gainsThrows⟩ := h.generated
  rw [hcode] at hassembled
  obtain ⟨payload, hpayload, hsome⟩ := Check.bind_eq_ok.mp hassembled
  obtain rfl := Check.pure_eq_ok.mp hsome
  refine ⟨payload, hpayload, ?_⟩
  rw [gainsThrows.get?_of_ne (by decide)]
  exact gainsCode.get?_self

/-- Declared exceptions were turned into their attribute. -/
theorem throws (h : Finished pool built final) (some_declared : built.throws ≠ []) :
    ∃ indices, built.throws.mapM pool.index = .ok indices ∧
      final.attributes.get? exceptionsName = some (.bytes (encode (Exceptions.mk indices))) := by
  obtain ⟨assembled, indices, middle, -, hindices, -, gains⟩ := h.generated
  refine ⟨indices, hindices, ?_⟩
  rw [exceptionsValue?_of_mapM hindices some_declared] at gains
  exact gains.get?_self

theorem mono (h : Finished pool built final) (more : pool.Extends pool') :
    Finished pool' built final where
  same := h.same
  attributes := h.attributes.mono more
  generated := by
    obtain ⟨assembled, indices, middle, hassembled, hindices, gainsCode, gainsThrows⟩ := h.generated
    exact ⟨assembled, indices, middle, assembled_mono more hassembled,
      Check.mapM_mono (fun _ _ => more.index) hindices, gainsCode, gainsThrows⟩

end Finished

/-- The code attribute comes first… -/
theorem gains_of_assembleCode (hpool : pool.Invariant) (sound : method.attributes.Sound pool)
    (run : assembleCode (method, pool) = .ok () (method', pool')) :
    ∃ attributes assembled, Grown pool pool' ∧ method' = { method with attributes } ∧
      attributes.Sound pool' ∧ method.code.mapM (fun code => code.assemble pool) = .ok assembled ∧
      method.attributes.Gains codeName
        (assembled.map fun payload => .bytes (encode payload)) attributes := by
  unfold assembleCode at run
  dsimp only at run
  split at run
  · rename_i hcode
    cases run
    refine ⟨method.attributes, none, .refl, rfl, sound, ?_, rfl⟩
    rw [hcode]
    rfl
  · rename_i code hcode
    split at run
    · cases run
    · rename_i payload hpayload
      rw [contents_serialize] at run
      obtain ⟨grown, entry, rfl, sound'⟩ := putAttribute_ok hpool sound run
      refine ⟨_, some payload, grown, rfl, sound', ?_, ⟨entry, rfl⟩⟩
      rw [hcode]
      exact Check.bind_eq_ok.mpr ⟨payload, hpayload, rfl⟩

/-- …then the one for declared exceptions, if there are any. -/
theorem gains_of_declareThrows (hpool : pool.Invariant) (sound : method.attributes.Sound pool)
    (run : declareThrows (method, pool) = .ok () (method', pool')) :
    ∃ attributes indices, Grown pool pool' ∧ method' = { method with attributes } ∧
      attributes.Sound pool' ∧ method.throws.mapM pool.index = .ok indices ∧
      method.attributes.Gains exceptionsName (exceptionsValue? indices) attributes := by
  unfold declareThrows at run
  dsimp only at run
  split at run
  · rename_i none_declared
    cases run
    refine ⟨method.attributes, [], .refl, rfl, sound, ?_, rfl⟩
    rw [List.isEmpty_iff.mp none_declared]
    rfl
  · rename_i some_declared
    split at run
    · cases run
    · rename_i indices hindices
      rw [contents_serialize] at run
      obtain ⟨grown, entry, rfl, sound'⟩ := putAttribute_ok hpool sound run
      refine ⟨_, indices, grown, rfl, sound', hindices, ?_⟩
      rw [exceptionsValue?_of_mapM hindices fun none_declared =>
        some_declared (by simp [none_declared])]
      exact ⟨entry, rfl⟩

/-- **What finalizing makes of a method.** -/
theorem Ready.finished (hpool : pool.Invariant) (h : method.Ready pool)
    (run : finalize (method, pool) = .ok () (method', pool')) :
    Grown pool pool' ∧ method.Finished pool' method' := by
  unfold finalize at run
  simp only [h.unfinished, Bool.false_eq_true, if_false] at run
  obtain ⟨_, ⟨middle, pool₁⟩, first, second⟩ := Attempt.bind_eq_ok.mp run
  have opened : { method with finalized := true }.attributes.Sound pool := h.attributes
  obtain ⟨attributes₁, assembled, grown, rfl, sound₁, hassembled, gainsCode⟩ :=
    gains_of_assembleCode hpool opened first
  obtain ⟨attributes₂, indices, grown', rfl, sound₂, hindices, gainsThrows⟩ :=
    gains_of_declareThrows (grown.invariant hpool) sound₁ second
  -- The name of the second attribute may be new, so the code was assembled in a smaller pool.
  exact ⟨grown.trans grown', rfl, sound₂, assembled, indices, attributes₁,
    assembled_mono (grown.extends.trans grown'.extends) hassembled,
    Check.mapM_mono (fun _ _ => grown'.extends.index) hindices, gainsCode, gainsThrows⟩

end Method

/-! ## All members -/

/-- **Members that are finalized one after the other are all finished in the end.**  `finished` is
what finalizing one member achieves; it has to survive the growth of the pool. -/
theorem MemberAction.finished_of_finalizeFrom {μ : Type} {finalize : MemberAction μ Unit}
    (ready : Pool → μ → Prop) (finished : Pool → μ → μ → Prop)
    (ready_mono :
      ∀ {pool pool' member}, pool.Extends pool' → ready pool member → ready pool' member)
    (finished_mono : ∀ {pool pool' built final}, pool.Extends pool' → finished pool built final →
      finished pool' built final)
    (step : ∀ {pool pool' member member'}, pool.Invariant → ready pool member →
      finalize (member, pool) = .ok () (member', pool') →
      Grown pool pool' ∧ finished pool' member member')
    {members built : List μ} {done members' : Array μ} {pool pool' : Pool} (hpool : pool.Invariant)
    (hready : ∀ member ∈ members, ready pool member)
    (hdone : List.Forall₂ (finished pool) built done.toList)
    (run : finalizeFrom finalize done members pool = .ok () (members', pool')) :
    Grown pool pool' ∧ List.Forall₂ (finished pool') (built ++ members) members'.toList := by
  -- Those done so far have to be finished in a pool that still grows, hence the general pool.
  induction members generalizing built done pool with
  | nil =>
    cases run
    rw [List.append_nil]
    exact ⟨.refl, hdone⟩
  | cons member members ih =>
    unfold finalizeFrom at run
    split at run
    · rename_i member' pool₁ hfinalize
      obtain ⟨grown, hfinished⟩ := step hpool (hready member List.mem_cons_self) hfinalize
      have later : ∀ other ∈ members, ready pool₁ other := fun other hother =>
        ready_mono grown.extends (hready other (List.mem_cons_of_mem member hother))
      have sofar :
          List.Forall₂ (finished pool₁) (built ++ [member]) (done.push member').toList := by
        rw [Array.toList_push]
        exact List.rel_append (hdone.imp fun _ _ => finished_mono grown.extends)
          (.cons hfinished .nil)
      obtain ⟨grown', all⟩ := ih (grown.invariant hpool) later sofar run
      rw [List.append_assoc] at all
      exact ⟨grown.trans grown', all⟩
    · cases run

namespace Class

variable {cls cls' : Class} {log : List Edit}

/-! ## The parts of a preparation -/

/-- All names are in the pool afterwards, by induction over them. -/
theorem interns_names {pool : Pool} (names : List BinaryName) (hpool : pool.Invariant) :
    Interns (names.forM fun name => do let _ ← Pool.addClass name) pool fun _ pool' =>
      ∀ name ∈ names, ∃ entry, pool'.constant? entry = some (.classNamed name) := by
  induction names generalizing pool with
  | nil => exact Pool.interns_pure nofun
  | cons name names ih =>
    change Interns ((do let _ ← Pool.addClass name) >>= fun _ =>
      names.forM fun name => do let _ ← Pool.addClass name) pool _
    have first : Interns (do let _ ← Pool.addClass name) pool fun _ pool' =>
        ∃ entry, pool'.constant? entry = some (.classNamed name) :=
      Pool.interns_bind (Pool.interns_add _ hpool) fun entry _ _ hentry =>
        Pool.interns_pure ⟨entry, hentry⟩
    constructor
    · intro answer pool'' run
      obtain ⟨_, pool', hfirst, hrest⟩ := Attempt.bind_eq_ok.mp run
      obtain ⟨grown, entry, hentry⟩ := first.ok _ pool' hfirst
      obtain ⟨grown', others⟩ := (ih (grown.invariant hpool)).ok answer pool'' hrest
      refine ⟨grown.trans grown', fun other hother => ?_⟩
      rcases List.mem_cons.mp hother with rfl | hother
      · exact ⟨entry, grown'.extends.constant? hentry⟩
      · exact others other hother
    · intro cause pool'' run
      rcases Attempt.bind_eq_error.mp run with hfirst | ⟨_, pool', hfirst, hrest⟩
      · exact first.error cause pool'' hfirst
      · have grown := (first.ok _ pool' hfirst).1
        exact grown.trans ((ih (grown.invariant hpool)).error cause pool'' hrest)

/-- The class, its superclass and its interfaces are known from here on. -/
theorem internNames_ok (run : internNames cls = .ok () cls') (hpool : cls.pool.Invariant) :
    ∃ pool, cls.pool.Grown pool ∧ cls' = { cls with pool } ∧
      ∀ name ∈ cls.name :: cls.superName :: cls.interfaces,
        ∃ entry, pool.constant? entry = some (.classNamed name) := by
  obtain ⟨pool, hintern, rfl⟩ := onPool_eq_ok.mp run
  obtain ⟨grown, named⟩ := (interns_names _ hpool).ok () pool hintern
  exact ⟨pool, grown, rfl, named⟩

/-- The attribute of the source file is generated if a file was named, unless there is one by
that name. -/
def RecordsSource (pool : Pool) (built final : Class) : Prop :=
  (built.sourceFile = none ∨ built.attributes.contains sourceFileName = true) ∧
      final.attributes = built.attributes ∨
    ∃ file entry, built.sourceFile = some file ∧
      built.attributes.contains sourceFileName = false ∧
      pool.constant? entry = some (.utf8 file) ∧
      built.attributes.Gains sourceFileName (some (.constant entry)) final.attributes

theorem recordSource_ok (run : recordSource cls = .ok () cls') (hpool : cls.pool.Invariant)
    (sound : cls.attributes.Sound cls.pool) :
    ∃ pool attributes, cls.pool.Grown pool ∧ cls' = { cls with pool, attributes } ∧
      attributes.Sound pool ∧ RecordsSource pool cls cls' := by
  unfold recordSource at run
  split at run
  · rename_i unnamed
    cases run
    exact ⟨cls.pool, cls.attributes, .refl, rfl, sound, .inl ⟨.inl unnamed, rfl⟩⟩
  · rename_i file named
    split at run
    · rename_i present
      cases run
      exact ⟨cls.pool, cls.attributes, .refl, rfl, sound, .inl ⟨.inr present, rfl⟩⟩
    · rename_i absent
      obtain ⟨entry, cls₁, hfile, hadd⟩ := Attempt.bind_eq_ok.mp run
      obtain ⟨pool₁, hintern, rfl⟩ := onPool_eq_ok.mp hfile
      obtain ⟨grown, hentry⟩ := (Pool.interns_add _ hpool).ok entry pool₁ hintern
      obtain ⟨pool₂, nameEntry, grown', rfl, sound'⟩ :=
        addAttribute_ok hadd (grown.invariant hpool) (sound.mono grown.extends)
      refine ⟨pool₂, _, grown.trans grown', rfl, sound', .inr ⟨file, entry, named, ?_, ?_, ?_⟩⟩
      · exact Bool.eq_false_iff.mpr absent
      · exact grown'.extends.constant? hentry
      · exact ⟨nameEntry, rfl⟩

theorem finalizeMethods_ok (run : finalizeMethods cls = .ok () cls') (hpool : cls.pool.Invariant)
    (ready : ∀ method ∈ cls.methods.toList, method.Ready cls.pool) :
    ∃ methods pool, cls.pool.Grown pool ∧ cls' = { cls with methods, pool } ∧
      List.Forall₂ (Method.Finished pool) cls.methods.toList methods.toList := by
  obtain ⟨methods, pool, hall, rfl⟩ := onMethods_eq_ok.mp run
  obtain ⟨grown, finished⟩ := MemberAction.finished_of_finalizeFrom
    Method.Ready Method.Finished (fun more known => known.mono more)
      (fun more known => known.mono more)
    Method.Ready.finished hpool ready .nil hall
  exact ⟨methods, pool, grown, rfl, finished⟩

theorem finalizeFields_ok (run : finalizeFields cls = .ok () cls') (hpool : cls.pool.Invariant)
    (ready : ∀ field ∈ cls.fields.toList, field.Ready cls.pool) :
    ∃ fields pool, cls.pool.Grown pool ∧ cls' = { cls with fields, pool } ∧
      List.Forall₂ (Field.Finished pool) cls.fields.toList fields.toList := by
  obtain ⟨fields, pool, hall, rfl⟩ := onFields_eq_ok.mp run
  obtain ⟨grown, finished⟩ := MemberAction.finished_of_finalizeFrom
    Field.Ready Field.Finished (fun more known => known.mono more)
      (fun more known => known.mono more)
    Field.Ready.finished hpool ready .nil hall
  exact ⟨fields, pool, grown, rfl, finished⟩

/-- Sealing changes the state of the pool and nothing else. -/
theorem close_ok {pool pool' : Pool} (hpool : pool.Invariant)
    (run : Pool.close pool = .ok () pool') :
    pool'.Invariant ∧ pool.Extends pool' ∧ pool'.state = .sealed := by
  unfold Pool.close at run
  split at run
  · cases run
  · cases run
  · rename_i stable
    cases run
    exact ⟨hpool.close stable, Pool.extends_close pool, rfl⟩

/-! ## The whole preparation -/

/-- **What preparing makes of a class**: names, flags, version and interfaces stay, and everything
else is known to the pool that is written. -/
structure Prepared (built final : Class) : Prop where
  same : final = { built with
    fields := final.fields
    methods := final.methods
    attributes := final.attributes
    pool := final.pool
    prepared := true }
  pool : final.pool.Invariant
  closed : final.pool.state = .sealed
  more : built.pool.Extends final.pool
  names : ∀ name ∈ built.name :: built.superName :: built.interfaces,
    ∃ entry, final.pool.constant? entry = some (.classNamed name)
  attributes : final.attributes.Sound final.pool
  source : RecordsSource final.pool built final
  fields : List.Forall₂ (Field.Finished final.pool) built.fields.toList final.fields.toList
  methods : List.Forall₂ (Method.Finished final.pool) built.methods.toList final.methods.toList

theorem RecordsSource.mono {pool pool' : Pool} {built final : Class}
    (h : RecordsSource pool built final) (more : pool.Extends pool') :
    RecordsSource pool' built final := by
  rcases h with kept | ⟨file, entry, named, absent, hentry, gains⟩
  · exact .inl kept
  · exact .inr ⟨file, entry, named, absent, more.constant? hentry, gains⟩

theorem Reflects.ready_method (h : cls.Reflects log) {method : Method}
    (hmethod : method ∈ cls.methods.toList) : method.Ready cls.pool := by
  obtain ⟨index, reflects⟩ := h.methods.of_mem hmethod
  exact ⟨reflects.unfinished, reflects.attributes⟩

theorem Reflects.ready_field (h : cls.Reflects log) {field : Field}
    (hfield : field ∈ cls.fields.toList) : field.Ready cls.pool := by
  obtain ⟨index, reflects⟩ := h.fields.of_mem hfield
  exact ⟨reflects.unfinished, reflects.attributes⟩

/-- **A class that was built and then prepared.** -/
theorem Reflects.prepared {final : Class} (h : cls.Reflects log)
    (run : prepareOnce cls = .ok () final) : cls.Prepared final := by
  unfold prepareOnce at run
  rw [h.unprepared] at run
  simp only [Bool.false_eq_true, if_false] at run
  obtain ⟨_, cls₁, hnames, run₁⟩ := Attempt.bind_eq_ok.mp run
  obtain ⟨_, cls₂, hsource, run₂⟩ := Attempt.bind_eq_ok.mp run₁
  obtain ⟨_, cls₃, hstabilize, run₃⟩ := Attempt.bind_eq_ok.mp run₂
  obtain ⟨_, cls₄, hmethods, run₄⟩ := Attempt.bind_eq_ok.mp run₃
  obtain ⟨_, cls₅, hfields, hclose⟩ := Attempt.bind_eq_ok.mp run₄
  -- Each part in turn, with the pool it leaves to the next.
  obtain ⟨pool₁, grown₁, rfl, named⟩ := internNames_ok hnames h.pool
  have inv₁ := grown₁.invariant h.pool
  obtain ⟨pool₂, attributes, grown₂, rfl, sound, source⟩ :=
    recordSource_ok hsource inv₁ (h.attributes.mono grown₁.extends)
  obtain ⟨_, ⟨⟩, rfl⟩ := onPool_eq_ok.mp hstabilize
  have inv₃ := (grown₂.invariant inv₁).stabilize
  have late₂ := Pool.extends_stabilize pool₂
  have more₃ := (grown₁.extends.trans grown₂.extends).trans late₂
  obtain ⟨methods, pool₄, grown₄, rfl, finishedMethods⟩ := finalizeMethods_ok hmethods inv₃
    fun method hmethod => (h.ready_method hmethod).mono more₃
  have inv₄ := grown₄.invariant inv₃
  have more₄ := more₃.trans grown₄.extends
  obtain ⟨fields, pool₅, grown₅, rfl, finishedFields⟩ := finalizeFields_ok hfields inv₄
    fun field hfield => (h.ready_field hfield).mono more₄
  obtain ⟨pool₆, hpool₆, rfl⟩ := onPool_eq_ok.mp hclose
  obtain ⟨inv₆, late₅, closed⟩ := close_ok (grown₅.invariant inv₄) hpool₆
  -- What each part achieved lasts to the end.
  have late₄ := grown₅.extends.trans late₅
  have late₃ := grown₄.extends.trans late₄
  have late₁ := grown₂.extends.trans (late₂.trans late₃)
  exact {
    same := rfl
    pool := inv₆
    closed
    more := grown₁.extends.trans late₁
    names := fun name hname => (named name hname).imp fun _ known => late₁.constant? known
    attributes := sound.mono (late₂.trans late₃)
    source := source.mono (late₂.trans late₃)
    fields := finishedFields.imp fun _ _ finished => finished.mono late₅
    methods := finishedMethods.imp fun _ _ finished => finished.mono late₄ }

end Class

end JvmAsm
