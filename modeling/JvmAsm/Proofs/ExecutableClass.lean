import JvmAsm.Proofs.ClassRoundTrip
import JvmAsm.Proofs.ExecutableCode
import JvmAsm.Proofs.PoolClosure

/-! # Classes with executable code are written

A class can fail to be written because a constant finds no room, because its code cannot be
assembled, or because what is written refers to a constant that the pool does not have.  None of
this happens to a class without attributes of its own whose methods can be executed and whose
constants have room together (`Class.Reflects.exists_written`).

The argument follows a preparation.  `Inside` holds from its first part to its last, and a pool
inside a roomy set takes every further constant of the set. -/

namespace JvmAsm

open Check (Passes)
open Constant (closure mem_closure)
open Pool (Grown Inside Roomy)

/-! ## Outputs without a failure -/

namespace Output

variable {α : Type}

/-- An output is complete if its parts are. -/
theorem failure_append {first second : Output} :
    (first ++ second).failure = none ↔ first.failure = none ∧ second.failure = none := by
  change (append first second).failure = none ↔ _
  unfold append
  cases hfirst : first.failure with
  | none => simp
  | some cause => simp [hfirst]

theorem failure_attempt [Encode α] {check : Except Error α} :
    (attempt check).failure = none ↔ Passes check := by
  cases check with
  | ok a => simp [attempt, value]
  | error cause => simp [attempt]

theorem failure_each {elements : List α} {output : α → Output} :
    (each elements output).failure = none ↔
      ∀ element ∈ elements, (output element).failure = none := by
  induction elements with
  | nil => simp [each, empty]
  | cons element elements ih =>
    rw [List.forall_mem_cons, ← ih]
    exact failure_append

end Output

namespace Attributes

variable {attributes : Attributes} {pool : Pool}

/-- Payloads refer to no constant that the pool does not have. -/
def Supplied (pool : Pool) (attributes : Attributes) : Prop :=
  ∀ named ∈ attributes.entries, ∀ entry, named.value = .constant entry → pool.Has entry

theorem supplied_empty (pool : Pool) : empty.Supplied pool := fun _ hnamed => nomatch hnamed

theorem short_empty : empty.Short := fun _ hnamed => nomatch hnamed

/-- Names and constants of sound containers have their indices once these are fixed. -/
theorem Sound.output_complete (sound : attributes.Sound pool) (supplied : attributes.Supplied pool)
    (hpool : pool.Invariant) (settled : pool.state ≠ .growing) :
    (attributes.output pool).failure = none := by
  refine Output.failure_attempt.mpr ((passes_resolve hpool settled attributes).mpr ?_)
  intro named hnamed
  exact ⟨⟨_, sound.named named hnamed⟩, supplied named hnamed⟩

end Attributes

namespace Class

variable {built final : Class} {log : List Edit}

theorem passes_classIndex {pool : Pool} {name : BinaryName} {entry : Entry} (hpool : pool.Invariant)
    (settled : pool.state ≠ .growing) (known : pool.constant? entry = some (.classNamed name)) :
    Passes (classIndex pool name) := by
  rw [classIndex, Pool.indexOf, if_neg settled, (hpool.lookup _ _).mpr known]
  exact (Pool.passes_index hpool settled entry).mpr ⟨_, known⟩

/-- No payload of the class refers to a constant that its pool does not have. -/
structure Supplied (cls : Class) : Prop where
  attributes : cls.attributes.Supplied cls.pool
  fields : ∀ field ∈ cls.fields.toList, field.attributes.Supplied cls.pool
  methods : ∀ method ∈ cls.methods.toList, method.attributes.Supplied cls.pool

/-- **A prepared class is written in full**, unless an attribute that was given to it refers to a
constant of another pool. -/
theorem Prepared.complete (reflects : built.Reflects log) (h : built.Prepared final)
    (supplied : final.Supplied) : final.output.failure = none := by
  have settled : final.pool.state ≠ .growing := Pool.settled_of_state h.closed (by decide)
  -- The names of a member keep their entries when it is finalized.
  have member {kind : Declaration} {flags : AccessFlags kind} {name descriptor : Entry}
      {attributes : Attributes} {text text' : String}
      (hname : built.pool.constant? name = some (.utf8 text))
      (hdescriptor : built.pool.constant? descriptor = some (.utf8 text'))
      (sound : attributes.Sound final.pool) (here : attributes.Supplied final.pool) :
      (Output.sequence [.value flags, .attempt (final.pool.index name),
        .attempt (final.pool.index descriptor), attributes.output final.pool]).failure = none := by
    have index {entry : Entry} {text : String}
        (known : built.pool.constant? entry = some (.utf8 text)) :
        (Output.attempt (final.pool.index entry)).failure = none :=
      Output.failure_attempt.mpr
        ((Pool.passes_index h.pool settled entry).mpr ⟨_, h.more.constant? known⟩)
    simp only [Output.sequence, Output.failure_each, List.forall_mem_cons, id]
    exact ⟨rfl, index hname, index hdescriptor, sound.output_complete here h.pool settled, by simp⟩
  have named (name : BinaryName)
      (hname : name ∈ final.name :: final.superName :: final.interfaces) :
      Passes (classIndex final.pool name) := by
    rw [h.same] at hname
    obtain ⟨entry, known⟩ := h.names name hname
    exact passes_classIndex h.pool settled known
  simp only [output, Output.sequence, Output.failure_each, List.forall_mem_cons, id]
  refine ⟨trivial, rfl, ?_, rfl, ?_, ?_, ?_, trivial, ?_, trivial, ?_, ?_, by simp⟩
  · rw [Pool.output_eq h.pool h.closed]
  · exact Output.failure_attempt.mpr (named _ List.mem_cons_self)
  · exact Output.failure_attempt.mpr (named _ (List.mem_cons_of_mem _ List.mem_cons_self))
  · refine Output.failure_attempt.mpr (Check.passes_mapM.mpr fun name hname => ?_)
    exact named name (List.mem_cons_of_mem _ (List.mem_cons_of_mem _ hname))
  · intro field hfield
    obtain ⟨before, hbefore, finished⟩ := Check.exists_of_forall₂ h.fields hfield
    obtain ⟨index, known⟩ := reflects.fields.of_mem hbefore
    have here := supplied.fields field hfield
    rw [finished.same] at here ⊢
    exact member known.name known.type finished.attributes here
  · intro method hmethod
    obtain ⟨before, hbefore, finished⟩ := Check.exists_of_forall₂ h.methods hmethod
    obtain ⟨index, known⟩ := reflects.methods.of_mem hbefore
    have here := supplied.methods method hmethod
    rw [finished.same] at here ⊢
    exact member known.name known.descriptor finished.attributes here
  · exact h.attributes.output_complete supplied.attributes h.pool settled

end Class

/-! ## Pools that have room -/

namespace Pool.Inside

variable {allowed : Finset Constant} {pool : Pool}

/-- An allowed constant gets an entry, and the pool stays inside. -/
theorem exists_entry (h : Inside allowed pool) (roomy : Roomy allowed) (constant : Constant)
    (ours : closure [constant] ⊆ allowed) :
    ∃ entry pool', Pool.add constant pool = .ok entry pool' ∧ Inside allowed pool' ∧
      pool.Grown pool' ∧ pool'.constant? entry = some constant := by
  obtain ⟨entry, pool', run, inside⟩ := h.exists_add roomy ours
  obtain ⟨grown, known⟩ := (Pool.interns_add constant h.invariant).ok entry pool' run
  exact ⟨entry, pool', run, inside, grown, known⟩

/-- By induction over the names: each of them leaves room for the next. -/
theorem exists_names (h : Inside allowed pool) (roomy : Roomy allowed) {names : List BinaryName}
    (ours : ∀ name ∈ names, closure [.classNamed name] ⊆ allowed) :
    ∃ pool', (names.forM fun name => do let _ ← Pool.addClass name) pool = .ok () pool' ∧
      Inside allowed pool' ∧ pool.Grown pool' := by
  induction names generalizing pool with
  | nil => exact ⟨pool, rfl, h, .refl⟩
  | cons name names ih =>
    obtain ⟨entry, pool₁, run, inside, grown, -⟩ :=
      h.exists_entry roomy (.classNamed name) (ours name List.mem_cons_self)
    obtain ⟨pool₂, rest, inside', grown'⟩ :=
      ih inside fun other hother => ours other (List.mem_cons_of_mem name hother)
    refine ⟨pool₂, ?_, inside', grown.trans grown'⟩
    exact Attempt.bind_eq_ok.mpr ⟨(), pool₁, Attempt.bind_eq_ok.mpr ⟨entry, pool₁, run, rfl⟩, rest⟩

theorem layOut (h : Inside allowed pool) (growing : pool.state = .growing) {order : List Entry}
    (all : order.Perm pool.entries) : Inside allowed (pool.layOut order) where
  invariant := h.invariant.layOut growing all
  unsealed := (by decide : PoolState.stable ≠ .sealed)
  contents := by
    rw [(Pool.alike_layOut pool order).contents]
    exact h.contents

/-- Fixing indices adds nothing, so what was allowed still is. -/
theorem stabilize (h : Inside allowed pool) :
    Inside allowed pool.stabilize ∧ pool.stabilize.state = .stable := by
  unfold Pool.stabilize
  split
  · rename_i growing
    exact ⟨h.layOut growing (.refl _), rfl⟩
  · rename_i grown
    refine ⟨h, ?_⟩
    cases state : pool.state with
    | growing => exact absurd state grown
    | stable => rfl
    | sealed => exact absurd state h.unsealed

end Pool.Inside

/-! ## Members that are finalized -/

/-- **Members that can be finalized one by one can be finalized one after the other.** -/
theorem MemberAction.exists_finalizeFrom {μ : Type} {finalize : MemberAction μ Unit}
    {allowed : Finset Constant} (ready : Pool → μ → Prop)
    (ready_mono : ∀ {pool pool' member}, pool.Extends pool' → ready pool member →
      ready pool' member)
    (step : ∀ {pool member}, Inside allowed pool → pool.state = .stable → ready pool member →
      ∃ member' pool', finalize (member, pool) = .ok () (member', pool') ∧ Inside allowed pool' ∧
        pool.Grown pool')
    {members : List μ} (done : Array μ) {pool : Pool} (inside : Inside allowed pool)
    (stable : pool.state = .stable) (hready : ∀ member ∈ members, ready pool member) :
    ∃ members' pool', finalizeFrom finalize done members pool = .ok () (members', pool') ∧
      Inside allowed pool' ∧ pool.Grown pool' := by
  induction members generalizing done pool with
  | nil => exact ⟨done, pool, rfl, inside, .refl⟩
  | cons member members ih =>
    obtain ⟨member', pool₁, run, inside₁, grown⟩ :=
      step inside stable (hready member List.mem_cons_self)
    obtain ⟨members', pool₂, rest, inside₂, grown'⟩ := ih (done.push member') inside₁
      (grown.state_eq.trans stable) fun other hother =>
        ready_mono grown.extends (hready other (List.mem_cons_of_mem member hother))
    refine ⟨members', pool₂, ?_, inside₂, grown.trans grown'⟩
    rw [finalizeFrom, run]
    exact rest

/-- A field with nothing to generate. -/
structure Field.Bare (field : Field) : Prop where
  value : field.constantValue = none
  attributes : field.attributes = .empty
  unfinished : field.finalized = false

namespace Field.Bare

variable {pool : Pool} {field final : Field}

/-- A field without a constant generates nothing. -/
theorem finalize_eq (h : field.Bare) :
    finalize (field, pool) = .ok () ({ field with finalized := true }, pool) := by
  simp only [finalize, h.unfinished, Bool.false_eq_true, if_false, h.value]

theorem finished (h : field.Bare) (finished : field.Finished pool final) :
    final.attributes = .empty := by
  have generated := finished.generated
  rw [h.value] at generated
  exact generated.trans h.attributes

end Field.Bare

attribute [local irreducible] Opcode.form

/-- **A method that can be executed**, with nothing but its code. -/
structure Method.Executable (pool : Pool) (method : Method) : Prop where
  code : ∃ code, method.code = some code ∧ code.Executable pool
  throws : method.throws = []
  attributes : method.attributes = .empty
  unfinished : method.finalized = false

namespace Method.Executable

variable {allowed : Finset Constant} {pool pool' : Pool} {method final : Method}

theorem mono (h : method.Executable pool) (more : pool.Extends pool') : method.Executable pool' :=
  { h with code := h.code.imp fun _ known => ⟨known.1, known.2.mono more⟩ }

/-- The code can be assembled, and its attribute needs a name in the pool. -/
theorem exists_finalize (h : method.Executable pool) (inside : Inside allowed pool)
    (roomy : Roomy allowed) (ours : closure [.utf8 codeName] ⊆ allowed)
    (stable : pool.state = .stable) :
    ∃ method' pool', finalize (method, pool) = .ok () (method', pool') ∧ Inside allowed pool' ∧
      pool.Grown pool' := by
  obtain ⟨code, hcode, executable⟩ := h.code
  obtain ⟨payload, assembled⟩ := executable.assembled inside.invariant
    (Pool.settled_of_state stable (by decide))
  obtain ⟨entry, pool', run, inside', grown, -⟩ := inside.exists_entry roomy (.utf8 codeName) ours
  let generated : Attributes := ⟨[⟨codeName, entry, .bytes (encode payload)⟩]⟩
  have added : method.attributes.add codeName (.bytes (encode payload)) pool =
      .ok generated pool' := by
    rw [h.attributes]
    exact Attempt.bind_eq_ok.mpr ⟨entry, pool', run, rfl⟩
  refine ⟨{ method with attributes := generated, finalized := true }, pool', ?_, inside', grown⟩
  rw [finalize_of_assemble h.unfinished hcode assembled]
  refine Attempt.bind_eq_ok.mpr
    ⟨(), ({ method with attributes := generated, finalized := true }, pool'), ?_, ?_⟩
  · simp only [putAttribute, added]
  · simp only [declareThrows, h.throws, List.isEmpty_nil, if_true]

/-- All that finalizing adds is the code. -/
theorem finished (h : method.Executable pool) (finished : method.Finished pool final) :
    ∃ entry bytes, final.attributes = ⟨[⟨codeName, entry, .bytes bytes⟩]⟩ ∧
      bytes.length ≤ 65547 := by
  obtain ⟨code, hcode, executable⟩ := h.code
  obtain ⟨assembled, indices, middle, hassembled, hindices, gainsCode, gainsThrows⟩ :=
    finished.generated
  rw [hcode] at hassembled
  obtain ⟨payload, hpayload, hsome⟩ := Check.bind_eq_ok.mp hassembled
  obtain rfl := Check.pure_eq_ok.mp hsome
  rw [h.throws] at hindices
  obtain rfl := Check.pure_eq_ok.mp hindices
  rw [h.attributes] at gainsCode
  obtain ⟨entry, hmiddle⟩ := gainsCode
  exact ⟨entry, encode payload, gainsThrows.trans hmiddle, executable.length_encode hpayload⟩

end Method.Executable

/-! ## The whole class -/

namespace Class

variable {allowed : Finset Constant} {cls final : Class} {log : List Edit}

/-- **A class that can be executed**, with room for all its constants. -/
structure Executable (allowed : Finset Constant) (cls : Class) : Prop where
  inside : Inside allowed cls.pool
  names : ∀ name ∈ cls.name :: cls.superName :: cls.interfaces, closure [.classNamed name] ⊆ allowed
  code : closure [.utf8 codeName] ⊆ allowed
  sourceFile : cls.sourceFile = none
  attributes : cls.attributes = .empty
  fields : ∀ field ∈ cls.fields.toList, field.Bare
  methods : ∀ method ∈ cls.methods.toList, method.Executable cls.pool

namespace Executable

/-- The parts of a preparation succeed one after the other, inside what is allowed. -/
theorem exists_prepare (h : cls.Executable allowed) (roomy : Roomy allowed) :
    ∃ final, prepare cls = .ok () final := by
  obtain ⟨pool₁, hnames, inside₁, grown₁⟩ := h.inside.exists_names roomy h.names
  obtain ⟨inside₂, stable⟩ := inside₁.stabilize
  have more := grown₁.extends.trans (Pool.extends_stabilize pool₁)
  obtain ⟨methods, pool₃, hmethods, inside₃, grown₃⟩ := MemberAction.exists_finalizeFrom
    Method.Executable (fun more known => known.mono more)
    (fun inside stable known => known.exists_finalize inside roomy h.code stable) #[] inside₂ stable
    fun method hmethod => (h.methods method hmethod).mono more
  have stable₃ := grown₃.state_eq.trans stable
  obtain ⟨fields, pool₄, hfields, -, grown₄⟩ := MemberAction.exists_finalizeFrom
    (fun _ => Field.Bare) (fun _ known => known)
    (fun inside _ known => ⟨_, _, known.finalize_eq, inside, .refl⟩) #[] inside₃ stable₃ h.fields
  have stable₄ := grown₄.state_eq.trans stable₃
  refine ⟨{ cls with methods, fields, pool := { pool₄ with state := .sealed } }, ?_⟩
  refine Attempt.bind_eq_ok.mpr ⟨(), { cls with pool := pool₁ },
    onPool_eq_ok.mpr ⟨pool₁, hnames, rfl⟩, ?_⟩
  refine Attempt.bind_eq_ok.mpr ⟨(), { cls with pool := pool₁ }, ?_, ?_⟩
  · simp only [recordSource, h.sourceFile]
  refine Attempt.bind_eq_ok.mpr ⟨(), { cls with pool := pool₁.stabilize },
    onPool_eq_ok.mpr ⟨_, rfl, rfl⟩, ?_⟩
  refine Attempt.bind_eq_ok.mpr ⟨(), { cls with methods, pool := pool₃ },
    onMethods_eq_ok.mpr ⟨methods, pool₃, hmethods, rfl⟩, ?_⟩
  refine Attempt.bind_eq_ok.mpr ⟨(), { cls with methods, fields, pool := pool₄ },
    onFields_eq_ok.mpr ⟨fields, pool₄, hfields, rfl⟩, ?_⟩
  refine onPool_eq_ok.mpr ⟨{ pool₄ with state := .sealed }, ?_, rfl⟩
  simp only [Pool.close, stable₄]

theorem prepared (h : cls.Executable allowed) (prepared : cls.Prepared final) :
    final.Supplied ∧ final.Short := by
  have own : final.attributes = .empty := by
    rcases prepared.source with ⟨-, same⟩ | ⟨file, entry, named, -⟩
    · rw [same, h.attributes]
    · rw [h.sourceFile] at named
      cases named
  have fields (field : Field) (hfield : field ∈ final.fields.toList) :
      field.attributes = .empty := by
    obtain ⟨before, hbefore, finished⟩ := Check.exists_of_forall₂ prepared.fields hfield
    exact (h.fields before hbefore).finished finished
  have methods (method : Method) (hmethod : method ∈ final.methods.toList) :
      ∃ entry bytes, method.attributes = ⟨[⟨codeName, entry, .bytes bytes⟩]⟩ ∧
        bytes.length ≤ 65547 := by
    obtain ⟨before, hbefore, finished⟩ := Check.exists_of_forall₂ prepared.methods hmethod
    exact ((h.methods before hbefore).mono prepared.more).finished finished
  refine ⟨⟨own ▸ Attributes.supplied_empty _, fun field hfield => ?_, fun method hmethod => ?_⟩,
    ⟨own ▸ Attributes.short_empty, fun field hfield => ?_, fun method hmethod => ?_, ?_⟩⟩
  · rw [fields field hfield]
    exact Attributes.supplied_empty _
  · obtain ⟨entry, bytes, hattributes, -⟩ := methods method hmethod
    rw [hattributes]
    intro named hnamed entry hconstant
    obtain rfl := List.mem_singleton.mp hnamed
    cases hconstant
  · rw [fields field hfield]
    exact Attributes.short_empty
  · obtain ⟨entry, bytes, hattributes, length⟩ := methods method hmethod
    rw [hattributes]
    intro named hnamed
    obtain rfl := List.mem_singleton.mp hnamed
    exact Nat.lt_of_le_of_lt length (by decide)
  · intro method hmethod code hcode
    obtain ⟨before, hbefore, finished⟩ := Check.exists_of_forall₂ prepared.methods hmethod
    obtain ⟨code', hcode', executable⟩ := (h.methods before hbefore).code
    rw [finished.same] at hcode
    obtain rfl := Option.some.inj (hcode'.symm.trans hcode)
    rw [executable.attributes]
    exact Attributes.short_empty

/-- **A class that can be executed is written.** -/
theorem exists_written (h : cls.Executable allowed) (roomy : Roomy allowed)
    (reflects : cls.Reflects log) :
    ∃ bytes final, toBytes cls = .ok bytes final ∧ final.Short := by
  have started : { cls with prepared := true }.Executable allowed := { h with }
  obtain ⟨final, run⟩ := started.exists_prepare roomy
  have once : prepareOnce cls = .ok () final := by
    rw [prepareOnce, reflects.unprepared]
    exact run
  have prepared := reflects.prepared once
  obtain ⟨supplied, short⟩ := h.prepared prepared
  exact ⟨final.output.bytes, final,
    toBytes_of_prepare reflects.unprepared run (prepared.complete reflects supplied), short⟩

end Executable
end Class
end JvmAsm
