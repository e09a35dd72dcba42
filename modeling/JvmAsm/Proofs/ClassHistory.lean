import JvmAsm.Class.Edit
import JvmAsm.Proofs.MethodHistory

/-! # Classes reflect the edits they accepted

A history is any list of edits; some are refused, and some are for members that do
not exist.  `Class.accepted` is what remains of a history without those, and the
edits of one member are picked out of it by its index (`Edit.toField?`,
`Edit.toMethod?`).

`Class.Reflects` relates a class that is being built to the edits it accepted.  It
holds of a class without members, one edit keeps it (`Reflects.perform`), and so does
every history in which the class is not written yet (`Reflects.after`).

Fields and methods are kept alike, in arrays, so what can happen to a whole array of
members is said once, for members of any kind (`MembersReflect`). -/

namespace JvmAsm

/-! ## Arrays of members -/

namespace MemberAction

variable {μ α : Type} [Inhabited μ] {action : MemberAction μ α} {index : Nat}
  {members members' : Array μ} {pool pool' : Pool}

/-- An edit of a member touches no other. -/
theorem onMember_eq_ok {answer : Option α}
    (h : onMember index action (members, pool) = .ok answer (members', pool')) :
    answer = none ∧ members' = members ∧ pool' = pool ∨
      ∃ a member member', answer = some a ∧ members[index]? = some member ∧
        action (member, pool) = .ok a (member', pool') ∧
        members' = members.setIfInBounds index member' := by
  unfold onMember at h
  dsimp only at h
  split at h
  · rename_i present
    split at h
    · rename_i a member' pool₁ run
      cases h
      refine .inr ⟨a, members[index], member', rfl, Array.getElem?_eq_getElem present, run, ?_⟩
      simp [Array.setIfInBounds, present]
    · cases h
  · cases h
    exact .inl ⟨rfl, rfl, rfl⟩

/-- A failure is that of the member, which is put back as it was left. -/
theorem onMember_eq_error {cause : Error}
    (h : onMember index action (members, pool) = .error cause (members', pool')) :
    ∃ member member', members[index]? = some member ∧
      action (member, pool) = .error cause (member', pool') ∧
      members' = members.setIfInBounds index member' := by
  unfold onMember at h
  dsimp only at h
  split at h
  · rename_i present
    split at h
    · cases h
    · rename_i member' pool₁ run
      cases h
      refine ⟨members[index], member', Array.getElem?_eq_getElem present, run, ?_⟩
      simp [Array.setIfInBounds, present]
  · cases h

end MemberAction

theorem setIfInBounds_self {μ : Type} {members : Array μ} {index : Nat} {member : μ}
    (h : members[index]? = some member) : members.setIfInBounds index member = members := by
  obtain ⟨hlt, rfl⟩ := Array.getElem?_eq_some_iff.mp h
  simp [Array.setIfInBounds, hlt]

/-- Every member reflects the edits asked of it, and nothing was asked of members that do not
exist. -/
structure MembersReflect {μ ε : Type} (reflects : Pool → List ε → μ → Prop) (pool : Pool)
    (asked : Nat → List ε) (members : Array μ) : Prop where
  few : members.size ≤ 65535
  each : ∀ index member, members[index]? = some member → reflects pool (asked index) member
  beyond : ∀ index, members.size ≤ index → asked index = []

namespace MembersReflect

variable {μ ε : Type} {reflects : Pool → List ε → μ → Prop} {pool pool' : Pool}
  {asked : Nat → List ε} {members : Array μ}

theorem mono (h : MembersReflect reflects pool asked members)
    (keeps : ∀ edits member, reflects pool edits member → reflects pool' edits member) :
    MembersReflect reflects pool' asked members :=
  ⟨h.few, fun index member hmember => keeps _ _ (h.each index member hmember), h.beyond⟩

/-- Every member has its place, and so its edits. -/
theorem of_mem (h : MembersReflect reflects pool asked members) {member : μ}
    (hmember : member ∈ members.toList) : ∃ index, reflects pool (asked index) member := by
  obtain ⟨index, hindex⟩ := List.mem_iff_getElem?.mp hmember
  rw [Array.getElem?_toList] at hindex
  exact ⟨index, h.each index member hindex⟩

/-- One more member, of which nothing was asked yet. -/
theorem push (h : MembersReflect reflects pool asked members) (room : members.size < 65535)
    {member : μ} (hmember : reflects pool [] member) :
    MembersReflect reflects pool asked (members.push member) where
  few := by
    rw [Array.size_push]
    omega
  each index other hother := by
    rw [Array.getElem?_push] at hother
    split at hother
    · rename_i last
      obtain rfl := Option.some.inj hother
      rw [h.beyond index (Nat.le_of_eq last.symm)]
      exact hmember
    · exact h.each index other hother
  beyond index hindex := by
    rw [Array.size_push] at hindex
    exact h.beyond index (Nat.le_of_succ_le hindex)

/-- One member took one more edit. -/
theorem set (h : MembersReflect reflects pool asked members) {index : Nat} {member member' : μ}
    {edit : ε} (present : members[index]? = some member)
    (hmember' : reflects pool (asked index ++ [edit]) member') {asked' : Nat → List ε}
    (here : asked' index = asked index ++ [edit])
    (elsewhere : ∀ other, other ≠ index → asked' other = asked other) :
    MembersReflect reflects pool asked' (members.setIfInBounds index member') where
  few := by
    rw [Array.size_setIfInBounds]
    exact h.few
  each other found hfound := by
    have bound := (Array.getElem?_eq_some_iff.mp present).1
    by_cases same : other = index
    · subst same
      rw [Array.getElem?_setIfInBounds_self_of_lt bound] at hfound
      obtain rfl := Option.some.inj hfound
      rw [here]
      exact hmember'
    · rw [Array.getElem?_setIfInBounds_ne (Ne.symm same)] at hfound
      rw [elsewhere other same]
      exact h.each other found hfound
  beyond other hother := by
    rw [Array.size_setIfInBounds] at hother
    have bound := (Array.getElem?_eq_some_iff.mp present).1
    rw [elsewhere other (by omega)]
    exact h.beyond other hother

end MembersReflect

namespace Class

variable {α : Type} {cls cls' : Class}

/-! ## Taking changes of a class apart -/

/-- What an action does with the pool of a class, with the rest left alone. -/
theorem onPool_eq_ok {action : Pool.Action α} {answer : α} :
    onPool action cls = .ok answer cls' ↔
      ∃ pool, action cls.pool = .ok answer pool ∧ cls' = { cls with pool } := by
  obtain ⟨name, superName, flags, version, interfaces, fields, methods, attributes, sourceFile,
    pool, prepared⟩ := cls
  unfold onPool
  dsimp only
  cases action pool <;> simp [eq_comm]

theorem onPool_eq_error {action : Pool.Action α} {cause : Error} :
    onPool action cls = .error cause cls' ↔
      ∃ pool, action cls.pool = .error cause pool ∧ cls' = { cls with pool } := by
  obtain ⟨name, superName, flags, version, interfaces, fields, methods, attributes, sourceFile,
    pool, prepared⟩ := cls
  unfold onPool
  dsimp only
  cases action pool <;> simp [eq_comm]

/-- Fields change together with the pool… -/
theorem onFields_eq_ok {action : MemberAction (Array Field) α} {answer : α} :
    onFields action cls = .ok answer cls' ↔
      ∃ fields pool, action (cls.fields, cls.pool) = .ok answer (fields, pool) ∧
        cls' = { cls with fields, pool } := by
  obtain ⟨name, superName, flags, version, interfaces, fields, methods, attributes, sourceFile,
    pool, prepared⟩ := cls
  unfold onFields
  dsimp only
  rcases action (fields, pool) with ⟨_, _, _⟩ | ⟨_, _, _⟩ <;> simp [and_assoc, eq_comm]

theorem onFields_eq_error {action : MemberAction (Array Field) α} {cause : Error} :
    onFields action cls = .error cause cls' ↔
      ∃ fields pool, action (cls.fields, cls.pool) = .error cause (fields, pool) ∧
        cls' = { cls with fields, pool } := by
  obtain ⟨name, superName, flags, version, interfaces, fields, methods, attributes, sourceFile,
    pool, prepared⟩ := cls
  unfold onFields
  dsimp only
  rcases action (fields, pool) with ⟨_, _, _⟩ | ⟨_, _, _⟩ <;> simp [and_assoc, eq_comm]

/-- …and so do methods. -/
theorem onMethods_eq_ok {action : MemberAction (Array Method) α} {answer : α} :
    onMethods action cls = .ok answer cls' ↔
      ∃ methods pool, action (cls.methods, cls.pool) = .ok answer (methods, pool) ∧
        cls' = { cls with methods, pool } := by
  obtain ⟨name, superName, flags, version, interfaces, fields, methods, attributes, sourceFile,
    pool, prepared⟩ := cls
  unfold onMethods
  dsimp only
  rcases action (methods, pool) with ⟨_, _, _⟩ | ⟨_, _, _⟩ <;> simp [and_assoc, eq_comm]

theorem onMethods_eq_error {action : MemberAction (Array Method) α} {cause : Error} :
    onMethods action cls = .error cause cls' ↔
      ∃ methods pool, action (cls.methods, cls.pool) = .error cause (methods, pool) ∧
        cls' = { cls with methods, pool } := by
  obtain ⟨name, superName, flags, version, interfaces, fields, methods, attributes, sourceFile,
    pool, prepared⟩ := cls
  unfold onMethods
  dsimp only
  rcases action (methods, pool) with ⟨_, _, _⟩ | ⟨_, _, _⟩ <;> simp [and_assoc, eq_comm]

/-! ## Accepted edits -/

namespace Edit

/-- The class carries the edit out, and not for a member that does not exist. -/
def accepts (cls : Class) (edit : Edit) : Bool :=
  match edit.perform cls with
  | .ok reply _ => decide (reply ≠ .absent)
  | .error _ _ => false

/-- The edit as one of the field at an index. -/
def toField? (index : Nat) : Edit → Option Field.Edit
  | .field i edit => if i = index then some edit else none
  | _ => none

/-- The edit as one of the method at an index. -/
def toMethod? (index : Nat) : Edit → Option Method.Edit
  | .method i edit => if i = index then some edit else none
  | _ => none

end Edit

/-- The edits of a history that a class accepts, in order. -/
def accepted (cls : Class) : List Edit → List Edit
  | [] => []
  | edit :: later =>
    (if edit.accepts cls then [edit] else []) ++ accepted (edit.perform.after cls) later

/-- The accepted edits of the field at an index. -/
def fieldEdits (log : List Edit) (index : Nat) : List Field.Edit :=
  log.filterMap (Edit.toField? index)

/-- The accepted edits of the method at an index. -/
def methodEdits (log : List Edit) (index : Nat) : List Method.Edit :=
  log.filterMap (Edit.toMethod? index)

/-- The edit is the last one of its own field, and none of the others. -/
theorem fieldEdits_concat_field (log : List Edit) (i index : Nat) (edit : Field.Edit) :
    fieldEdits (log ++ [.field i edit]) index =
      fieldEdits log index ++ if i = index then [edit] else [] := by
  unfold fieldEdits
  rw [List.filterMap_append]
  by_cases same : i = index
  · simp [Edit.toField?, same]
  · simp [Edit.toField?, same]

theorem methodEdits_concat_method (log : List Edit) (i index : Nat) (edit : Method.Edit) :
    methodEdits (log ++ [.method i edit]) index =
      methodEdits log index ++ if i = index then [edit] else [] := by
  unfold methodEdits
  rw [List.filterMap_append]
  by_cases same : i = index
  · simp [Edit.toMethod?, same]
  · simp [Edit.toMethod?, same]

theorem fieldEdits_concat_other {edit : Edit} (h : ∀ index, edit.toField? index = none)
    (log : List Edit) : fieldEdits (log ++ [edit]) = fieldEdits log := by
  funext index
  unfold fieldEdits
  rw [filterMap_concat_none (h index)]

theorem methodEdits_concat_other {edit : Edit} (h : ∀ index, edit.toMethod? index = none)
    (log : List Edit) : methodEdits (log ++ [edit]) = methodEdits log := by
  funext index
  unfold methodEdits
  rw [filterMap_concat_none (h index)]

/-! ## The invariant -/

/-- **The class is what the edits it accepted asked for.** -/
structure Reflects (log : List Edit) (cls : Class) : Prop where
  pool : cls.pool.Invariant
  interfaces : cls.interfaces.length ≤ 65535
  attributes : cls.attributes.Sound cls.pool
  fields : MembersReflect Field.Reflects cls.pool (fieldEdits log) cls.fields
  methods : MembersReflect Method.Reflects cls.pool (methodEdits log) cls.methods
  unprepared : cls.prepared = false

/-- Nothing was asked of a new class. -/
theorem reflects_declare {name superName : BinaryName} {flags : AccessFlags .type}
    (h : declare name superName flags = .ok cls) : cls.Reflects [] := by
  unfold declare at h
  split at h
  · cases h
  · obtain rfl := Except.ok.inj h
    refine ⟨Pool.invariant_empty, by simp, Attributes.sound_empty _, ?_, ?_, rfl⟩
    · exact ⟨by simp, by simp, fun _ _ => rfl⟩
    · exact ⟨by simp, by simp, fun _ _ => rfl⟩

variable {log : List Edit}

/-- Another pool that knows as much about entries. -/
theorem Reflects.withPool (h : cls.Reflects log) {pool : Pool} (hpool : pool.Invariant)
    (more : cls.pool.Extends pool) : { cls with pool }.Reflects log where
  pool := hpool
  interfaces := h.interfaces
  attributes := h.attributes.mono more
  fields := h.fields.mono fun _ _ kept => kept.mono more
  methods := h.methods.mono fun _ _ kept => kept.mono more
  unprepared := h.unprepared

theorem Reflects.grown (h : cls.Reflects log) {pool : Pool} (grown : cls.pool.Grown pool) :
    { cls with pool }.Reflects log :=
  h.withPool (grown.invariant h.pool) grown.extends

/-- An edit of no member. -/
theorem Reflects.skip (h : cls.Reflects log) {edit : Edit}
    (hfield : ∀ index, edit.toField? index = none)
    (hmethod : ∀ index, edit.toMethod? index = none) :
    cls.Reflects (log ++ [edit]) where
  pool := h.pool
  interfaces := h.interfaces
  attributes := h.attributes
  fields := by
    rw [fieldEdits_concat_other hfield]
    exact h.fields
  methods := by
    rw [methodEdits_concat_other hmethod]
    exact h.methods
  unprepared := h.unprepared

/-! ## One edit -/

/-- What an edit leaves behind: a class that reflects it if it was accepted, and what the class
reflected before if not. -/
def Edit.Kept (log : List Edit) (edit : Edit) (cls : Class) : Prop :=
  (edit.perform.after cls).Reflects (if edit.accepts cls then log ++ [edit] else log)

/-- An edit of no member, however it ends. -/
theorem Reflects.kept {edit : Edit} (h : (edit.perform.after cls).Reflects log)
    (hfield : ∀ index, edit.toField? index = none)
    (hmethod : ∀ index, edit.toMethod? index = none) :
    Edit.Kept log edit cls := by
  unfold Edit.Kept
  split
  · exact h.skip hfield hmethod
  · exact h

theorem Reflects.addInterface (h : cls.Reflects log) (name : BinaryName) :
    ((Class.addInterface name).after cls).Reflects log := by
  unfold Attempt.after Class.addInterface
  by_cases full : maxCount ≤ cls.interfaces.length
  · simp only [if_pos full]
    exact h
  · simp only [if_neg full]
    by_cases known : cls.interfaces.contains name = true
    · simp only [if_pos known]
      exact h
    · simp only [if_neg known]
      refine { h with interfaces := ?_ }
      rw [List.length_append, List.length_singleton]
      unfold maxCount at full
      omega

/-- A field that was declared has accepted no edit yet. -/
theorem Reflects.addField (h : cls.Reflects log) (name : UnqualifiedName) (type : FieldType)
    (flags : AccessFlags .field) : ((Class.addField name type flags).after cls).Reflects log := by
  unfold Attempt.after
  cases run : Class.addField name type flags cls with
  | ok index cls' =>
    obtain ⟨fields, pool, added, rfl⟩ := onFields_eq_ok.mp run
    dsimp only at added
    split at added
    · cases added
    · rename_i room
      split at added
      · cases added
      · rename_i field pool' hdeclare
        cases added
        obtain ⟨grown, hfield⟩ := (Field.interns_declare h.pool).ok field pool hdeclare
        have kept := h.grown grown
        exact { kept with fields := kept.fields.push (Nat.lt_of_not_le room) hfield }
  | error cause cls' =>
    obtain ⟨fields, pool, refused, rfl⟩ := onFields_eq_error.mp run
    dsimp only at refused
    split at refused
    · cases refused
      exact h
    · split at refused
      · rename_i hdeclare
        cases refused
        exact h.grown ((Field.interns_declare h.pool).error cause pool hdeclare)
      · cases refused

theorem Reflects.addMethod (h : cls.Reflects log) (name : UnqualifiedName)
    (descriptor : MethodDescriptor) (flags : AccessFlags .method) :
    ((Class.addMethod name descriptor flags).after cls).Reflects log := by
  unfold Attempt.after
  cases run : Class.addMethod name descriptor flags cls with
  | ok index cls' =>
    unfold Class.addMethod at run
    obtain ⟨methods, pool, added, rfl⟩ := onMethods_eq_ok.mp run
    dsimp only at added
    split at added
    · cases added
    · rename_i room
      split at added
      · cases added
      · rename_i method pool' hdeclare
        cases added
        obtain ⟨grown, hmethod⟩ := (Method.interns_declare h.pool).ok method pool hdeclare
        have kept := h.grown grown
        exact { kept with methods := kept.methods.push (Nat.lt_of_not_le room) hmethod }
  | error cause cls' =>
    unfold Class.addMethod at run
    obtain ⟨methods, pool, refused, rfl⟩ := onMethods_eq_error.mp run
    dsimp only at refused
    split at refused
    · cases refused
      exact h
    · split at refused
      · rename_i hdeclare
        cases refused
        exact h.grown ((Method.interns_declare h.pool).error cause pool hdeclare)
      · cases refused

/-- Adding an attribute of the class. -/
theorem addAttribute_ok {name : String} {value : AttributeValue}
    (run : addAttribute name value cls = .ok () cls') (hpool : cls.pool.Invariant)
    (h : cls.attributes.Sound cls.pool) :
    ∃ pool entry, cls.pool.Grown pool ∧
      cls' = { cls with pool, attributes := cls.attributes.put name entry value } ∧
      cls'.attributes.Sound pool := by
  unfold addAttribute at run
  dsimp only at run
  split at run
  · rename_i attributes cls₁ hadd
    cases run
    obtain ⟨pool, added, rfl⟩ := onPool_eq_ok.mp hadd
    obtain ⟨grown, entry, rfl, sound⟩ := (Attributes.interns_add hpool h).ok _ _ added
    exact ⟨pool, entry, grown, rfl, sound⟩
  · cases run

theorem addAttribute_error {name : String} {value : AttributeValue} {cause : Error}
    (run : addAttribute name value cls = .error cause cls') (hpool : cls.pool.Invariant)
    (h : cls.attributes.Sound cls.pool) :
    ∃ pool, cls.pool.Grown pool ∧ cls' = { cls with pool } := by
  unfold addAttribute at run
  dsimp only at run
  split at run
  · cases run
  · rename_i hadd
    cases run
    obtain ⟨pool, refused, rfl⟩ := onPool_eq_error.mp hadd
    exact ⟨pool, (Attributes.interns_add hpool h).error _ _ refused, rfl⟩

theorem Reflects.addAttribute (h : cls.Reflects log) (name : String) (value : AttributeValue) :
    ((Class.addAttribute name value).after cls).Reflects log := by
  unfold Attempt.after
  cases run : Class.addAttribute name value cls with
  | ok answer cls' =>
    obtain ⟨pool, entry, grown, rfl, sound⟩ := addAttribute_ok run h.pool h.attributes
    exact { h.grown grown with attributes := sound }
  | error cause cls' =>
    obtain ⟨pool, grown, rfl⟩ := addAttribute_error run h.pool h.attributes
    exact h.grown grown

theorem Reflects.editPool (h : cls.Reflects log) (edit : Pool.Edit) :
    ((onPool edit.perform).after cls).Reflects log := by
  have invariant := h.pool.perform edit
  have more := Pool.extends_perform h.pool edit
  unfold Attempt.after at invariant more ⊢
  cases run : onPool edit.perform cls with
  | ok reply cls' =>
    obtain ⟨pool, hedit, rfl⟩ := onPool_eq_ok.mp run
    rw [hedit] at invariant more
    exact h.withPool invariant more
  | error cause cls' =>
    obtain ⟨pool, hedit, rfl⟩ := onPool_eq_error.mp run
    rw [hedit] at invariant more
    exact h.withPool invariant more

/-- **An accepted edit of a field goes to the log of that field**, and a refused one leaves no trace
but constants. -/
theorem Reflects.editField (h : cls.Reflects log) (index : Nat) (edit : Field.Edit) :
    Edit.Kept log (.field index edit) cls := by
  unfold Edit.Kept Edit.accepts Attempt.after
  cases run : (Edit.field index edit).perform cls with
  | ok reply cls' =>
    obtain ⟨answer, body, rfl⟩ := Attempt.bind_pure_eq_ok.mp run
    obtain ⟨fields, pool, onAll, rfl⟩ := onFields_eq_ok.mp body
    -- An edit of a field that does not exist changes nothing and is not an accepted one.
    rcases MemberAction.onMember_eq_ok onAll with ⟨rfl, rfl, rfl⟩ |
      ⟨reply, field, field', rfl, present, one, rfl⟩
    · exact h
    · obtain ⟨grown, reflects, answered⟩ :=
        (h.fields.each index field present).perform_ok h.pool one
      have kept := h.grown grown
      dsimp only [Option.getD_some]
      rw [if_pos (decide_eq_true answered)]
      refine { kept with fields := ?_, methods := ?_ }
      · refine kept.fields.set present reflects ?_ ?_
        · rw [fieldEdits_concat_field, if_pos rfl]
        · intro other apart
          rw [fieldEdits_concat_field, if_neg (Ne.symm apart), List.append_nil]
      · rw [methodEdits_concat_other fun _ => rfl]
        exact kept.methods
  | error cause cls' =>
    have body := Attempt.bind_pure_eq_error.mp run
    obtain ⟨fields, pool, onAll, rfl⟩ := onFields_eq_error.mp body
    obtain ⟨field, field', present, one, rfl⟩ := MemberAction.onMember_eq_error onAll
    -- A refused edit may have added constants before it was refused.
    obtain ⟨grown, rfl⟩ := Field.perform_error h.pool one
    rw [setIfInBounds_self present]
    exact h.grown grown

theorem Reflects.editMethod (h : cls.Reflects log) (index : Nat) (edit : Method.Edit) :
    Edit.Kept log (.method index edit) cls := by
  unfold Edit.Kept Edit.accepts Attempt.after
  cases run : (Edit.method index edit).perform cls with
  | ok reply cls' =>
    obtain ⟨answer, body, rfl⟩ := Attempt.bind_pure_eq_ok.mp run
    obtain ⟨methods, pool, onAll, rfl⟩ := onMethods_eq_ok.mp body
    rcases MemberAction.onMember_eq_ok onAll with ⟨rfl, rfl, rfl⟩ |
      ⟨reply, method, method', rfl, present, one, rfl⟩
    · exact h
    · obtain ⟨grown, reflects, answered⟩ :=
        (h.methods.each index method present).perform_ok h.pool one
      have kept := h.grown grown
      dsimp only [Option.getD_some]
      rw [if_pos (decide_eq_true answered)]
      refine { kept with fields := ?_, methods := ?_ }
      · rw [fieldEdits_concat_other fun _ => rfl]
        exact kept.fields
      · refine kept.methods.set present reflects ?_ ?_
        · rw [methodEdits_concat_method, if_pos rfl]
        · intro other apart
          rw [methodEdits_concat_method, if_neg (Ne.symm apart), List.append_nil]
  | error cause cls' =>
    have body := Attempt.bind_pure_eq_error.mp run
    obtain ⟨methods, pool, onAll, rfl⟩ := onMethods_eq_error.mp body
    obtain ⟨method, method', present, one, rfl⟩ := MemberAction.onMember_eq_error onAll
    obtain ⟨grown, rfl⟩ := Method.perform_error h.pool one
    rw [setIfInBounds_self present]
    exact h.grown grown

/-- **One edit** short of writing the class. -/
theorem Reflects.perform (h : cls.Reflects log) (edit : Edit)
    (unwritten : ∀ room, edit ≠ .serialize room) : Edit.Kept log edit cls := by
  cases edit with
  | setVersion version => exact kept { h with } (fun _ => rfl) fun _ => rfl
  | setSourceFile file => exact kept { h with } (fun _ => rfl) fun _ => rfl
  | addInterface name =>
    refine kept ?_ (fun _ => rfl) fun _ => rfl
    rw [Edit.perform, Attempt.after_bind_pure]
    exact h.addInterface name
  | addField name type flags =>
    refine kept ?_ (fun _ => rfl) fun _ => rfl
    rw [Edit.perform, Attempt.after_bind_pure]
    exact h.addField name type flags
  | addMethod name descriptor flags =>
    refine kept ?_ (fun _ => rfl) fun _ => rfl
    rw [Edit.perform, Attempt.after_bind_pure]
    exact h.addMethod name descriptor flags
  | addAttribute name value =>
    refine kept ?_ (fun _ => rfl) fun _ => rfl
    rw [Edit.perform, Attempt.after_bind_pure]
    exact h.addAttribute name value
  | pool edit => exact kept (h.editPool edit) (fun _ => rfl) fun _ => rfl
  | field index edit => exact h.editField index edit
  | method index edit => exact h.editMethod index edit
  | serialize room => exact absurd rfl (unwritten room)

/-! ## Histories -/

/-- **Every history** short of writing the class. -/
theorem Reflects.after (h : cls.Reflects log) {history : List Edit}
    (unwritten : ∀ room, .serialize room ∉ history) :
    (cls.after history).Reflects (log ++ cls.accepted history) := by
  induction history generalizing cls log with
  | nil =>
    rw [accepted, List.append_nil]
    exact h
  | cons edit later ih =>
    have step := h.perform edit fun room same => unwritten room (same ▸ List.mem_cons_self)
    have rest := ih step fun room later => unwritten room (List.mem_cons_of_mem edit later)
    -- The log grows at its end, while the accepted edits of a history start with the first.
    have regroup : (if edit.accepts cls then log ++ [edit] else log) =
        log ++ if edit.accepts cls then [edit] else [] := by
      split
      · rfl
      · rw [List.append_nil]
    rw [regroup, List.append_assoc] at rest
    exact rest

end Class

end JvmAsm
