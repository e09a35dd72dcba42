import JvmAsm.Proofs.ClassLifecycle
import JvmAsm.Proofs.FailedAdditions

/-! # Failed edits

An edit of a class that fails leaves the class as it was, members, interfaces and attributes, but
for its pool: constants that went in before the edit failed stay in.  `failed_edit_spares_class`
says which these can be.  It holds at any point in the life of a class, and so in particular of
classes that were written, or could not be.

To say anything about a pool one has to know that it is one, that is, that its parts agree.  No
history of a class spoils this (`invariant_after`). -/

namespace JvmAsm

/-! ## Members in a class -/

namespace MemberAction

variable {μ α : Type} {wanted : Set Constant}

/-- Members that are not edited cannot be harmed. -/
theorem unharmed_onMember [Inhabited μ] {action : MemberAction μ α} (index : Nat)
    (h : action.Fails (Unharmed wanted)) : (onMember index action).Fails (Unharmed wanted) := by
  rintro ⟨members, pool⟩ cause ⟨members', pool'⟩ run
  obtain ⟨member, member', present, inner, rfl⟩ := onMember_eq_error run
  obtain ⟨⟨rfl, draws⟩, refused⟩ := h inner
  rw [setIfInBounds_self present]
  refine ⟨⟨rfl, draws⟩, fun refusal => ?_⟩
  rw [(Prod.mk.inj (refused refusal)).2]

theorem unharmed_of_interning {action : Pool.Action α} (h : Pool.Interning wanted action)
    {member : μ} {pool pool' : Pool} {cause : Error} (failed : action pool = .error cause pool') :
    Unharmed wanted cause (member, pool) (member, pool') := by
  obtain ⟨draws, accepted⟩ := h.spares failed
  exact ⟨⟨rfl, draws⟩, fun refusal => absurd refusal accepted⟩

end MemberAction

namespace Class

open Pool (Among Draws Interning)
open MemberAction (unharmed_of_interning)

variable {α : Type} {cls cls' : Class} {wanted : Set Constant}

/-! ## The pool of a class -/

/-- If the pool was one, it still is. -/
def KeepsPool (cls cls' : Class) : Prop := cls.pool.Invariant → cls'.pool.Invariant

instance : IsPreorder Class KeepsPool where
  refl _ := id
  trans _ _ _ h h' hpool := h' (h hpool)

theorem keepsPool_onPool {action : Pool.Action α}
    (h : ∀ pool : Pool, pool.Invariant → (action.after pool).Invariant) :
    (onPool action).Keeps KeepsPool := by
  refine Attempt.keeps_of (fun cls a cls' run hpool => ?_) fun cls e cls' run hpool => ?_
  · obtain ⟨pool, inner, rfl⟩ := onPool_eq_ok.mp run
    exact Attempt.after_of_ok inner ▸ h cls.pool hpool
  · obtain ⟨pool, inner, rfl⟩ := onPool_eq_error.mp run
    exact Attempt.after_of_error inner ▸ h cls.pool hpool

/-- Preparing may fail halfway, with a pool that is in order all the same. -/
theorem keepsPool_prepareOnce : prepareOnce.Keeps KeepsPool := by
  intro cls
  by_cases prepared : cls.prepared = true
  · rw [Attempt.after_of_ok (prepareOnce_of_prepared prepared)]
    exact refl_of KeepsPool cls
  · have starts : prepareOnce cls = prepare { cls with prepared := true } := if_neg prepared
    have members : finalizeMembers.Keeps KeepsPool :=
      fun cls => (keeps_finalizeMembers cls).pool.invariant
    have close : (onPool Pool.close).Keeps KeepsPool := by
      refine keepsPool_onPool fun pool hpool => ?_
      have performed := hpool.perform .close
      rwa [Pool.Edit.perform, Attempt.after_bind_pure] at performed
    rw [Attempt.after_congr starts, prepare_eq]
    exact (members.bind fun _ => close) { cls with prepared := true }

/-- **The pool of a class is a pool**, whatever is done to the class. -/
theorem keepsPool_perform (edit : Edit) : edit.perform.Keeps KeepsPool := by
  intro cls
  by_cases writing : ∃ room, edit = .serialize room
  · obtain ⟨room, rfl⟩ := writing
    have prepares : (Edit.serialize room).perform.after cls = prepareOnce.after cls := by
      unfold Attempt.after
      simp only [Edit.perform, serialize]
      cases prepareOnce cls with
      | error cause cls' => rfl
      | ok _ cls' =>
        dsimp only
        cases cls'.write { room } <;> rfl
    rw [prepares]
    exact keepsPool_prepareOnce cls
  · by_cases closing : edit = .pool .close
    · subst closing
      exact keepsPool_onPool (fun pool hpool => hpool.perform .close) cls
    · exact (respects_edit (not_exists.mp writing) fun same => absurd same closing).pool.invariant

/-- Any history keeps the pool in order, refused edits included. -/
theorem invariant_after (h : cls.pool.Invariant) (history : List Edit) :
    (cls.after history).pool.Invariant := by
  induction history generalizing cls with
  | nil => exact h
  | cons edit later ih => exact ih (keepsPool_perform edit cls h)

/-! ## Edits -/

/-- **What a failed edit does**: only the pool changed, by what was wanted, and if a member refused
the edit, nothing did. -/
structure Unharmed (wanted : Set Constant) (cause : Error) (cls cls' : Class) : Prop where
  same : cls' = { cls with pool := cls'.pool }
  pool : cls.pool.Draws wanted cls'.pool
  refused : cause.Refusal → cls' = cls

theorem unharmed_self (cause : Error) (cls : Class) : Unharmed wanted cause cls cls :=
  ⟨rfl, refl_of (Draws wanted) cls.pool, fun _ => rfl⟩

/-- A class is spared by what spares its pool. -/
theorem fails_onPool {action : Pool.Action α}
    (h : action.Fails fun cause pool pool' => pool.Draws wanted pool' ∧ ¬ cause.Refusal) :
    (onPool action).Fails (Unharmed wanted) := by
  intro cls cause cls' run
  obtain ⟨pool, inner, rfl⟩ := onPool_eq_error.mp run
  obtain ⟨draws, accepted⟩ := h inner
  exact ⟨rfl, draws, fun refusal => absurd refusal accepted⟩

theorem fails_onFields {action : MemberAction (Array Field) α}
    (h : action.Fails (MemberAction.Unharmed wanted)) :
    (onFields action).Fails (Unharmed wanted) := by
  intro cls cause cls' run
  obtain ⟨fields, pool, inner, rfl⟩ := onFields_eq_error.mp run
  obtain ⟨⟨rfl, draws⟩, refused⟩ := h inner
  refine ⟨rfl, draws, fun refusal => ?_⟩
  rw [(Prod.mk.inj (refused refusal)).2]

theorem fails_onMethods {action : MemberAction (Array Method) α}
    (h : action.Fails (MemberAction.Unharmed wanted)) :
    (onMethods action).Fails (Unharmed wanted) := by
  intro cls cause cls' run
  obtain ⟨methods, pool, inner, rfl⟩ := onMethods_eq_error.mp run
  obtain ⟨⟨rfl, draws⟩, refused⟩ := h inner
  refine ⟨rfl, draws, fun refusal => ?_⟩
  rw [(Prod.mk.inj (refused refusal)).2]

theorem fails_addInterface (name : BinaryName) :
    (addInterface name).Fails (Unharmed wanted) := by
  intro cls cause cls' run
  unfold addInterface at run
  split_ifs at run
  cases run
  exact unharmed_self _ cls

/-- The constants an edit puts into the pool. -/
def Edit.interned : Edit → Set Constant
  | addField name type _ => {.utf8 name.text, .utf8 type.render}
  | addMethod name descriptor _ => {.utf8 name.text, .utf8 descriptor.render}
  | addAttribute name _ => {.utf8 name}
  | pool (.add constant) => {constant}
  | field _ edit => edit.interned
  | method _ edit => edit.interned
  | _ => ∅

theorem fails_addField (name : UnqualifiedName) (type : FieldType) (flags : AccessFlags .field) :
    (addField name type flags).Fails (Unharmed (Edit.addField name type flags).interned) := by
  refine fails_onFields ?_
  rintro ⟨fields, pool⟩ cause s' run
  dsimp only at run
  split at run
  · cases run
    exact MemberAction.unharmed_self _ _
  · split at run
    · rename_i failed
      cases run
      exact unharmed_of_interning (Field.interning_declare name type flags) failed
    · cases run

theorem fails_addMethod (name : UnqualifiedName) (descriptor : MethodDescriptor)
    (flags : AccessFlags .method) : (addMethod name descriptor flags).Fails
      (Unharmed (Edit.addMethod name descriptor flags).interned) := by
  intro cls cause cls' run
  unfold addMethod at run
  refine fails_onMethods ?_ run
  rintro ⟨methods, pool⟩ cause s' run
  dsimp only at run
  split at run
  · cases run
    exact MemberAction.unharmed_self _ _
  · split at run
    · rename_i failed
      cases run
      exact unharmed_of_interning (Method.interning_declare name descriptor flags _) failed
    · cases run

theorem fails_addAttribute (name : String) (value : AttributeValue) :
    (addAttribute name value).Fails (Unharmed (Edit.addAttribute name value).interned) := by
  intro cls cause cls' run
  unfold addAttribute at run
  dsimp only at run
  split at run
  · cases run
  · rename_i failed
    cases run
    exact fails_onPool (Attributes.interning_add cls.attributes value (Set.mem_singleton _)).spares
      failed

/-- An edit of the pool that fails is an addition, or comes too early or too late. -/
theorem fails_pool (edit : Pool.Edit) :
    (onPool edit.perform).Fails (Unharmed (Edit.pool edit).interned) := by
  refine fails_onPool ?_
  cases edit with
  | add constant =>
    have interning : Interning {constant} (Pool.Edit.add constant).perform :=
      (Pool.interning_add (Set.mem_singleton _)).bind fun _ => Pool.interning_pure _
    exact interning.spares
  | stabilize => exact Attempt.fails_of_ok fun _ => ⟨_, _, rfl⟩
  | optimize =>
    refine Attempt.Fails.bind_pure fun pool cause pool' run => ?_
    unfold Pool.optimize at run
    split_ifs at run
    cases run
    exact ⟨refl_of (Draws _) pool, id⟩
  | close =>
    refine Attempt.Fails.bind_pure fun pool cause pool' run => ?_
    unfold Pool.close at run
    split at run
    · cases run
      exact ⟨refl_of (Draws _) pool, id⟩
    · cases run
      exact ⟨refl_of (Draws _) pool, id⟩
    · cases run

/-- **A failed edit** of any kind but writing. -/
theorem fails_perform {edit : Edit} (building : ∀ room, edit ≠ .serialize room) :
    edit.perform.Fails (Unharmed edit.interned) := by
  cases edit with
  | setVersion version => exact Attempt.fails_of_ok fun _ => ⟨_, _, rfl⟩
  | setSourceFile file => exact Attempt.fails_of_ok fun _ => ⟨_, _, rfl⟩
  | addInterface name => exact (fails_addInterface name).bind_pure
  | addField name type flags => exact (fails_addField name type flags).bind_pure
  | addMethod name descriptor flags => exact (fails_addMethod name descriptor flags).bind_pure
  | addAttribute name value => exact (fails_addAttribute name value).bind_pure
  | pool edit => exact fails_pool edit
  | field index edit =>
    have one := MemberAction.unharmed_onMember index (Field.fails_perform edit)
    exact (fails_onFields one).bind_pure
  | method index edit =>
    have one := MemberAction.unharmed_onMember index (Method.fails_perform edit)
    exact (fails_onMethods one).bind_pure
  | serialize room => exact absurd rfl (building room)

/-- **A failed edit spares the class.**  At any point in the life of a class, an edit other than
writing that fails leaves the class as it was, with all its members, interfaces and attributes, but
for the pool.  The pool keeps its constants, entries and indices, and gains at most constants that
the edit puts there, or their parts; and if a method without code or a finalized member refused the
edit, the pool is the same too. -/
theorem failed_edit_spares_class {name superName : BinaryName} {flags : AccessFlags .type}
    {start cls' : Class} (declared : declare name superName flags = .ok start)
    (history : List Edit) {edit : Edit} (building : ∀ room, edit ≠ .serialize room)
    {cause : Error} (failed : edit.perform (start.after history) = .error cause cls') :
    cls' = { start.after history with pool := cls'.pool } ∧
      Pool.Gained (Among edit.interned) (start.after history).pool cls'.pool ∧
      (cause.Refusal → cls' = start.after history) := by
  have hpool := invariant_after (reflects_declare declared).pool history
  obtain ⟨same, draws, refused⟩ := fails_perform building failed
  exact ⟨same, (draws hpool).gained hpool, refused⟩

end Class

/-! ## A position that does not exist -/

namespace Sample

/-- A class with one method. -/
def declaring (flags : AccessFlags .method) : Class :=
  start.after [.addMethod methodName ⟨[], none⟩ flags]

/-- Replaces the sixth instruction of the method, which has none. -/
def misplaced : Class.Edit := .method 0 (.push (.float 0x40490fdb) (some 5))

/-- The number is in the pool by the time the position turns out not to exist, and stays there.  An
abstract method refuses the edit before. -/
theorem misplaced_number_stays :
    Class.declare start.name start.superName ⟨0x21⟩ = .ok start ∧
      (∀ room, misplaced ≠ .serialize room) ∧
      (∃ cls', misplaced.perform (declaring ⟨0x9⟩) = .error (.invalidPosition 5) cls' ∧
        cls' = { declaring ⟨0x9⟩ with pool := cls'.pool } ∧
        (declaring ⟨0x9⟩).pool.length = 2 ∧ cls'.pool.constant? ⟨2⟩ = some (.float 0x40490fdb) ∧
        Pool.Gained (Pool.Among misplaced.interned) (declaring ⟨0x9⟩).pool cls'.pool) ∧
      misplaced.perform (declaring ⟨0x401⟩) = .error .methodHasNoCode (declaring ⟨0x401⟩) := by
  have declared : Class.declare start.name start.superName ⟨0x21⟩ = .ok start := rfl
  have building (room : Option Nat) : misplaced ≠ .serialize room := nofun
  have failed : misplaced.perform (declaring ⟨0x9⟩) =
      .error (.invalidPosition 5) (misplaced.perform.after (declaring ⟨0x9⟩)) := by cbv
  have refused : misplaced.perform (declaring ⟨0x401⟩) =
      .error .methodHasNoCode (misplaced.perform.after (declaring ⟨0x401⟩)) := by cbv
  have before : (declaring ⟨0x9⟩).pool.length = 2 := by cbv
  have present : (misplaced.perform.after (declaring ⟨0x9⟩)).pool.constant? ⟨2⟩ =
      some (.float 0x40490fdb) := by cbv
  obtain ⟨same, gained, -⟩ := Class.failed_edit_spares_class declared _ building failed
  obtain ⟨-, -, untouched⟩ := Class.failed_edit_spares_class declared _ building refused
  refine ⟨declared, building, ⟨_, failed, same, before, present, gained⟩, ?_⟩
  rw [refused, untouched trivial]
  rfl

end Sample

end JvmAsm
