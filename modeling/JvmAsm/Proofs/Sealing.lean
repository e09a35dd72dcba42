import JvmAsm.Proofs.ClassHistory
import JvmAsm.Proofs.MethodSteps
import JvmAsm.Proofs.Outputs

/-! # What a sealed pool stops

A sealed pool takes no constants, and almost every change of a member needs one: the
name of an attribute, an initial value, a declared exception.  What is left are changes
of code, and nothing is written from code once its attribute was made.  So the members
of a sealed pool are written alike, whatever is done to them.

There is one statement for all the ways a member can be changed or finalized: an
unsealed pool stays unsealed, a sealed pool stays as it is, and while it does, so does
what is written of the member (`MemberRespects`).  It is a preorder, and attempts that
keep a preorder compose (`Attempt.Keeps`). -/

namespace JvmAsm

open Attempt (Keeps)

/-! ## Pools -/

namespace Pool

/-- Two pools are in the same state. -/
def SameState (pool pool' : Pool) : Prop := pool'.state = pool.state

instance : IsPreorder Pool SameState where
  refl _ := rfl
  trans _ _ _ h h' := h'.trans h

theorem sameState_push (constant : Constant) (children : List Entry) :
    (push constant children).Keeps SameState := by
  intro pool
  rw [Attempt.after, push_eq]
  split
  · rename_i run
    split at run
    · cases run
    · cases run
      rfl
  · rename_i run
    split at run
    · cases run
      rfl
    · cases run

/-- A constant that is known gains a use, and another is pushed behind its parts. -/
theorem sameState_intern {parts : List Constant → Action (List Entry)} {constant : Constant}
    (hparts : (parts constant.constituents).Keeps SameState) :
    (intern parts constant).Keeps SameState := by
  intro pool
  rcases intern_cases parts constant pool with ⟨-, run⟩ | ⟨-, ⟨entry, -, run⟩ |
    ⟨-, ⟨length, -, run⟩ | ⟨-, run⟩⟩⟩
  · rw [Attempt.after_of_error run]
    exact refl_of SameState pool
  · rw [Attempt.after_of_ok run]
    exact state_bump pool entry
  · rw [Attempt.after_of_error run]
    exact refl_of SameState pool
  · rw [Attempt.after_congr run]
    exact hparts.bind (sameState_push constant) pool

/-- By induction on the height of the constant. -/
theorem sameState_addWithin (depth : Nat) (constant : Constant) :
    (addWithin depth constant).Keeps SameState := by
  induction depth generalizing constant with
  | zero => exact sameState_intern (Attempt.keeps_pure [])
  | succ depth ih => exact sameState_intern (Attempt.keeps_mapM constant.constituents ih)

/-- **An unsealed pool stays unsealed, and a sealed pool stays as it is**; and it stays a pool. -/
structure Respects (pool pool' : Pool) : Prop where
  unsealed : pool.state ≠ .sealed → pool'.state ≠ .sealed
  closed : pool.state = .sealed → pool' = pool
  invariant : pool.Invariant → pool'.Invariant

instance : IsPreorder Pool Respects where
  refl _ := ⟨id, fun _ => rfl, id⟩
  trans pool pool' pool'' h h' := by
    refine ⟨fun unsealed => h'.unsealed (h.unsealed unsealed), fun closed => ?_,
      fun hpool => h'.invariant (h.invariant hpool)⟩
    obtain rfl := h.closed closed
    exact h'.closed closed

/-- **Additions respect seals.**  A sealed pool refuses the constant before it looks for it. -/
theorem keeps_add (constant : Constant) : (add constant).Keeps Respects := by
  intro pool
  refine ⟨fun unsealed => ?_, fun closed => ?_, fun hpool => hpool.add constant⟩
  · have same : SameState pool ((add constant).after pool) :=
      sameState_addWithin constant.height constant pool
    rw [same]
    exact unsealed
  · exact Attempt.after_of_error (add_of_sealed closed constant)

/-- So a pool that took a constant was not sealed. -/
theorem unsealed_of_add {constant : Constant} {pool pool' : Pool} {entry : Entry}
    (run : add constant pool = .ok entry pool') : pool.state ≠ .sealed := by
  intro closed
  cases (add_of_sealed closed constant).symm.trans run

theorem unsealed_of_add_bind {α : Type} {constant : Constant} {next : Entry → Action α}
    {pool pool' : Pool} {answer : α} (run : (add constant >>= next) pool = .ok answer pool') :
    pool.state ≠ .sealed := by
  obtain ⟨entry, middle, added, -⟩ := Attempt.bind_eq_ok.mp run
  exact unsealed_of_add added

/-- Giving out indices does not seal the pool. -/
theorem respects_layOut {pool : Pool} (growing : pool.state = .growing) {order : List Entry}
    (all : order.Perm pool.entries) : Respects pool (pool.layOut order) := by
  refine ⟨fun _ => nofun, fun closed => ?_, fun hpool => hpool.layOut growing all⟩
  cases growing.symm.trans closed

theorem respects_stabilize (pool : Pool) : Respects pool pool.stabilize := by
  unfold stabilize
  split
  · rename_i growing
    exact respects_layOut growing (.refl _)
  · exact refl_of Respects pool

/-- Ordering by use is refused once indices are fixed, and lays out a growing pool. -/
theorem keeps_optimize : optimize.Keeps Respects := by
  intro pool
  by_cases growing : pool.state = .growing
  · have run : optimize pool = .ok () (pool.layOut pool.entriesByUse) := if_pos growing
    rw [Attempt.after_of_ok run]
    exact respects_layOut growing (List.mergeSort_perm _ _)
  · have run : optimize pool = .error .poolAlreadyStable pool := if_neg growing
    rw [Attempt.after_of_error run]
    exact refl_of Respects pool

end Pool

/-- The container is only an answer here: what changes is the pool, by the name. -/
theorem Attributes.keeps_add (attributes : Attributes) (name : String) (value : AttributeValue) :
    (attributes.add name value).Keeps Pool.Respects := by
  refine (Pool.keeps_add _).bind fun entry => ?_
  split
  · exact Attempt.keeps_pure _
  · split
    · exact Attempt.keeps_fail _
    · exact Attempt.keeps_pure _

/-! ## Members -/

/-- **A member changes with its pool.**  While the pool is sealed, what there is to `view` of the
member stays as it is. -/
structure MemberRespects {μ φ : Type} (view : μ → φ) (s s' : μ × Pool) : Prop where
  pool : s.2.Respects s'.2
  written : s.2.state = .sealed → view s'.1 = view s.1

instance {μ φ : Type} (view : μ → φ) : IsPreorder (μ × Pool) (MemberRespects view) where
  refl s := ⟨refl_of Pool.Respects s.2, fun _ => rfl⟩
  trans s s' s'' h h' := by
    refine ⟨trans_of Pool.Respects h.pool h'.pool, fun closed => ?_⟩
    have still : s'.2.state = .sealed := by rw [h.pool.closed closed, closed]
    exact (h'.written still).trans (h.written closed)

namespace MemberAction

variable {μ φ α : Type} {view : μ → φ} {member member' : μ} {pool pool' : Pool}

/-- The pool stayed, and of the member what there is to view. -/
theorem respects_same_pool (same : view member' = view member) :
    MemberRespects view (member, pool) (member', pool) :=
  ⟨refl_of Pool.Respects pool, fun _ => same⟩

theorem respects_same_member (h : pool.Respects pool') :
    MemberRespects view (member, pool) (member, pool') :=
  ⟨h, fun _ => rfl⟩

/-- What only an unsealed pool allows. -/
theorem respects_unsealed (unsealed : pool.state ≠ .sealed) (h : pool.Respects pool') :
    MemberRespects view (member, pool) (member', pool') :=
  ⟨h, fun closed => absurd closed unsealed⟩

/-- An action on the pool leaves the member alone. -/
theorem keeps_onPool {action : Pool.Action α} (h : action.Keeps Pool.Respects) :
    (onPool action : MemberAction μ α).Keeps (MemberRespects view) := by
  refine Attempt.keeps_of ?_ ?_
  · rintro ⟨member, pool⟩ a ⟨member', pool'⟩ run
    obtain ⟨rfl, added⟩ := onPool_eq_ok.mp run
    exact respects_same_member (h.ok added)
  · rintro ⟨member, pool⟩ e ⟨member', pool'⟩ run
    obtain ⟨rfl, added⟩ := onPool_eq_error.mp run
    exact respects_same_member (h.error added)

end MemberAction

open MemberAction (keeps_onPool respects_same_pool respects_same_member respects_unsealed)

namespace Field

variable {α : Type}

theorem keeps_declare (name : UnqualifiedName) (type : FieldType) (flags : AccessFlags .field) :
    (declare name type flags).Keeps Pool.Respects := by
  unfold declare
  cases flags.check with
  | error cause => exact Attempt.keeps_fail _
  | ok flags =>
    exact (Pool.keeps_add _).bind fun _ => (Pool.keeps_add _).bind fun _ => Attempt.keeps_pure _

/-- The name of a field is a constant, so a sealed pool takes no fields. -/
theorem unsealed_of_declare {name : UnqualifiedName} {type : FieldType} {flags : AccessFlags .field}
    {pool pool' : Pool} {field : Field} (run : declare name type flags pool = .ok field pool') :
    pool.state ≠ .sealed := by
  unfold declare at run
  cases hflags : flags.check with
  | error cause =>
    rw [hflags] at run
    cases run
  | ok flags =>
    rw [hflags] at run
    exact Pool.unsealed_of_add_bind run

theorem keeps_whileOpen {action : Action α} (h : action.Keeps (MemberRespects output)) :
    (whileOpen action).Keeps (MemberRespects output) := by
  refine h.guarded ?_
  rintro ⟨field, pool⟩
  by_cases closed : field.finalized = true
  · exact .inl ⟨.memberFinalized, if_pos closed⟩
  · exact .inr (if_neg closed)

/-- The name is added to the pool first, and a sealed pool stops it there. -/
theorem keeps_putAttribute (name : String) (value : AttributeValue) :
    (putAttribute name value).Keeps (MemberRespects output) := by
  rintro ⟨field, pool⟩
  have kept := Attributes.keeps_add field.attributes name value
  unfold Attempt.after putAttribute
  cases run : field.attributes.add name value pool with
  | ok attributes pool' =>
    simp only [run]
    exact respects_unsealed (Pool.unsealed_of_add_bind run) (kept.ok run)
  | error e pool' =>
    simp only [run]
    exact respects_same_member (kept.error run)

/-- Both edits of a field. -/
theorem keeps_perform (edit : Edit) : edit.perform.Keeps (MemberRespects output) := by
  cases edit with
  | setConstant constant =>
    refine keeps_whileOpen ((keeps_onPool (Pool.keeps_add constant)).bind fun entry => ?_)
    -- The value is written from an attribute, which is made when the field is finalized.
    rintro ⟨field, pool⟩
    exact respects_same_pool rfl
  | addAttribute name value =>
    exact keeps_whileOpen ((keeps_putAttribute name value).bind fun _ => Attempt.keeps_pure _)

/-- Finalizing a field with a constant adds the name of its attribute. -/
theorem keeps_finalize : finalize.Keeps (MemberRespects output) := by
  rintro ⟨field, pool⟩
  by_cases closed : field.finalized = true
  · have run : finalize (field, pool) = .ok () (field, pool) := if_pos closed
    rw [Attempt.after_of_ok run]
    exact respects_same_pool rfl
  · -- The field is marked before its attribute is made, and the mark is not written.
    have opened : MemberRespects output (field, pool) ({ field with finalized := true }, pool) :=
      respects_same_pool rfl
    cases hvalue : field.constantValue with
    | none =>
      have run : finalize (field, pool) = .ok () ({ field with finalized := true }, pool) := by
        simp only [finalize, if_neg closed, hvalue]
      rw [Attempt.after_of_ok run]
      exact opened
    | some entry =>
      have run : finalize (field, pool) = putAttribute constantValueName (.constant entry)
          ({ field with finalized := true }, pool) := by
        simp only [finalize, if_neg closed, hvalue]
      rw [Attempt.after_congr run]
      exact trans_of (MemberRespects output) opened (keeps_putAttribute _ _ _)

end Field

namespace Method

theorem keeps_declare (name : UnqualifiedName) (descriptor : MethodDescriptor)
    (flags : AccessFlags .method) (inInterface : Bool) :
    (declare name descriptor flags inInterface).Keeps Pool.Respects := by
  unfold declare
  cases flags.check with
  | error cause => exact Attempt.keeps_fail _
  | ok flags =>
    dsimp only
    split
    · exact Attempt.keeps_fail _
    · exact (Pool.keeps_add _).bind fun _ => (Pool.keeps_add _).bind fun _ => Attempt.keeps_pure _

theorem unsealed_of_declare {name : UnqualifiedName} {descriptor : MethodDescriptor}
    {flags : AccessFlags .method} {inInterface : Bool} {pool pool' : Pool} {method : Method}
    (run : declare name descriptor flags inInterface pool = .ok method pool') :
    pool.state ≠ .sealed := by
  unfold declare at run
  cases hflags : flags.check with
  | error cause =>
    rw [hflags] at run
    cases run
  | ok flags =>
    rw [hflags] at run
    dsimp only at run
    split at run
    · cases run
    · exact Pool.unsealed_of_add_bind run

theorem keeps_putAttribute (name : String) (value : AttributeValue) :
    (putAttribute name value).Keeps (MemberRespects output) := by
  rintro ⟨method, pool⟩
  have kept := Attributes.keeps_add method.attributes name value
  unfold Attempt.after putAttribute
  cases run : method.attributes.add name value pool with
  | ok attributes pool' =>
    simp only [run]
    exact respects_unsealed (Pool.unsealed_of_add_bind run) (kept.ok run)
  | error e pool' =>
    simp only [run]
    exact respects_same_member (kept.error run)

/-- Code and declared exceptions are not written, only the attributes that are made of them. -/
theorem steady : Steady (MemberRespects output) where
  add constant := keeps_onPool (Pool.keeps_add constant)
  put := keeps_putAttribute
  rest _ _ _ _ _ := respects_same_pool rfl

theorem keeps_perform (edit : Edit) : edit.perform.Keeps (MemberRespects output) :=
  steady.perform edit

theorem keeps_finalize : finalize.Keeps (MemberRespects output) := steady.finalize

end Method

/-! ## Arrays of members -/

namespace MemberAction

variable {μ φ α : Type} {view : μ → φ}

/-- What there is to view of all members. -/
def views (view : μ → φ) (members : Array μ) : List φ := members.toList.map view

/-- A member that looks as before makes no difference to the views. -/
theorem views_setIfInBounds {members : Array μ} {index : Nat} {member member' : μ}
    (present : members[index]? = some member) (same : view member' = view member) :
    views view (members.setIfInBounds index member') = views view members := by
  obtain ⟨inside, rfl⟩ := Array.getElem?_eq_some_iff.mp present
  unfold views
  rw [Array.toList_setIfInBounds, List.map_set, same]
  refine List.ext_getElem? fun other => ?_
  rw [List.getElem?_set]
  split
  · rename_i here
    subst here
    simp [inside]
  · rfl

/-- What one member respects, all of them do; there may be none at the index. -/
theorem keeps_onMember [Inhabited μ] {action : MemberAction μ α} (index : Nat)
    (h : action.Keeps (MemberRespects view)) :
    (onMember index action).Keeps (MemberRespects (views view)) := by
  refine Attempt.keeps_of ?_ ?_
  · rintro ⟨members, pool⟩ answer ⟨members', pool'⟩ run
    rcases onMember_eq_ok run with ⟨-, rfl, rfl⟩ | ⟨a, member, member', -, present, inner, rfl⟩
    · exact respects_same_pool rfl
    · have kept := h.ok inner
      exact ⟨kept.pool, fun closed => views_setIfInBounds present (kept.written closed)⟩
  · rintro ⟨members, pool⟩ e ⟨members', pool'⟩ run
    obtain ⟨member, member', present, inner, rfl⟩ := onMember_eq_error run
    have kept := h.error inner
    exact ⟨kept.pool, fun closed => views_setIfInBounds present (kept.written closed)⟩

/-- `finalizeFrom` as an attempt on the members that are done. -/
theorem respects_finalizeFrom {finalize : MemberAction μ Unit}
    (h : finalize.Keeps (MemberRespects view)) (members : List μ) (done : Array μ) (pool : Pool) :
    MemberRespects (views view) (done ++ members.toArray, pool)
      (Attempt.after (fun (done, pool) => finalizeFrom finalize done members pool)
        (done, pool)) := by
  -- The members to come stand behind those that are done, so a failure in the middle loses none.
  induction members generalizing done pool with
  | nil =>
    refine respects_same_pool ?_
    rw [Array.append_empty]
  | cons member members ih =>
    have moved {member' : μ} {pool' : Pool}
        (kept : MemberRespects view (member, pool) (member', pool')) :
        MemberRespects (views view) (done ++ (member :: members).toArray, pool)
          (done.push member' ++ members.toArray, pool') := by
      refine ⟨kept.pool, fun closed => ?_⟩
      have same : view member' = view member := kept.written closed
      simp [views, same]
    unfold Attempt.after finalizeFrom
    dsimp only
    cases first : finalize (member, pool) with
    | ok _ s =>
      obtain ⟨member', pool'⟩ := s
      exact trans_of (MemberRespects (views view)) (moved (h.ok first))
        (ih (done.push member') pool')
    | error e s =>
      obtain ⟨member', pool'⟩ := s
      exact moved (h.error first)

/-- Finalizing all members begins with none done. -/
theorem keeps_finalizeAll {finalize : MemberAction μ Unit}
    (h : finalize.Keeps (MemberRespects view)) :
    (finalizeAll finalize).Keeps (MemberRespects (views view)) := by
  rintro ⟨members, pool⟩
  have kept := respects_finalizeFrom h members.toList #[] pool
  rwa [Array.empty_append, Array.toArray_toList] at kept

end MemberAction

end JvmAsm
