import JvmAsm.Proofs.AttributeContainer
import JvmAsm.Proofs.MemberFailures

/-! # Fields reflect the edits they accepted

A member holds entries, not constants: which value a field starts with, which
exceptions a method declares and which class a handler catches is known to it only
by numbers that mean something in one pool.  What those numbers **should** mean is a
matter of the edits the member accepted.  So the invariant of a member relates it to
that list of edits: `Field.Reflects` here, `Method.Reflects` in the next module.

There is one step lemma for each kind of member, in two halves.  A refused edit
leaves the member as it was, although the pool may have grown.  An accepted edit
leaves a member that reflects one edit more. -/

namespace JvmAsm

open Pool (Grown Interns)

namespace Field

variable {α : Type} {field field' : Field} {pool pool' : Pool}

/-- The initial value an edit sets. -/
def Edit.constant? : Edit → Option Constant
  | .setConstant constant => some constant
  | .addAttribute _ _ => none

/-- **The field is what the edits it accepted asked for.** -/
structure Reflects (pool : Pool) (asked : List Edit) (field : Field) : Prop where
  name : pool.constant? field.nameEntry = some (.utf8 field.name.text)
  type : pool.constant? field.typeEntry = some (.utf8 field.type.render)
  attributes : field.attributes.Sound pool
  /-- The initial value is the one set last. -/
  value : field.constantValue.map pool.constant? =
    (asked.filterMap Edit.constant?).getLast?.map some
  unfinished : field.finalized = false

theorem Reflects.mono {asked : List Edit} (h : field.Reflects pool asked)
    (more : pool.Extends pool') : field.Reflects pool' asked where
  name := more.constant? h.name
  type := more.constant? h.type
  attributes := h.attributes.mono more
  value := by
    have value := h.value
    cases hlast : (asked.filterMap Edit.constant?).getLast? with
    | none =>
      rw [hlast, Option.map_none, Option.map_eq_none_iff] at value
      rw [value]
      rfl
    | some constant =>
      rw [hlast, Option.map_some] at value
      obtain ⟨entry, hentry, hconstant⟩ := Option.map_eq_some_iff.mp value
      rw [hentry, Option.map_some, Option.map_some, more.constant? hconstant]
  unfinished := h.unfinished

theorem interns_declare {name : UnqualifiedName} {type : FieldType} {flags : AccessFlags .field}
    (hpool : pool.Invariant) :
    Interns (declare name type flags) pool fun field pool' => field.Reflects pool' [] := by
  unfold declare
  cases flags.check with
  | error cause => exact Pool.interns_fail _
  | ok flags =>
    refine Pool.interns_twoTexts hpool fun nameEntry typeEntry pool' _ hname htype => ?_
    exact Pool.interns_pure ⟨hname, htype, Attributes.sound_empty pool', rfl, rfl⟩

theorem whileOpen_of_open {action : Action α} (h : field.finalized = false) :
    whileOpen action (field, pool) = action (field, pool) := by
  unfold whileOpen
  simp [h]

/-- An accepted edit. -/
theorem Reflects.perform_ok {asked : List Edit} {edit : Edit} {reply : Reply}
    (hpool : pool.Invariant) (h : field.Reflects pool asked)
    (run : edit.perform (field, pool) = .ok reply (field', pool')) :
    Grown pool pool' ∧ field'.Reflects pool' (asked ++ [edit]) ∧ reply ≠ .absent := by
  cases edit with
  | setConstant constant =>
    rw [Edit.perform, whileOpen_of_open h.unfinished] at run
    obtain ⟨entry, ⟨middle, pool₁⟩, first, last⟩ := Attempt.bind_eq_ok.mp run
    obtain ⟨rfl, hadd⟩ := MemberAction.onPool_eq_ok.mp first
    cases last
    obtain ⟨grown, present⟩ := (Pool.interns_add constant hpool).ok entry pool' hadd
    have kept := h.mono grown.extends
    refine ⟨grown, ⟨kept.name, kept.type, kept.attributes, ?_, kept.unfinished⟩, nofun⟩
    simp [Edit.constant?, present]
  | addAttribute name value =>
    rw [Edit.perform, whileOpen_of_open h.unfinished] at run
    obtain ⟨_, hput, rfl⟩ := Attempt.bind_pure_eq_ok.mp run
    unfold putAttribute at hput
    dsimp only at hput
    split at hput
    · rename_i attributes pool₁ hadd
      cases hput
      obtain ⟨grown, entry, -, sound⟩ :=
        (Attributes.interns_add hpool h.attributes).ok attributes _ hadd
      have kept := h.mono grown.extends
      refine ⟨grown, ⟨kept.name, kept.type, sound, ?_, kept.unfinished⟩, nofun⟩
      simpa [Edit.constant?] using kept.value
    · cases hput

/-- A refused edit leaves the field as it was. -/
theorem perform_error {edit : Edit} {cause : Error} (hpool : pool.Invariant)
    (run : edit.perform (field, pool) = .error cause (field', pool')) :
    Grown pool pool' ∧ field' = field := by
  obtain ⟨⟨same, draws⟩, -⟩ := fails_perform edit run
  exact ⟨(draws hpool).mono fun _ _ => trivial, same⟩

end Field

end JvmAsm
