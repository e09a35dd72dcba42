import JvmAsm.Code.Edit
import JvmAsm.Proofs.Attempts
import Mathlib.Data.List.Induction

/-! # Labels over a whole run

The table of labels serves two purposes.  It holds the position of every label that was
placed, and its size says which label to hand out next.  A label that was never handed
out can be placed all the same, and then the table makes room for it: so what is handed
out next depends on what was placed.

What one edit does to the table is said twice, once for each purpose: where labels stand
(`Does.placed?`), and how far the table reaches (`Does.size_labels`).  A run is
compared with its own history (`Recalls`): as many instructions as were appended, the
labels placed that were asked for, and room for every label placed or handed out. -/

namespace JvmAsm.Code

variable {code : Code} {label : Label} {edit : Edit} {history : List Edit}

/-! ## Histories -/

/-- The edit adds an instruction at the end. -/
def Edit.appends : Edit → Bool
  | .append _ => true
  | _ => false

/-- How many instructions a history appends. -/
def appended (history : List Edit) : Nat := history.countP Edit.appends

/-- The label that an edit hands out. -/
def Edit.hands? (code : Code) (edit : Edit) : Option Label :=
  match edit.perform code with
  | .ok (.label label) _ => some label
  | _ => none

/-- The labels that a run hands out, in order. -/
def handedOut (code : Code) : List Edit → List Label
  | [] => []
  | edit :: later => (edit.hands? code).toList ++ handedOut (edit.perform.after code) later

theorem after_concat (code : Code) (history : List Edit) (edit : Edit) :
    code.after (history ++ [edit]) = edit.perform.after (code.after history) :=
  List.foldl_append

theorem handedOut_concat (code : Code) (history : List Edit) (edit : Edit) :
    handedOut code (history ++ [edit]) =
      handedOut code history ++ (edit.hands? (code.after history)).toList := by
  induction history generalizing code with
  | nil => exact List.append_nil _
  | cons first later ih =>
    have rest := ih (first.perform.after code)
    rw [List.cons_append, handedOut, handedOut, rest, List.append_assoc]
    rfl

/-! ## The table -/

theorem size_makeRoom (label : Label) (labels : Array (Option Nat)) :
    labels.size ≤ (makeRoom label labels).size ∧ label.id < (makeRoom label labels).size := by
  rw [makeRoom, Array.size_append, Array.size_replicate]
  omega

/-- Room for a label holds no position yet. -/
theorem join_makeRoom (label : Label) (labels : Array (Option Nat)) (id : Nat) :
    ((makeRoom label labels)[id]?).join = (labels[id]?).join := by
  rw [makeRoom, Array.getElem?_append]
  by_cases inside : id < labels.size
  · rw [if_pos inside]
  · rw [if_neg inside, Array.getElem?_eq_none (Nat.le_of_not_lt inside), Array.getElem?_replicate]
    split <;> rfl

theorem lt_size_of_placed {position : Nat} (h : code.placed? label = some position) :
    label.id < code.labels.size := by
  have found := Option.join_eq_some_iff.mp h
  exact (Array.getElem?_eq_some_iff.mp found).1

/-! ## One edit -/

/-- A label is placed once; the second time changes nothing. -/
theorem perform_of_placed {position : Nat} (h : code.placed? label = some position) :
    (Edit.placeLabel label).perform code = .error (.duplicateLabel label) code := by
  refine Attempt.bind_pure_eq_error.mpr ?_
  simp only [placeLabel, h]

/-- The code with a label in front of the next instruction. -/
def placedHere (label : Label) (code : Code) : Code :=
  { code with
    labels := (makeRoom label code.labels).setIfInBounds label.id (some code.length) }

theorem perform_of_unplaced (h : code.placed? label = none) :
    (Edit.placeLabel label).perform code = .ok .done (code.placedHere label) := by
  refine Attempt.bind_pure_eq_ok.mpr ⟨(), ?_, rfl⟩
  simp only [placeLabel, h]
  rfl

/-- **What an edit does**, as far as labels and the number of instructions go. -/
inductive Does (code : Code) : Edit → Code → Prop
  | append (instruction : SourceInstruction) : Does code (.append instruction)
      { code with instructions := code.instructions.push instruction }
  | fresh : Does code .freshLabel { code with labels := code.labels.push none }
  | place {label : Label} (unplaced : code.placed? label = none) :
    Does code (.placeLabel label) (code.placedHere label)
  /-- The label was placed before. -/
  | again {label : Label} {position : Nat} (placed : code.placed? label = some position) :
    Does code (.placeLabel label) code
  /-- Any other edit, whether it succeeds or not. -/
  | other {edit : Edit} {code' : Code} (elsewhere : ∀ label, edit ≠ .placeLabel label)
    (quiet : edit.appends = false) (silent : edit.hands? code = none)
    (labels : code'.labels = code.labels) (length : code'.length = code.length) :
    Does code edit code'

/-- **What one edit can do**, of whatever kind. -/
theorem does_perform (code : Code) (edit : Edit) : Does code edit (edit.perform.after code) := by
  cases edit with
  | append instruction => exact .append instruction
  | freshLabel => exact .fresh
  | placeLabel label =>
    cases hplaced : code.placed? label with
    | none =>
      rw [Attempt.after_of_ok (perform_of_unplaced hplaced)]
      exact .place hplaced
    | some position =>
      rw [Attempt.after_of_error (perform_of_placed hplaced)]
      exact .again hplaced
  | set position instruction =>
    by_cases inside : position < code.instructions.size
    · have run : (Edit.set position instruction).perform code = .ok .done
          { code with instructions := code.instructions.setIfInBounds position instruction } := by
        refine Attempt.bind_pure_eq_ok.mpr ⟨(), ?_, rfl⟩
        simp only [set, if_pos inside]
      refine .other (by simp) rfl (by simp only [Edit.hands?, run]) ?_ ?_
      · rw [Attempt.after_of_ok run]
      · rw [Attempt.after_of_ok run]
        exact Array.size_setIfInBounds
    · have run : (Edit.set position instruction).perform code =
          .error (.invalidPosition position) code := by
        refine Attempt.bind_pure_eq_error.mpr ?_
        simp only [set, if_neg inside]
      rw [Attempt.after_of_error run]
      exact .other (by simp) rfl (by simp only [Edit.hands?, run]) rfl rfl
  | addHandler handler => exact .other (by simp) rfl rfl rfl rfl
  | setMaxStack depth => exact .other (by simp) rfl rfl rfl rfl
  | setMaxLocals count => exact .other (by simp) rfl rfl rfl rfl

theorem placed?_placedHere (code : Code) (label other : Label) :
    (code.placedHere label).placed? other =
      if other = label then some code.length else code.placed? other := by
  unfold placed? placedHere
  by_cases same : other = label
  · subst same
    rw [if_pos rfl, Array.getElem?_setIfInBounds_self_of_lt (size_makeRoom other code.labels).2]
    rfl
  · have apart : label.id ≠ other.id := by
      obtain ⟨id⟩ := label
      obtain ⟨id'⟩ := other
      intro ids
      exact same (congrArg Label.mk ids.symm)
    rw [if_neg same, Array.getElem?_setIfInBounds_ne apart, join_makeRoom]

/-- **Where labels stand after an edit.** -/
theorem Does.placed? {code' : Code} (h : Does code edit code') (label : Label) :
    code'.placed? label =
      if edit = .placeLabel label ∧ code.placed? label = none then some code.length
      else code.placed? label := by
  cases h with
  | append instruction => rw [if_neg (by simp)]; rfl
  | fresh =>
    rw [if_neg (by simp)]
    unfold Code.placed?
    rw [Array.getElem?_push]
    split
    · rename_i last
      rw [last, Array.getElem?_eq_none (Nat.le_refl _)]
      rfl
    · rfl
  | @place other unplaced =>
    rw [placed?_placedHere]
    by_cases same : label = other
    · subst same
      rw [if_pos rfl, if_pos ⟨rfl, unplaced⟩]
    · rw [if_neg same, if_neg]
      rintro ⟨hedit, -⟩
      exact same (Edit.placeLabel.inj hedit).symm
  | @again other position placed =>
    rw [if_neg]
    rintro ⟨hedit, unplaced⟩
    obtain rfl := Edit.placeLabel.inj hedit
    cases placed.symm.trans unplaced
  | other elsewhere quiet silent labels length =>
    rw [if_neg fun both => elsewhere label both.1, Code.placed?, labels]
    rfl

theorem Does.length {code' : Code} (h : Does code edit code') :
    code'.length = code.length + if edit.appends then 1 else 0 := by
  cases h with
  | append instruction => exact Array.size_push _
  | fresh | place _ | again _ => rfl
  | other elsewhere quiet silent labels length => rw [length, quiet]; rfl

/-- The table never gets shorter. -/
theorem Does.size_labels {code' : Code} (h : Does code edit code') :
    code.labels.size ≤ code'.labels.size := by
  cases h with
  | append _ | again _ => exact Nat.le_refl _
  | fresh =>
    rw [Array.size_push]
    omega
  | place unplaced =>
    unfold placedHere
    rw [Array.size_setIfInBounds]
    exact (size_makeRoom _ code.labels).1
  | other elsewhere quiet silent labels length =>
    exact Nat.le_of_eq (congrArg Array.size labels.symm)

/-- The table reaches beyond a label that is handed out. -/
theorem Does.hands? {code' : Code} (h : Does code edit code')
    (handed : edit.hands? code = some label) :
    label.id < code'.labels.size := by
  cases h with
  | append instruction => cases handed
  | fresh =>
    cases handed
    rw [Array.size_push]
    exact Nat.lt_succ_self _
  | place unplaced => rw [Edit.hands?, perform_of_unplaced unplaced] at handed; cases handed
  | again placed => rw [Edit.hands?, perform_of_placed placed] at handed; cases handed
  | other elsewhere quiet silent labels length => cases silent.symm.trans handed

/-! ## Runs -/

/-- A label that was placed stays where it is. -/
theorem placed?_after {position : Nat} (h : code.placed? label = some position)
    (later : List Edit) : (code.after later).placed? label = some position := by
  induction later generalizing code with
  | nil => exact h
  | cons edit later ih =>
    refine ih ?_
    rw [(does_perform code edit).placed?, if_neg, h]
    rintro ⟨-, unplaced⟩
    cases h.symm.trans unplaced

/-- **What code keeps of its history**, and of the labels handed out on the way. -/
structure Recalls (history : List Edit) (out : List Label) (code : Code) : Prop where
  length : code.length = appended history
  unplaced : ∀ label, code.placed? label = none ↔ .placeLabel label ∉ history
  /-- The table reaches beyond every label handed out. -/
  room : ∀ label ∈ out, label.id < code.labels.size

theorem recalls_empty (maxLocals : UInt16) : Recalls [] [] (empty maxLocals) where
  length := rfl
  unplaced label := by simp [placed?, empty]
  room label h := nomatch h

/-- One edit more: what it hands out is new, what it places is recalled. -/
theorem Recalls.perform {out : List Label} (h : Recalls history out code) (edit : Edit) :
    Recalls (history ++ [edit]) (out ++ (edit.hands? code).toList) (edit.perform.after code) := by
  have does := does_perform code edit
  constructor
  · rw [does.length, h.length, appended, appended, List.countP_append, List.countP_singleton]
  · intro label
    rw [does.placed?, List.mem_append, List.mem_singleton, not_or, ← h.unplaced]
    by_cases here : edit = .placeLabel label
    · by_cases unplaced : code.placed? label = none
      · simp [here, unplaced]
      · simp [here, unplaced]
    · simp [here, eq_comm]
  · intro label hlabel
    rcases List.mem_append.mp hlabel with old | new
    · exact Nat.lt_of_lt_of_le (h.room label old) does.size_labels
    · exact does.hands? (Option.mem_toList.mp new)

theorem recalls_after (maxLocals : UInt16) (history : List Edit) :
    Recalls history (handedOut (empty maxLocals) history) ((empty maxLocals).after history) := by
  induction history using List.reverseRec with
  | nil => exact recalls_empty maxLocals
  | append_singleton history edit ih =>
    rw [after_concat, handedOut_concat]
    exact ih.perform edit

theorem Recalls.exists_placed {out : List Label} (h : Recalls history out code)
    (asked : .placeLabel label ∈ history) : ∃ position, code.placed? label = some position := by
  refine Option.ne_none_iff_exists'.mp fun unplaced => ?_
  exact (h.unplaced label).mp unplaced asked

/-- **Labels over a whole run.**  Whatever was done to code before, and however it ended:

* if a label can be placed, it was not placed before, and from then on, whatever follows, it stands
  for the number of instructions that had been appended;
* a label that was placed before cannot be placed again: this is reported, and changes nothing;
* a label that was not placed before can be placed, and until then stands for nothing;
* the next label to be handed out is none that was handed out or placed before. -/
theorem labels_are_placed_once (maxLocals : UInt16) (before : List Edit) (label : Label) :
    (∀ reply code',
      (Edit.placeLabel label).perform ((empty maxLocals).after before) = .ok reply code' →
      .placeLabel label ∉ before ∧
        ∀ later, (code'.after later).resolve (.label label) = .ok (appended before)) ∧
    (.placeLabel label ∈ before →
      (Edit.placeLabel label).perform ((empty maxLocals).after before) =
        .error (.duplicateLabel label) ((empty maxLocals).after before)) ∧
    (.placeLabel label ∉ before →
      (∃ code',
        (Edit.placeLabel label).perform ((empty maxLocals).after before) = .ok .done code') ∧
        ((empty maxLocals).after before).resolve (.label label) = .error (.unplacedLabel label)) ∧
    ∃ fresh code',
      Edit.freshLabel.perform ((empty maxLocals).after before) = .ok (.label fresh) code' ∧
      fresh ∉ handedOut (empty maxLocals) before ∧ .placeLabel fresh ∉ before := by
  have recalls := recalls_after maxLocals before
  generalize (empty maxLocals).after before = code at recalls ⊢
  refine ⟨?_, ?_, ?_, ?_⟩
  · intro reply code' run
    by_cases asked : .placeLabel label ∈ before
    · obtain ⟨position, placed⟩ := recalls.exists_placed asked
      cases (perform_of_placed placed).symm.trans run
    · have unplaced := (recalls.unplaced label).mpr asked
      cases (perform_of_unplaced unplaced).symm.trans run
      refine ⟨asked, fun later => ?_⟩
      have here : (code.placedHere label).placed? label = some code.length := by
        rw [placed?_placedHere, if_pos rfl]
      simp only [resolve, placed?_after here later, recalls.length]
  · intro asked
    obtain ⟨position, placed⟩ := recalls.exists_placed asked
    exact perform_of_placed placed
  · intro asked
    have unplaced := (recalls.unplaced label).mpr asked
    exact ⟨⟨_, perform_of_unplaced unplaced⟩, by simp only [resolve, unplaced]⟩
  · refine ⟨⟨code.labels.size⟩, _, rfl, ?_, ?_⟩
    · intro handed
      exact Nat.lt_irrefl _ (recalls.room _ handed)
    · intro asked
      obtain ⟨position, placed⟩ := recalls.exists_placed asked
      exact Nat.lt_irrefl _ (lt_size_of_placed placed)

/-- One label is handed out and two instructions follow; then a label is placed that is ahead of
those handed out. -/
def placedAhead : List Edit :=
  [.freshLabel, .append ⟨Opcode.ret, .none⟩, .append ⟨Opcode.ret, .none⟩, .placeLabel ⟨3⟩]

/-- The label stands in front of the third instruction for good, and cannot be placed again; the
label handed out first was never placed; and the next one to be handed out is behind both. -/
theorem placedAhead_labels :
    ((empty 0).after (placedAhead ++ [.append ⟨Opcode.ret, .none⟩, .placeLabel ⟨3⟩])).resolve
        (.label ⟨3⟩) = .ok 2 ∧
      (Edit.placeLabel ⟨3⟩).perform ((empty 0).after placedAhead) =
        .error (.duplicateLabel ⟨3⟩) ((empty 0).after placedAhead) ∧
      ((empty 0).after placedAhead).resolve (.label ⟨0⟩) = .error (.unplacedLabel ⟨0⟩) ∧
      handedOut (empty 0) (placedAhead ++ [.freshLabel]) = [⟨0⟩, ⟨4⟩] := by
  obtain ⟨placed, -, -, -⟩ := labels_are_placed_once 0 (placedAhead.take 3) ⟨3⟩
  obtain ⟨-, stays⟩ := placed .done ((empty 0).after placedAhead) rfl
  obtain ⟨-, again, -, -⟩ := labels_are_placed_once 0 placedAhead ⟨3⟩
  obtain ⟨-, -, unplaced, -⟩ := labels_are_placed_once 0 placedAhead ⟨0⟩
  refine ⟨stays [.append ⟨Opcode.ret, .none⟩, .placeLabel ⟨3⟩], again (by decide), ?_, rfl⟩
  exact (unplaced (by decide)).2

end JvmAsm.Code
