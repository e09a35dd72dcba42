import JvmAsm.Proofs.AssemblyAcceptance

/-! # Labels are names for positions

A label can be used before it is placed, so targets are looked up only when code is
assembled, and then again and again: when an instruction is linked, once for every case
of a switch, and three times for an exception handler.  None of these look-ups does
more with a label than to ask where it stands.

That is said here for replacements in general.  Targets of code are replaced one by one,
together with the table of labels (`Code.retarget`); if every target that occurs in the
code stands for the same position as before, or fails in the same way, then assembly
cannot tell the difference (`Code.assemble_retarget`).  It does not matter what the other
targets become.  Labels that were placed can therefore give way to their positions, and
the table of labels can then be dropped. -/

namespace JvmAsm

attribute [local irreducible] Opcode.form

/-! ## Replacing targets -/

/-- Checks after a replacement, if they answer as they did before it. -/
theorem Check.mapM_map_congr {ε α β γ : Type} {f : α → β} {check' : β → Except ε γ}
    {check : α → Except ε γ} {items : List α}
    (agree : ∀ item ∈ items, check' (f item) = check item) :
    (items.map f).mapM check' = items.mapM check := by
  induction items with
  | nil => rfl
  | cons item items ih =>
    have here := agree item List.mem_cons_self
    have there := ih fun other hother => agree other (List.mem_cons_of_mem item hother)
    rw [List.map_cons, List.mapM_cons, List.mapM_cons, here, there]

namespace SwitchTable

variable {τ υ φ ε : Type}

/-- Replaces every target. -/
def map (f : τ → υ) : SwitchTable τ → SwitchTable υ
  | table low targets fallback => table low (targets.map f) (f fallback)
  | lookup pairs fallback => lookup (pairs.map fun pair => (pair.1, f pair.2)) (f fallback)

theorem targets_map (f : τ → υ) (cases : SwitchTable τ) :
    (cases.map f).targets = cases.targets.map f := by
  cases cases <;> simp [map, targets, fallbackTarget, caseTargets]

/-- Tables differ by their targets only. -/
theorem related_map (f : τ → υ) (cases : SwitchTable τ) :
    cases.Related (fun target target' => target' = f target) (cases.map f) := by
  cases cases with
  | table low targets fallback => exact ⟨rfl, rfl, by simp [List.forall₂_map_right_iff]⟩
  | lookup pairs fallback => exact ⟨rfl, by simp [List.forall₂_map_right_iff]⟩

/-- Checks that agree on the targets of a table agree on the table. -/
theorem mapM_map_congr {f : τ → υ} {check' : υ → Except ε φ} {check : τ → Except ε φ}
    {cases : SwitchTable τ} (agree : ∀ target ∈ cases.targets, check' (f target) = check target) :
    (cases.map f).mapM check' = cases.mapM check := by
  have first : check' (f cases.fallbackTarget) = check cases.fallbackTarget :=
    agree _ List.mem_cons_self
  have others : ∀ target ∈ cases.caseTargets, check' (f target) = check target :=
    fun target htarget => agree target (List.mem_cons_of_mem _ htarget)
  cases cases with
  | table low targets fallback =>
    change check' (f fallback) = check fallback at first
    simp only [map, mapM, first]
    refine bind_congr fun _ => congrArg (· >>= _) ?_
    exact Check.mapM_map_congr others
  | lookup pairs fallback =>
    change check' (f fallback) = check fallback at first
    simp only [map, mapM, first]
    refine bind_congr fun _ => congrArg (· >>= _) (Check.mapM_map_congr fun pair hpair => ?_)
    have here := others pair.2 (List.mem_map_of_mem hpair)
    simp only [here]

end SwitchTable

namespace Operand

variable {τ υ κ : Type}

/-- Replaces every target. -/
def mapTargets (f : τ → υ) : Operand τ κ → Operand υ κ
  | .none => .none
  | .int value => .int value
  | .constant reference => .constant reference
  | .branch target => .branch (f target)
  | .increment index delta => .increment index delta
  | .switch cases => .switch (cases.map f)

theorem targets_mapTargets (f : τ → υ) (operand : Operand τ κ) :
    (operand.mapTargets f).targets = operand.targets.map f := by
  cases operand with
  | switch cases => exact cases.targets_map f
  | none | int | constant | branch | increment => rfl

theorem related_mapTargets (f : τ → υ) (operand : Operand τ κ) :
    operand.Related (fun target target' => target' = f target) (· = ·) (operand.mapTargets f) := by
  cases operand with
  | switch cases => exact cases.related_map f
  | increment index delta => exact ⟨rfl, rfl⟩
  | none => trivial
  | int | constant | branch => rfl

end Operand

/-- Replaces every target. -/
def Instruction.mapTargets {τ υ κ : Type} (f : τ → υ) (instruction : Instruction τ κ) :
    Instruction υ κ :=
  ⟨instruction.opcode, instruction.operand.mapTargets f⟩

/-- The kind of an operand does not depend on its targets. -/
theorem Instruction.operandMatches_mapTargets {τ υ κ : Type} (f : τ → υ)
    (instruction : Instruction τ κ) :
    (instruction.mapTargets f).operandMatches = instruction.operandMatches :=
  (instruction.operand.related_mapTargets f).fits instruction.opcode.form

namespace Handler

/-- Where the range begins and ends, and where exceptions are handled. -/
def targets (handler : Handler) : List Target := [handler.start, handler.stop, handler.handler]

/-- Replaces every target. -/
def mapTargets (f : Target → Target) (handler : Handler) : Handler :=
  { handler with start := f handler.start, stop := f handler.stop, handler := f handler.handler }

end Handler

namespace Code

variable {code : Code} {f : Target → Target} {labels : Array (Option Nat)} {pool : Pool}

/-- All targets in the code: of branches, of switches and of exception handlers. -/
def targets (code : Code) : List Target :=
  code.instructions.toList.flatMap (fun source => source.operand.targets) ++
    code.handlers.toList.flatMap Handler.targets

/-- Replaces every target, and the table of labels. -/
def retarget (f : Target → Target) (labels : Array (Option Nat)) (code : Code) : Code :=
  { code with
    instructions := code.instructions.map (Instruction.mapTargets f)
    handlers := code.handlers.map (Handler.mapTargets f)
    labels }

theorem targets_retarget : (code.retarget f labels).targets = code.targets.map f := by
  simp [targets, retarget, List.flatMap_map, List.map_flatMap, Instruction.mapTargets,
    Operand.targets_mapTargets, Handler.targets, Handler.mapTargets]

theorem length_retarget : (code.retarget f labels).length = code.length := Array.size_map

/-! ## Assembly after a replacement -/

section Agreement

variable (agree : ∀ target ∈ code.targets,
  (code.retarget f labels).resolve (f target) = code.resolve target)

include agree

/-- What replaces a target leads to where that led. -/
theorem branchTarget_retarget (position : Nat) {target : Target} (occurs : target ∈ code.targets) :
    (code.retarget f labels).branchTarget position (f target) =
      code.branchTarget position target := by
  unfold branchTarget
  rw [agree target occurs, length_retarget]

/-- An instruction is linked as before: only its targets were looked up elsewhere. -/
theorem linkAt_retarget (position : Nat) {source : SourceInstruction}
    (occurs : source ∈ code.instructions.toList) :
    (code.retarget f labels).linkAt pool position (source.mapTargets f) =
      code.linkAt pool position source := by
  have reach : ∀ target ∈ source.operand.targets,
      (code.retarget f labels).branchTarget position (f target) =
        code.branchTarget position target :=
    fun target htarget => branchTarget_retarget agree position
      (List.mem_append_left _ (List.mem_flatMap.mpr ⟨source, occurs, htarget⟩))
  unfold linkAt
  rw [Instruction.operandMatches_mapTargets]
  obtain ⟨opcode, operand⟩ := source
  cases operand with
  | branch target =>
    simp only [Instruction.mapTargets, Operand.mapTargets, reach target List.mem_cons_self]
  | switch cases =>
    simp only [Instruction.mapTargets, Operand.mapTargets, SwitchTable.mapM_map_congr reach]
  | none | int | constant | increment => rfl

theorem link_retarget : (code.retarget f labels).link pool = code.link pool := by
  unfold link
  have listed : (code.retarget f labels).instructions.toList =
      code.instructions.toList.map (Instruction.mapTargets f) := Array.toList_map
  rw [listed, List.zipIdx_map]
  refine Check.mapM_map_congr ?_
  rintro ⟨source, position⟩ hsource
  exact linkAt_retarget agree position (List.fst_mem_of_mem_zipIdx hsource)

theorem handlerRow_retarget (layout : Layout) {handler : Handler}
    (occurs : handler ∈ code.handlers.toList) :
    (code.retarget f labels).handlerRow pool layout (handler.mapTargets f) =
      code.handlerRow pool layout handler := by
  have within : ∀ target ∈ handler.targets, target ∈ code.targets := fun target htarget =>
    List.mem_append_right _ (List.mem_flatMap.mpr ⟨handler, occurs, htarget⟩)
  have start := agree handler.start (within _ (by simp [Handler.targets]))
  have stop := agree handler.stop (within _ (by simp [Handler.targets]))
  have target (position : Nat) := branchTarget_retarget agree position
    (within handler.handler (by simp [Handler.targets]))
  simp only [handlerRow, Handler.mapTargets, start, stop, target, length_retarget]

/-- The rows of handlers are made of the same offsets. -/
theorem exceptionTable_retarget (layout : Layout) :
    (code.retarget f labels).exceptionTable pool layout = code.exceptionTable pool layout := by
  unfold exceptionTable
  have listed : (code.retarget f labels).handlers.toList =
      code.handlers.toList.map (Handler.mapTargets f) := Array.toList_map
  rw [listed,
    Check.mapM_map_congr fun handler hhandler => handlerRow_retarget agree layout hhandler]

/-- **Assembly only asks where targets stand.** -/
theorem assemble_retarget : (code.retarget f labels).assemble pool = code.assemble pool := by
  have laidOut : (code.retarget f labels).layout pool = code.layout pool := by
    unfold layout
    rw [link_retarget agree]
  unfold assemble
  simp only [laidOut, exceptionTable_retarget agree]
  rfl

end Agreement

/-! ## Positions in place of labels -/

/-- The position a label was placed at, in place of the label. -/
def byPosition (code : Code) : Target → Target
  | .position position => .position position
  | .label label =>
    match code.placed? label with
    | some position => .position position
    | none => .label label

theorem byPosition_eq {target : Target} {position : Nat} (h : code.resolve target = .ok position) :
    code.byPosition target = .position position := by
  cases target with
  | position other =>
    cases h
    rfl
  | label label =>
    unfold resolve at h
    dsimp only at h
    split at h
    · rename_i placed
      cases h
      simp only [byPosition, placed]
    · cases h

/-- Only a label that was not placed leads nowhere. -/
theorem exists_resolve {target : Target}
    (placed : ∀ label, target = .label label → ∃ position, code.placed? label = some position) :
    ∃ position, code.resolve target = .ok position := by
  cases target with
  | position position => exact ⟨position, rfl⟩
  | label label =>
    obtain ⟨position, found⟩ := placed label rfl
    exact ⟨position, by simp only [resolve, found]⟩

/-- **Labels are only names for positions.**  If every label that occurs in the code was placed, the
positions they were placed at can stand in their place: no label is left, and whatever the table of
labels is then, the code is assembled to the same result, or refused with the same error. -/
theorem labels_only_name_positions {code : Code}
    (placed : ∀ label, .label label ∈ code.targets → ∃ position, code.placed? label = some position)
    (labels : Array (Option Nat)) (pool : Pool) :
    (∀ target ∈ (code.retarget code.byPosition labels).targets,
        ∃ position, target = .position position) ∧
      (code.retarget code.byPosition labels).assemble pool = code.assemble pool := by
  have settled : ∀ target ∈ code.targets, ∃ position, code.resolve target = .ok position := by
    rintro target occurs
    refine exists_resolve ?_
    rintro label rfl
    exact placed label occurs
  constructor
  · intro target occurs
    rw [targets_retarget] at occurs
    obtain ⟨original, horiginal, rfl⟩ := List.mem_map.mp occurs
    obtain ⟨position, found⟩ := settled original horiginal
    exact ⟨position, byPosition_eq found⟩
  · refine assemble_retarget fun target occurs => ?_
    obtain ⟨position, found⟩ := settled target occurs
    rw [byPosition_eq found, found]
    rfl

/-- A switch, a jump and a handler, all by labels.  The last label stands behind the code, where the
range of the handler ends. -/
def labelled : Code :=
  { Code.empty 0 with
    instructions := #[⟨0xaa, .switch (.table 0 [.label ⟨1⟩] (.label ⟨0⟩))⟩,
      ⟨Opcode.goto, .branch (.label ⟨1⟩)⟩, ⟨Opcode.ret, .none⟩]
    labels := #[some 1, some 2, some 3]
    handlers := #[⟨.label ⟨0⟩, .label ⟨2⟩, .label ⟨1⟩, none⟩] }

/-- A table switch, a jump and a handler by labels are assembled as by positions. -/
theorem labelled_by_position :
    (∀ label, .label label ∈ labelled.targets →
      ∃ position, labelled.placed? label = some position) ∧
      labelled.placed? ⟨2⟩ = some labelled.length ∧
      labelled.assemble .empty = .ok ⟨16, 0, ⟨[0xaa, 0, 0, 0, 0, 0, 0, 20, 0, 0, 0, 0, 0, 0, 0, 0,
        0, 0, 0, 23, 0xa7, 0, 3, 0xb1]⟩, [⟨20, 24, 23, 0⟩], []⟩ ∧
      (∀ target ∈ (labelled.retarget labelled.byPosition #[]).targets,
        ∃ position, target = .position position) ∧
      (labelled.retarget labelled.byPosition #[]).assemble .empty = labelled.assemble .empty := by
  have placed : ∀ label, .label label ∈ labelled.targets →
      ∃ position, labelled.placed? label = some position := by
    intro label occurs
    have listed : labelled.targets = [.label ⟨0⟩, .label ⟨1⟩, .label ⟨1⟩, .label ⟨0⟩, .label ⟨2⟩,
      .label ⟨1⟩] := by decide
    rw [listed] at occurs
    simp only [List.mem_cons, Target.label.injEq, List.not_mem_nil, or_false] at occurs
    rcases occurs with rfl | rfl | rfl | rfl | rfl | rfl <;> exact ⟨_, rfl⟩
  exact ⟨placed, rfl, by decide +kernel, labels_only_name_positions placed #[] .empty⟩

end Code

end JvmAsm
