import JvmAsm.Code.Link
import JvmAsm.Proofs.Traversal

/-! # What linking does

Linking keeps the shape of an instruction and replaces what it points at.  That is
said here once, as a relation between the instruction before and the instruction
after (`Code.Links`), and everything later uses the relation and not the checks.

The relation rests on `Operand.Related`: two operands of the same shape whose
targets and whose references are related one by one.  Shape is all that decides
which operands fit an opcode, so related operands fit the same opcodes
(`Operand.Related.fits`). -/

namespace JvmAsm

/-! ## The opcodes with two forms

The table of opcodes is long, and nothing here looks into it but these facts. -/

namespace Opcode

/-- What holds of all bytes holds of all opcodes. -/
theorem forall_of_lt {P : Opcode → Prop} (h : ∀ n < 256, P (UInt8.ofNat n)) (opcode : Opcode) :
    P opcode := by
  have here := h opcode.toNat opcode.toNat_lt
  rwa [UInt8.ofNat_toNat] at here

theorem form_ldcW : ldcW.form = .wideConstant := by decide +kernel
theorem form_goto : goto.form = .branch := by decide +kernel
theorem form_jsr : jsr.form = .branch := by decide +kernel
theorem form_gotoW : gotoW.form = .wideBranch := by decide +kernel
theorem form_jsrW : jsrW.form = .wideBranch := by decide +kernel

/-- One opcode has the index of a constant in one byte. -/
theorem eq_ldc_of_form (opcode : Opcode) : opcode.form = .narrowConstant → opcode = ldc := by
  revert opcode
  refine forall_of_lt ?_
  decide +kernel

theorem widened?_eq_some {opcode wide : Opcode} (h : opcode.widened? = some wide) :
    opcode = goto ∧ wide = gotoW ∨ opcode = jsr ∧ wide = jsrW := by
  unfold widened? at h
  split at h
  · exact .inl ⟨by assumption, (Option.some.inj h).symm⟩
  · split at h
    · exact .inr ⟨by assumption, (Option.some.inj h).symm⟩
    · cases h

end Opcode

attribute [local irreducible] Opcode.form

/-! ## Operands of the same shape -/

/-- The same cases, with related targets. -/
def SwitchTable.Related {τ υ : Type} (target : τ → υ → Prop) :
    SwitchTable τ → SwitchTable υ → Prop
  | .table low targets fallback, .table low' targets' fallback' =>
    low' = low ∧ target fallback fallback' ∧ List.Forall₂ target targets targets'
  | .lookup pairs fallback, .lookup pairs' fallback' =>
    target fallback fallback' ∧
      List.Forall₂ (fun pair pair' => pair'.1 = pair.1 ∧ target pair.2 pair'.2) pairs pairs'
  | _, _ => False

/-- The same operand, with related targets and related references. -/
def Operand.Related {τ υ κ μ : Type} (target : τ → υ → Prop) (reference : κ → μ → Prop) :
    Operand τ κ → Operand υ μ → Prop
  | .none, .none => True
  | .int value, .int value' => value' = value
  | .constant r, .constant r' => reference r r'
  | .branch t, .branch t' => target t t'
  | .increment index delta, .increment index' delta' => index' = index ∧ delta' = delta
  | .switch cases, .switch cases' => cases.Related target cases'
  | _, _ => False

section Related

variable {τ υ κ μ : Type} {target : τ → υ → Prop} {reference : κ → μ → Prop}

/-- Related operands fit the same forms. -/
theorem Operand.Related.fits {operand : Operand τ κ} {operand' : Operand υ μ}
    (h : operand.Related target reference operand') (form : OperandForm) :
    operand'.fits form = operand.fits form := by
  cases operand <;> cases operand' <;> try exact False.elim h
  case switch.switch cases cases' =>
    cases cases <;> cases cases' <;> first | exact False.elim h | (cases form <;> rfl)
  all_goals cases form <;> rfl

theorem SwitchTable.related_of_mapM {ε : Type} {check : τ → Except ε υ} {cases : SwitchTable τ}
    {cases' : SwitchTable υ} (h : cases.mapM check = .ok cases') :
    cases.Related (fun t t' => check t = .ok t') cases' := by
  cases cases with
  | table low targets fallback =>
    obtain ⟨fallback', hfallback, h⟩ := Check.bind_eq_ok.mp h
    obtain ⟨targets', htargets, h⟩ := Check.bind_eq_ok.mp h
    rw [Check.pure_eq_ok] at h
    subst h
    exact ⟨rfl, hfallback, Check.forall₂_of_mapM htargets⟩
  | lookup pairs fallback =>
    obtain ⟨fallback', hfallback, h⟩ := Check.bind_eq_ok.mp h
    obtain ⟨pairs', hpairs, h⟩ := Check.bind_eq_ok.mp h
    rw [Check.pure_eq_ok] at h
    subst h
    refine ⟨hfallback, (Check.forall₂_of_mapM hpairs).imp ?_⟩
    rintro ⟨key, t⟩ pair' hpair
    obtain ⟨t', ht, hpair⟩ := Check.bind_eq_ok.mp hpair
    rw [Check.pure_eq_ok] at hpair
    subst hpair
    exact ⟨rfl, ht⟩

end Related

namespace Code

variable {code : Code} {pool : Pool} {position : Nat}

/-! ## One instruction -/

/-- The reference has the constant and the index that the pool has for the entry. -/
def Refers (pool : Pool) (entry : Entry) (reference : PoolRef) : Prop :=
  pool.constant? entry = some reference.constant ∧ pool.index entry = .ok reference.index

/-- **What linking makes of the instruction at a position.** -/
structure Links (code : Code) (pool : Pool) (position : Nat) (source : SourceInstruction)
    (linked : LinkedInstruction) : Prop where
  /-- Only a load may change its opcode, to its wide form. -/
  opcode : linked.opcode = source.opcode ∨
    source.opcode = Opcode.ldc ∧ linked.opcode = Opcode.ldcW
  /-- The operand is of the opcode's form. -/
  shape : linked.operandMatches = true
  /-- Targets became positions of instructions, entries their constants and indices. -/
  operand : source.operand.Related
    (fun target place => code.branchTarget position target = .ok place)
    (Refers pool) linked.operand
  /-- The cases of a switch passed their check. -/
  cases : ∀ cases, linked.operand = .switch cases → checkCases position cases = .ok ()

theorem branchTarget_eq_ok {target : Target} {place : Nat} :
    code.branchTarget position target = .ok place ↔
      code.resolve target = .ok place ∧ place < code.length := by
  unfold branchTarget
  rw [Check.bind_eq_ok]
  constructor
  · rintro ⟨place', hresolve, h⟩
    split at h
    · obtain rfl : place' = place := Except.ok.inj h
      exact ⟨hresolve, by assumption⟩
    · cases h
  · rintro ⟨hresolve, hlt⟩
    exact ⟨place, hresolve, if_pos hlt⟩

/-- A table passes if it has a case and its highest value is a number of 32 bits. -/
theorem checkCases_table {τ : Type} {low : Int32} {targets : List τ} {fallback : τ} :
    checkCases position (.table low targets fallback) = .ok () ↔
      targets ≠ [] ∧ low.toInt + targets.length - 1 < 0x80000000 := by
  unfold checkCases
  cases targets with
  | nil =>
    constructor
    · nofun
    · exact fun h => absurd rfl h.1
  | cons head tail =>
    constructor
    · intro h
      refine ⟨List.cons_ne_nil head tail, ?_⟩
      by_cases high : low.toInt + (head :: tail).length - 1 < 0x80000000
      · exact high
      · simp only [List.isEmpty_cons, Bool.false_eq_true, if_false, if_neg high] at h
        cases h
    · rintro ⟨-, high⟩
      simp only [List.isEmpty_cons, Bool.false_eq_true, if_false, if_pos high]

theorem linkConstant_eq_ok {opcode : Opcode} {entry : Entry} {reference : PoolRef}
    (h : linkConstant pool position opcode entry = .ok reference) :
    Refers pool entry reference ∧ opcode.suits reference.constant = true := by
  unfold linkConstant at h
  split at h
  · cases h
  · rename_i constant hconstant
    obtain ⟨index, hindex, h⟩ := Check.bind_eq_ok.mp h
    split at h
    · rename_i hsuits
      rw [Check.pure_eq_ok] at h
      subst h
      exact ⟨⟨hconstant, hindex⟩, hsuits⟩
    · cases h

/-- A load that takes its wide form still has an operand of its form. -/
theorem loadOpcode_cases (opcode : Opcode) (index : UInt16) :
    loadOpcode opcode index = opcode ∨
      opcode = Opcode.ldc ∧ loadOpcode opcode index = Opcode.ldcW := by
  unfold loadOpcode
  split
  · rename_i h
    exact .inr ⟨h.1, rfl⟩
  · exact .inl rfl

theorem fits_loadOpcode {κ τ : Type} {opcode : Opcode} {reference : κ} (index : UInt16)
    (h : (Operand.constant reference : Operand τ κ).fits opcode.form = true) :
    (Operand.constant reference : Operand τ κ).fits (loadOpcode opcode index).form = true := by
  rcases loadOpcode_cases opcode index with same | ⟨-, wide⟩
  · rw [same]
    exact h
  · rw [wide, Opcode.form_ldcW]
    rfl

/-- An operand that is replaced by a related one, under the same opcode. -/
theorem Links.of_related {opcode : Opcode} {operand : Operand Target Entry}
    {operand' : Operand Nat PoolRef} (shape : operand.fits opcode.form = true)
    (related : operand.Related (fun target place => code.branchTarget position target = .ok place)
      (Refers pool) operand')
    (cases : ∀ cases, operand' = .switch cases → checkCases position cases = .ok ()) :
    code.Links pool position ⟨opcode, operand⟩ ⟨opcode, operand'⟩ :=
  ⟨.inl rfl, (related.fits opcode.form).trans shape, related, cases⟩

/-- What linking makes of an operand that passes. -/
inductive LinksTo (code : Code) (pool : Pool) (position : Nat) (opcode : Opcode) :
    Operand Target Entry → LinkedInstruction → Prop
  | none : LinksTo code pool position opcode .none ⟨opcode, .none⟩
  | int (value : Int32) : LinksTo code pool position opcode (.int value) ⟨opcode, .int value⟩
  | increment (index : UInt32) (delta : Int32) :
    LinksTo code pool position opcode (.increment index delta) ⟨opcode, .increment index delta⟩
  | branch {target : Target} {place : Nat} (lands : code.branchTarget position target = .ok place) :
    LinksTo code pool position opcode (.branch target) ⟨opcode, .branch place⟩
  | switch {cases : SwitchTable Target} {cases' : SwitchTable Nat}
    (lands : cases.mapM (code.branchTarget position) = .ok cases')
    (checked : checkCases position cases' = .ok ()) :
    LinksTo code pool position opcode (.switch cases) ⟨opcode, .switch cases'⟩
  | constant {entry : Entry} {reference : PoolRef}
    (known : linkConstant pool position opcode entry = .ok reference) :
    LinksTo code pool position opcode (.constant entry)
      ⟨loadOpcode opcode reference.index, .constant reference⟩

theorem linksTo_of_linkAt {opcode : Opcode} {operand : Operand Target Entry}
    {linked : LinkedInstruction} (h : code.linkAt pool position ⟨opcode, operand⟩ = .ok linked) :
    operand.fits opcode.form = true ∧ LinksTo code pool position opcode operand linked := by
  unfold linkAt Instruction.operandMatches at h
  dsimp only at h
  by_cases hform : opcode.form = .unsupported
  · rw [if_pos hform] at h
    cases h
  · rw [if_neg hform] at h
    cases shape : operand.fits opcode.form with
    | false =>
      rw [shape] at h
      cases h
    | true =>
      refine ⟨rfl, ?_⟩
      rw [shape] at h
      cases operand with
      | none =>
        obtain rfl := Except.ok.inj h
        exact .none
      | int value =>
        obtain rfl := Except.ok.inj h
        exact .int value
      | increment index delta =>
        obtain rfl := Except.ok.inj h
        exact .increment index delta
      | branch target =>
        obtain ⟨place, hplace, h⟩ := Check.bind_eq_ok.mp h
        obtain rfl := Check.pure_eq_ok.mp h
        exact .branch hplace
      | switch cases =>
        obtain ⟨cases', hcases, h⟩ := Check.bind_eq_ok.mp h
        obtain ⟨⟨⟩, hcheck, h⟩ := Check.bind_eq_ok.mp h
        obtain rfl := Check.pure_eq_ok.mp h
        exact .switch hcases hcheck
      | constant entry =>
        obtain ⟨reference, hreference, h⟩ := Check.bind_eq_ok.mp h
        obtain rfl := Check.pure_eq_ok.mp h
        exact .constant hreference

/-- **An instruction that links is related to what it becomes.** -/
theorem links_of_linkAt {source : SourceInstruction} {linked : LinkedInstruction}
    (h : code.linkAt pool position source = .ok linked) :
    code.Links pool position source linked := by
  obtain ⟨opcode, operand⟩ := source
  obtain ⟨shape, linksTo⟩ := linksTo_of_linkAt h
  cases linksTo with
  | none => exact Links.of_related shape trivial fun _ => nofun
  | int value => exact Links.of_related shape rfl fun _ => nofun
  | increment index delta => exact Links.of_related shape ⟨rfl, rfl⟩ fun _ => nofun
  | branch lands => exact Links.of_related shape lands fun _ => nofun
  | switch lands checked =>
    refine Links.of_related shape (SwitchTable.related_of_mapM lands) ?_
    intro other hother
    obtain rfl := Operand.switch.inj hother
    exact checked
  | @constant entry reference known =>
    obtain ⟨hrefers, -⟩ := linkConstant_eq_ok known
    have kept : code.Links pool position ⟨opcode, .constant entry⟩
        ⟨opcode, .constant reference⟩ := Links.of_related shape hrefers fun _ => nofun
    exact ⟨loadOpcode_cases opcode reference.index,
      fits_loadOpcode reference.index kept.shape, kept.operand, kept.cases⟩

/-! ## All instructions -/

theorem length_of_link {linked : List LinkedInstruction} (h : code.link pool = .ok linked) :
    linked.length = code.length := by
  have walked := Check.length_of_mapM h
  rwa [List.length_zipIdx, Array.length_toList] at walked

theorem links_of_link {linked : List LinkedInstruction} (h : code.link pool = .ok linked)
    {source : SourceInstruction} (hsource : code.instructions[position]? = some source) :
    ∃ instruction, linked[position]? = some instruction ∧
      code.Links pool position source instruction := by
  have hlist : code.instructions.toList[position]? = some source := by
    rwa [Array.getElem?_toList]
  obtain ⟨instruction, hinstruction, hlink⟩ := Check.getElem?_of_mapM_zipIdx h hlist
  exact ⟨instruction, hinstruction, links_of_linkAt hlink⟩

/-- At every position there is an instruction before linking and one after it. -/
theorem links_of_lt {linked : List LinkedInstruction} (h : code.link pool = .ok linked)
    (hlt : position < code.length) :
    ∃ source instruction, code.instructions[position]? = some source ∧
      linked[position]? = some instruction ∧ code.Links pool position source instruction := by
  have hsource : code.instructions[position]? = some _ := Array.getElem?_eq_getElem hlt
  obtain ⟨instruction, hinstruction, links⟩ := links_of_link h hsource
  exact ⟨_, instruction, hsource, hinstruction, links⟩

end Code

end JvmAsm
