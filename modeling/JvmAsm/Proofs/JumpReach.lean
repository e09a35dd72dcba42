import JvmAsm.Proofs.Starts

/-! # Unconditional jumps reach their targets

Whether a `goto` or `jsr` is widened is decided before anything is known about real
offsets, on starts that are too far apart.  This module proves that the decision is
safe: **real starts are never further apart than the greatest ones**
(`displacement_ofLinked_le`), so a jump that was left short because it fits under
the greatest starts fits under the real ones, in both directions
(`jump_fits`).

A displacement that does not fit is therefore always that of a conditional branch.
For the assembler as a whole this needs the other half as well, that no other step
reports such a failure: `NotOverflow` holds of every failure of linking, of the
exception table and of the attributes. -/

namespace JvmAsm

attribute [local irreducible] Opcode.form

namespace Layout

variable {code : Code} {pool : Pool} {linked : List LinkedInstruction}

/-! ## Real starts are no further apart -/

/-- From one position to the next, the real start moves no further than the greatest one. -/
theorem start_succ_le (h : code.link pool = .ok linked) {position : Nat}
    (hlt : position < code.length) :
    (ofLinked linked).start (position + 1) + (reach linked).getD position 0 ≤
      (ofLinked linked).start position + (reach linked).getD (position + 1) 0 := by
  obtain ⟨_, instruction, -, hinstruction, links⟩ := Code.links_of_lt h hlt
  have shorter := lengthAt_widen_le (reach linked) position ((ofLinked linked).start position)
    links.shape
  rw [start_ofLinked_succ hinstruction, reach_succ hinstruction]
  omega

/-- **Real starts are never further apart than the greatest ones.** -/
theorem displacement_ofLinked_le (h : code.link pool = .ok linked) {i j : Nat} (hij : i ≤ j)
    (hj : j ≤ code.length) :
    displacement (ofLinked linked).starts i j ≤ displacement (reach linked) i j := by
  have sums : (ofLinked linked).start j + (reach linked).getD i 0 ≤
      (ofLinked linked).start i + (reach linked).getD j 0 := by
    obtain ⟨d, rfl⟩ := Nat.exists_eq_add_of_le hij
    clear hij
    induction d with
    | zero => exact Nat.le_refl _
    | succ d ih =>
      have before := ih (by omega)
      have step := start_succ_le h (show i + d < code.length by omega)
      rw [← Nat.add_assoc]
      omega
  unfold start at sums
  unfold displacement
  omega

/-- Starts do not descend. -/
theorem displacement_ofLinked_nonneg (h : code.link pool = .ok linked) {i j : Nat} (hij : i ≤ j)
    (hj : j ≤ code.length) : 0 ≤ displacement (ofLinked linked).starts i j := by
  have ascending := start_le_start hij (by rwa [Code.length_of_link h])
  unfold start at ascending
  unfold displacement
  omega

theorem displacement_swap (starts : Array Nat) (i j : Nat) :
    displacement starts i j = -displacement starts j i := by
  unfold displacement
  omega

/-- The range of a signed number of two bytes. -/
theorem fitsShort_iff {distance : Int} :
    fitsShort distance = true ↔ -32768 ≤ distance ∧ distance ≤ 32767 := by
  unfold fitsShort
  simp

/-- A distance that fits under the greatest starts fits under the real ones. -/
theorem fitsShort_of_reach (h : code.link pool = .ok linked) {i j : Nat} (hi : i ≤ code.length)
    (hj : j ≤ code.length) (fits : fitsShort (displacement (reach linked) i j) = true) :
    fitsShort (displacement (ofLinked linked).starts i j) = true := by
  rw [fitsShort_iff] at fits ⊢
  -- Forwards the real distance lies between 0 and the greatest one, backwards the two change
  -- places, and the lower limit counts.
  rcases Nat.le_total i j with hij | hji
  · have le := displacement_ofLinked_le h hij hj
    have nonneg := displacement_ofLinked_nonneg h hij hj
    omega
  · have le := displacement_ofLinked_le h hji hi
    have nonneg := displacement_ofLinked_nonneg h hji hi
    rw [displacement_swap (ofLinked linked).starts]
    rw [displacement_swap (reach linked)] at fits
    omega

/-! ## Short jumps -/

/-- A laid out instruction comes from one of the code, widened or not. -/
theorem widened_of_getElem? (h : code.link pool = .ok linked) {position : Nat}
    {final : LinkedInstruction} (hfinal : (ofLinked linked).instructions[position]? = some final) :
    ∃ source instruction, code.instructions[position]? = some source ∧
      code.Links pool position source instruction ∧
      final = widen (reach linked) position instruction := by
  have hlt : position < code.length := by
    have bound := (List.getElem?_eq_some_iff.mp hfinal).1
    rwa [length_ofLinked, Code.length_of_link h] at bound
  obtain ⟨source, instruction, hsource, hinstruction, links⟩ := Code.links_of_lt h hlt
  rw [getElem?_ofLinked hinstruction] at hfinal
  exact ⟨source, instruction, hsource, links, (Option.some.inj hfinal).symm⟩

/-- The operand of an unconditional jump is its target. -/
theorem operand_of_jump (h : code.link pool = .ok linked) {position : Nat}
    {jump : LinkedInstruction} (hjump : (ofLinked linked).instructions[position]? = some jump)
    (hform : jump.opcode.form = .branch) : ∃ target, jump.operand = .branch target := by
  obtain ⟨_, instruction, -, links, rfl⟩ := widened_of_getElem? h hjump
  have shape := operandMatches_widen (reach linked) position links.shape
  rw [Instruction.operandMatches, hform] at shape
  cases hoperand : (widen (reach linked) position instruction).operand <;>
    rw [hoperand] at shape <;> try cases shape
  exact ⟨_, rfl⟩

/-- **A jump that was left short reaches its target.** -/
theorem jump_fits (h : code.link pool = .ok linked) {position target : Nat} {opcode wide : Opcode}
    (hfinal : (ofLinked linked).instructions[position]? = some ⟨opcode, .branch target⟩)
    (hwide : opcode.widened? = some wide) :
    fitsShort (displacement (ofLinked linked).starts position target) = true := by
  obtain ⟨source, instruction, hsource, links, hwiden⟩ := widened_of_getElem? h hfinal
  rcases widen_cases (reach linked) position instruction with
    ⟨same, fits⟩ | ⟨target', wide', -, hwide', hwiden'⟩
  · rw [same] at hwiden
    subst hwiden
    have hposition : position < code.length := (Array.getElem?_eq_some_iff.mp hsource).1
    have htarget : target < code.length := by
      have related := links.operand
      cases hoperand : source.operand <;> rw [hoperand] at related <;> try exact False.elim related
      exact (Code.branchTarget_eq_ok.mp related).2
    exact fitsShort_of_reach h (Nat.le_of_lt hposition) (Nat.le_of_lt htarget)
      (fits target wide rfl hwide)
  · rw [hwiden'] at hwiden
    obtain ⟨rfl, -⟩ := Instruction.mk.inj hwiden
    -- The wide form of a jump has no wide form of its own.
    rcases Opcode.widened?_eq_some hwide' with ⟨-, rfl⟩ | ⟨-, rfl⟩ <;> cases hwide

end Layout

/-! ## Other failures

Every step but the encoding of a branch fails for other causes than a displacement. -/

/-- The failure is not that of a displacement. -/
def Error.NotOverflow (e : Error) : Prop :=
  ∀ position distance, e ≠ .branchOverflow position distance

open Check Error

theorem Pool.index_failsOnly (pool : Pool) (entry : Entry) :
    FailsOnly NotOverflow (pool.index entry) := by
  unfold Pool.index
  refine .ite (fun _ => .error fun _ _ => nofun) fun _ => ?_
  cases pool.slots[entry.rank]? with
  | none => exact .error fun _ _ => nofun
  | some slot =>
    cases hindex : slot.index with
    | none => simp only [hindex]; exact .error fun _ _ => nofun
    | some index => simp only [hindex]; exact .ok index

theorem Attributes.resolve_failsOnly (attributes : Attributes) (pool : Pool) :
    FailsOnly NotOverflow (attributes.resolve pool) := by
  refine .mapM fun named _ => ?_
  refine (pool.index_failsOnly named.entry).bind fun nameIndex _ => ?_
  refine .bind ?_ fun info _ => .ok _
  cases named.value with
  | bytes bytes => exact .ok bytes
  | constant entry => exact (pool.index_failsOnly entry).bind fun index _ => .ok _

namespace Code

variable {code : Code} {pool : Pool}

theorem resolve_failsOnly (target : Target) : FailsOnly NotOverflow (code.resolve target) := by
  cases target with
  | position position => exact .ok position
  | label label =>
    cases hplaced : code.placed? label with
    | none => simp only [resolve, hplaced]; exact .error fun _ _ => nofun
    | some position => simp only [resolve, hplaced]; exact .ok position

theorem branchTarget_failsOnly (position : Nat) (target : Target) :
    FailsOnly NotOverflow (code.branchTarget position target) :=
  (resolve_failsOnly target).bind fun place _ =>
    .ite (fun _ => .ok place) fun _ => .error fun _ _ => nofun

theorem checkCases_failsOnly (position : Nat) (cases : SwitchTable Nat) :
    FailsOnly NotOverflow (checkCases position cases) := by
  cases cases with
  | table low targets fallback =>
    exact .ite (fun _ => .error fun _ _ => nofun) fun _ =>
      .ite (fun _ => .ok ()) fun _ => .error fun _ _ => nofun
  | lookup pairs fallback => exact .ite (fun _ => .ok ()) fun _ => .error fun _ _ => nofun

theorem mapM_failsOnly (position : Nat) (cases : SwitchTable Target) :
    FailsOnly NotOverflow (cases.mapM (code.branchTarget position)) := by
  cases cases with
  | table low targets fallback =>
    refine (branchTarget_failsOnly position fallback).bind fun fallback' _ => ?_
    exact (FailsOnly.mapM fun target _ => branchTarget_failsOnly position target).bind
      fun targets' _ => .ok _
  | lookup pairs fallback =>
    refine (branchTarget_failsOnly position fallback).bind fun fallback' _ => ?_
    refine (FailsOnly.mapM fun pair _ => ?_).bind fun pairs' _ => .ok _
    exact (branchTarget_failsOnly position pair.2).bind fun target' _ => .ok _

theorem linkConstant_failsOnly (position : Nat) (opcode : Opcode) (entry : Entry) :
    FailsOnly NotOverflow (linkConstant pool position opcode entry) := by
  unfold linkConstant
  cases pool.constant? entry with
  | none => exact .error fun _ _ => nofun
  | some constant =>
    exact (pool.index_failsOnly entry).bind fun index _ =>
      .ite (fun _ => .ok _) fun _ => .error fun _ _ => nofun

/-- Linking knows no distances, so none can be too large. -/
theorem linkAt_failsOnly (position : Nat) (source : SourceInstruction) :
    FailsOnly NotOverflow (code.linkAt pool position source) := by
  obtain ⟨opcode, operand⟩ := source
  refine .ite (fun _ => .error fun _ _ => nofun) fun _ => ?_
  refine .ite (fun _ => .error fun _ _ => nofun) fun _ => ?_
  cases operand with
  | none | int | increment => exact .ok _
  | branch target => exact (branchTarget_failsOnly position target).bind fun place _ => .ok _
  | switch cases =>
    refine (mapM_failsOnly position cases).bind fun cases' _ => ?_
    exact (checkCases_failsOnly position cases').bind fun _ _ => .ok _
  | constant entry =>
    exact (linkConstant_failsOnly position opcode entry).bind fun reference _ => .ok _

theorem link_failsOnly : FailsOnly NotOverflow (code.link pool) :=
  .mapM fun numbered _ => linkAt_failsOnly numbered.2 numbered.1

theorem handlerRow_failsOnly (layout : Layout) (handler : Handler) :
    FailsOnly NotOverflow (code.handlerRow pool layout handler) := by
  refine (resolve_failsOnly handler.start).bind fun start _ => ?_
  refine (resolve_failsOnly handler.stop).bind fun stop _ => ?_
  refine .ite (fun _ => ?_) fun _ => .error fun _ _ => nofun
  refine (branchTarget_failsOnly start handler.handler).bind fun target _ => ?_
  cases handler.catchType with
  | none => exact .bind (.ok 0) fun catchType _ => .ok _
  | some entry => exact (pool.index_failsOnly entry).bind fun catchType _ => .ok _

/-- The table of handlers has offsets from the start of the code instead of distances. -/
theorem exceptionTable_failsOnly (layout : Layout) :
    FailsOnly NotOverflow (code.exceptionTable pool layout) := by
  refine (FailsOnly.mapM fun handler _ => handlerRow_failsOnly layout handler).bind
    fun table _ => ?_
  exact .ite (fun _ => .error fun _ _ => nofun) fun _ => .ok table

end Code

/-! ## Encoding -/

namespace Layout

variable {allowed : Error → Prop} {overflow : Error} {value : Int}

theorem unsignedByte_failsOnly (h : allowed overflow) :
    FailsOnly allowed (unsignedByte overflow value) :=
  .ite (fun _ => .ok _) fun _ => .error h

theorem signedByte_failsOnly (h : allowed overflow) :
    FailsOnly allowed (signedByte overflow value) :=
  .ite (fun _ => .ok _) fun _ => .error h

theorem signedShort_failsOnly (h : fitsShort value = false → allowed overflow) :
    FailsOnly allowed (signedShort overflow value) :=
  .ite (fun _ => .ok _) fun hfits => .error (h (Bool.not_eq_true _ |>.mp hfits))

theorem argumentSlots_failsOnly (descriptor : String) :
    FailsOnly NotOverflow (argumentSlots descriptor) := by
  unfold argumentSlots
  cases MethodDescriptor.parse descriptor with
  | ok parsed => exact .ok _
  | error cause => exact .error fun _ _ => nofun

/-- If this is the failure of a displacement, then at this position, of a branch in two
bytes that does not fit. -/
def OverflowsAt (layout : Layout) (position : Nat) (final : LinkedInstruction) (e : Error) : Prop :=
  ∀ place distance, e = .branchOverflow place distance → place = position ∧
    final.opcode.form = .branch ∧ ∃ target, final.operand = .branch target ∧
      fitsShort (displacement layout.starts position target) = false

theorem overflowsAt_of_not {layout : Layout} {position : Nat} {final : LinkedInstruction}
    {e : Error} (h : NotOverflow e) : OverflowsAt layout position final e :=
  fun place distance he => absurd he (h place distance)

/-- **A displacement that overflows is that of this very branch**, in its short form. -/
theorem encodeOperand_failsOnly (layout : Layout) (position : Nat) (final : LinkedInstruction) :
    FailsOnly (OverflowsAt layout position final) (layout.encodeOperand position final) := by
  have other : ∀ {e : Error}, NotOverflow e → OverflowsAt layout position final e :=
    fun h => overflowsAt_of_not h
  unfold encodeOperand
  split
  · exact .ok _
  · exact unsignedByte_failsOnly (other fun _ _ => nofun)
  · exact unsignedByte_failsOnly (other fun _ _ => nofun)
  · exact signedByte_failsOnly (other fun _ _ => nofun)
  · exact signedShort_failsOnly fun _ => other fun _ _ => nofun
  · exact unsignedByte_failsOnly (other fun _ _ => nofun)
  · exact .ok _
  · exact .ok _
  · exact .ok _
  · exact .ok _
  · split
    · refine ((argumentSlots_failsOnly _).mono fun _ => other).bind fun slots _ => ?_
      exact .bind (unsignedByte_failsOnly (other fun _ _ => nofun)) fun bytes _ => .ok _
    · exact .error (other fun _ _ => nofun)
  · rename_i target hform hoperand
    refine signedShort_failsOnly fun hfits => ?_
    intro place distance he
    obtain ⟨rfl, -⟩ := Error.branchOverflow.inj he
    exact ⟨rfl, hform, target, hoperand, hfits⟩
  · exact .ok _
  · refine .bind (unsignedByte_failsOnly (other fun _ _ => nofun)) fun index _ => ?_
    exact .bind (signedByte_failsOnly (other fun _ _ => nofun)) fun delta _ => .ok _
  · exact .ok _
  · exact .ok _
  · exact .error (other fun _ _ => nofun)

end Layout

/-! ## The assembler -/

namespace Code

variable {code : Code} {pool : Pool}

/-- If this is the failure of a displacement, then of a conditional branch of the code. -/
def OverflowsConditionally (code : Code) (e : Error) : Prop :=
  ∀ position distance, e = .branchOverflow position distance →
    ∃ source, code.instructions[position]? = some source ∧ source.opcode.form = .branch ∧
      source.opcode ∉ [Opcode.goto, Opcode.jsr, Opcode.gotoW, Opcode.jsrW]

theorem overflowsConditionally_of_not {e : Error} (h : NotOverflow e) :
    code.OverflowsConditionally e := fun position distance he => absurd he (h position distance)

/-- A laid out branch that does not fit is a conditional branch of the code. -/
theorem conditional_of_overflowsAt {linked : List LinkedInstruction} {position : Nat}
    {final : LinkedInstruction} {e : Error} (h : code.link pool = .ok linked)
    (hfinal : (Layout.ofLinked linked).instructions[position]? = some final)
    (he : Layout.OverflowsAt (Layout.ofLinked linked) position final e) :
    code.OverflowsConditionally e := by
  intro place distance hplace
  obtain ⟨rfl, hform, target, hoperand, hfits⟩ := he place distance hplace
  obtain ⟨opcode, operand⟩ := final
  obtain rfl : operand = .branch target := hoperand
  have hform : opcode.form = .branch := hform
  have narrow : opcode.widened? = none := by
    cases hwide : opcode.widened? with
    | none => rfl
    | some wide =>
      rw [Layout.jump_fits h hfinal hwide] at hfits
      cases hfits
  obtain ⟨source, instruction, hsource, links, hwiden⟩ := Layout.widened_of_getElem? h hfinal
  have same : opcode = instruction.opcode := by
    rcases Layout.widen_cases (Layout.reach linked) place instruction with
      ⟨same, -⟩ | ⟨_, wide, -, hwide, hwiden'⟩
    · rw [same] at hwiden
      rw [← hwiden]
    · rw [hwiden'] at hwiden
      obtain ⟨rfl, -⟩ := Instruction.mk.inj hwiden
      rcases Opcode.widened?_eq_some hwide with ⟨-, rfl⟩ | ⟨-, rfl⟩
      · rw [Opcode.form_gotoW] at hform
        cases hform
      · rw [Opcode.form_jsrW] at hform
        cases hform
  have kept : source.opcode = opcode := by
    rcases links.opcode with hopcode | ⟨-, hopcode⟩
    · rw [same, hopcode]
    · rw [same, hopcode, Opcode.form_ldcW] at hform
      cases hform
  refine ⟨source, hsource, by rw [kept, hform], ?_⟩
  rw [kept]
  intro hmem
  simp only [List.mem_cons, List.not_mem_nil, or_false] at hmem
  rcases hmem with rfl | rfl | rfl | rfl
  · cases narrow
  · cases narrow
  · rw [Opcode.form_gotoW] at hform
    cases hform
  · rw [Opcode.form_jsrW] at hform
    cases hform

/-- So an overflow is that of a conditional branch: the others were widened. -/
theorem encodeAll_failsOnly {linked : List LinkedInstruction} (h : code.link pool = .ok linked) :
    FailsOnly code.OverflowsConditionally (Layout.ofLinked linked).encodeAll := by
  refine .mapM fun numbered hmem => ?_
  obtain ⟨final, position⟩ := numbered
  have hfinal : (Layout.ofLinked linked).instructions[position]? = some final :=
    List.mem_zipIdx_iff_getElem?.mp hmem
  refine .bind ?_ fun operand _ => .ok _
  exact (Layout.encodeOperand_failsOnly _ position final).mono
    fun e he => conditional_of_overflowsAt h hfinal he

theorem assemble_failsOnly : FailsOnly code.OverflowsConditionally (code.assemble pool) := by
  have other : ∀ e : Error, NotOverflow e → code.OverflowsConditionally e :=
    fun _ h => overflowsConditionally_of_not h
  have layoutFails : FailsOnly code.OverflowsConditionally (code.layout pool) := by
    refine (link_failsOnly.mono other).bind fun linked _ => ?_
    exact .ite (fun _ => .error (other _ fun _ _ => nofun)) fun _ => .ok _
  refine layoutFails.bind fun layout hlayout => ?_
  obtain ⟨linked, hlinked, rfl, -⟩ := layout_eq_ok.mp hlayout
  refine (encodeAll_failsOnly hlinked).bind fun chunks _ => ?_
  refine ((exceptionTable_failsOnly _).mono other).bind fun table _ => ?_
  exact ((code.attributes.resolve_failsOnly pool).mono other).bind fun attributes _ => .ok _

/-- **Unconditional jumps never overflow.**  Real starts are no further apart than the
greatest ones; a jump left short has a displacement that fits two bytes; and when
assembly fails because a displacement does not fit, it names a conditional branch. -/
theorem unconditional_jumps_reach (code : Code) (pool : Pool) :
    (∀ linked, code.link pool = .ok linked →
      (∀ i j, i ≤ j → j ≤ code.length →
        Layout.displacement (Layout.ofLinked linked).starts i j ≤
          Layout.displacement (Layout.reach linked) i j) ∧
      ∀ position jump, (Layout.ofLinked linked).instructions[position]? = some jump →
        jump.opcode = Opcode.goto ∨ jump.opcode = Opcode.jsr →
        ∃ target, jump.operand = .branch target ∧
          -32768 ≤ Layout.displacement (Layout.ofLinked linked).starts position target ∧
          Layout.displacement (Layout.ofLinked linked).starts position target ≤ 32767) ∧
    ∀ position distance, code.assemble pool = .error (.branchOverflow position distance) →
      ∃ source, code.instructions[position]? = some source ∧ source.opcode.form = .branch ∧
        source.opcode ∉ [Opcode.goto, Opcode.jsr, Opcode.gotoW, Opcode.jsrW] := by
  refine ⟨fun linked h => ⟨fun i j => Layout.displacement_ofLinked_le h, ?_⟩,
    fun position distance h => assemble_failsOnly _ h position distance rfl⟩
  intro position jump hjump hopcode
  obtain ⟨opcode, operand⟩ := jump
  have jumps : opcode.form = .branch ∧ ∃ wide, opcode.widened? = some wide := by
    rcases hopcode with rfl | rfl
    · exact ⟨Opcode.form_goto, Opcode.gotoW, rfl⟩
    · exact ⟨Opcode.form_jsr, Opcode.jsrW, rfl⟩
  obtain ⟨hform, wide, hwide⟩ := jumps
  obtain ⟨target, hoperand⟩ := Layout.operand_of_jump h hjump hform
  obtain rfl : operand = .branch target := hoperand
  exact ⟨target, rfl, Layout.fitsShort_iff.mp (Layout.jump_fits h hjump hwide)⟩

/-- A jump over a return, and a jump back to it. -/
def overAndBack : Code :=
  { Code.empty 1 with
    instructions := #[
      ⟨Opcode.goto, .branch (.position 2)⟩,
      ⟨Opcode.ret, .none⟩,
      ⟨Opcode.goto, .branch (.position 1)⟩] }

/-- `overAndBack` with its targets resolved. -/
def overAndBackLinked : List LinkedInstruction :=
  [⟨Opcode.goto, .branch 2⟩, ⟨Opcode.ret, .none⟩, ⟨Opcode.goto, .branch 1⟩]

/-- The jump back over the return reaches it in two bytes. -/
theorem overAndBack_reach :
    overAndBack.link Pool.empty = .ok overAndBackLinked ∧
      Layout.displacement (Layout.ofLinked overAndBackLinked).starts 0 3 ≤
        Layout.displacement (Layout.reach overAndBackLinked) 0 3 ∧
      ∃ target, Operand.branch 1 = (Operand.branch target : Operand Nat PoolRef) ∧
        -32768 ≤ Layout.displacement (Layout.ofLinked overAndBackLinked).starts 2 target ∧
        Layout.displacement (Layout.ofLinked overAndBackLinked).starts 2 target ≤ 32767 := by
  have linked : overAndBack.link Pool.empty = .ok overAndBackLinked := by decide +kernel
  have jump : (Layout.ofLinked overAndBackLinked).instructions[2]? =
      some ⟨Opcode.goto, .branch 1⟩ := by decide +kernel
  obtain ⟨shorter, reaches⟩ := (unconditional_jumps_reach overAndBack Pool.empty).1 _ linked
  exact ⟨linked, shorter 0 3 (by decide) (by decide), reaches 2 _ jump (.inl rfl)⟩

end Code

end JvmAsm
