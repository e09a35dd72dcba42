import JvmAsm.Proofs.ClassLinks

/-! # What code means

Encoded code is full of numbers that mean nothing by themselves: indices into a pool,
displacements, offsets, and opcodes of which some have a short and a wide form.  Its meaning is
what remains when every index is replaced by the constant it names, every offset by the position
of the instruction that starts there, and wide forms by short ones.

An operand keeps its shape in all of this, so its meaning is an operand again, with positions for
targets and constants for references (`Instruction.meaning?`).  The same function gives the
meaning of instructions under construction, whose targets may be labels and whose references
are entries, and of instructions as they are read, whose targets are displacements and whose
references are indices.  Assembly keeps the meaning (`Code.Framed.shows`): nothing about it depends
on which indices a pool has given out. -/

namespace JvmAsm

open Reader

/-! ## Agreement -/

/-- Both are there, and they are the same. -/
def Agree {γ : Type} (a b : Option γ) : Prop := ∃ c, a = some c ∧ b = some c

namespace Agree

variable {α β γ δ : Type} {a b : Option γ}

theorem of_eq {c : γ} (ha : a = some c) (hb : b = some c) : Agree a b := ⟨c, ha, hb⟩

theorem map (h : Agree a b) (f : γ → δ) : Agree (a.map f) (b.map f) := by
  obtain ⟨c, rfl, rfl⟩ := h
  exact ⟨f c, rfl, rfl⟩

theorem bind {f g : γ → Option δ} (h : Agree a b) (hnext : ∀ c, Agree (f c) (g c)) :
    Agree (a >>= f) (b >>= g) := by
  obtain ⟨c, rfl, rfl⟩ := h
  exact hnext c

theorem mapM {f : α → Option γ} {g : β → Option γ} {as : List α} {bs : List β}
    (h : List.Forall₂ (fun a b => Agree (f a) (g b)) as bs) : Agree (as.mapM f) (bs.mapM g) := by
  induction h with
  | nil => exact ⟨[], rfl, rfl⟩
  | cons head _ ih =>
    rw [List.mapM_cons, List.mapM_cons]
    exact head.bind fun c => ih.bind fun cs => ⟨c :: cs, rfl, rfl⟩

end Agree

/-! ## Instructions -/

/-- The short form of an opcode. -/
def Opcode.narrowed (opcode : Opcode) : Opcode :=
  if opcode = ldcW then ldc
  else if opcode = gotoW then goto
  else if opcode = jsrW then jsr
  else opcode

theorem Opcode.Becomes.narrowed {source final : Opcode} (h : source.Becomes final) :
    final.narrowed = source.narrowed := by
  rcases h with rfl | ⟨rfl, rfl⟩ | ⟨rfl, rfl⟩ | ⟨rfl, rfl⟩
  · rfl
  all_goals decide

section

variable {τ υ κ μ γ δ : Type}

/-- The operand with every target and every reference replaced. -/
def Operand.replace? (place : τ → Option υ) (known : κ → Option μ) :
    Operand τ κ → Option (Operand υ μ)
  | .none => some .none
  | .int value => some (.int value)
  | .constant reference => (known reference).map .constant
  | .branch target => (place target).map .branch
  | .increment index delta => some (.increment index delta)
  | .switch cases => (cases.mapM place).map .switch

/-- What an instruction means, given what its targets and references stand for. -/
def Instruction.meaning? (place : τ → Option Nat) (known : κ → Option ConstantValue)
    (instruction : Instruction τ κ) : Option (Instruction Nat ConstantValue) :=
  (instruction.operand.replace? place known).map (Instruction.mk instruction.opcode.narrowed)

theorem SwitchTable.Related.agree {target : τ → υ → Prop} {place : τ → Option γ}
    {place' : υ → Option γ} (hplace : ∀ t t', target t t' → Agree (place t) (place' t'))
    {cases : SwitchTable τ} {cases' : SwitchTable υ} (h : cases.Related target cases') :
    Agree (cases.mapM place) (cases'.mapM place') := by
  cases cases <;> cases cases' <;> try exact False.elim h
  case table.table low targets fallback low' targets' fallback' =>
    obtain ⟨rfl, hfallback, htargets⟩ := h
    refine (hplace _ _ hfallback).bind fun there => ?_
    exact (Agree.mapM (htargets.imp hplace)).bind fun places => ⟨.table low' places there, rfl, rfl⟩
  case lookup.lookup pairs fallback pairs' fallback' =>
    obtain ⟨hfallback, hpairs⟩ := h
    refine (hplace _ _ hfallback).bind fun there => ?_
    refine (Agree.mapM (hpairs.imp ?_)).bind fun places => ⟨.lookup places there, rfl, rfl⟩
    rintro ⟨key, t⟩ ⟨key', t'⟩ ⟨rfl, ht⟩
    exact (hplace t t' ht).bind fun place => ⟨(key', place), rfl, rfl⟩

/-- **Related operands mean the same**, if related targets and related references do. -/
theorem Operand.Related.agree {target : τ → υ → Prop} {reference : κ → μ → Prop}
    {place : τ → Option γ} {place' : υ → Option γ} {known : κ → Option δ} {known' : μ → Option δ}
    (hplace : ∀ t t', target t t' → Agree (place t) (place' t'))
    (hknown : ∀ r r', reference r r' → Agree (known r) (known' r'))
    {operand : Operand τ κ} {operand' : Operand υ μ}
    (h : operand.Related target reference operand') :
    Agree (operand.replace? place known) (operand'.replace? place' known') := by
  cases operand <;> cases operand' <;> try exact False.elim h
  case none.none => exact ⟨.none, rfl, rfl⟩
  case int.int value value' =>
    obtain rfl : value' = value := h
    exact ⟨.int value', rfl, rfl⟩
  case constant.constant r r' => exact (hknown r r' h).map Operand.constant
  case branch.branch t t' => exact (hplace t t' h).map Operand.branch
  case increment.increment index delta index' delta' =>
    obtain ⟨rfl, rfl⟩ : index' = index ∧ delta' = delta := h
    exact ⟨.increment index' delta', rfl, rfl⟩
  case switch.switch cases cases' =>
    exact (SwitchTable.Related.agree hplace h).map Operand.switch

end

/-! ## Instructions as read -/

/-- The operand as read, with displacements for targets and indices for references. -/
def ReadOperand.plain : ReadOperand → Operand Int Nat
  | .none => .none
  | .number value => .int (Int32.ofInt value)
  | .constant index | .interfaceMethod index _ _ => .constant index
  | .branch displacement => .branch displacement
  | .increment index delta => .increment (UInt32.ofNat index) (Int32.ofInt delta)
  | .tableSwitch fallback low _ displacements =>
    .switch (.table (Int32.ofInt low) displacements fallback)
  | .lookupSwitch fallback pairs =>
    .switch (.lookup (pairs.map fun pair => (Int32.ofInt pair.1, pair.2)) fallback)

/-- The argument slots of an interface method, the receiver included. -/
def ConstantValue.callSlots? : ConstantValue → Option Nat
  | .interfaceMethodRef member =>
    match MethodDescriptor.parse member.nameAndType.descriptor with
    | .ok descriptor => some (1 + (descriptor.parameters.map FieldType.width).sum)
    | .error _ => none
  | _ => none

/-- What a call of an interface method has behind its index is what the descriptor says. -/
def ReadOperand.announces (names : ReadPool) : ReadOperand → Bool
  | .interfaceMethod index count last =>
    (names.value? index).bind ConstantValue.callSlots? == some count && last == 0
  | _ => true

/-- What an instruction as read means, given where displacements lead. -/
def ReadInstruction.meaning? (names : ReadPool) (place : Int → Option Nat)
    (seen : ReadInstruction) :
    Option (Instruction Nat ConstantValue) :=
  if seen.operand.announces names then
    Instruction.meaning? place names.value? ⟨seen.opcode, seen.operand.plain⟩
  else none

theorem Operand.Denotes.related {τ κ : Type} {lands : τ → Int → Prop} {names takes : κ → Nat → Prop}
    {operand : Operand τ κ} {seen : ReadOperand} (h : operand.Denotes lands names takes seen) :
    operand.Related lands names seen.plain := by
  cases operand with
  | switch cases =>
    cases cases <;> cases seen <;> try exact False.elim h
    case table.tableSwitch low targets fallback fallback' low' high displacements =>
      obtain ⟨hfallback, rfl, -, htargets⟩ := h
      exact ⟨Int32.ofInt_toInt low, hfallback, htargets⟩
    case lookup.lookupSwitch pairs fallback fallback' pairs' =>
      obtain ⟨hfallback, hpairs⟩ := h
      refine ⟨hfallback, List.forall₂_map_right_iff.mpr (hpairs.imp ?_)⟩
      rintro pair pair' ⟨hkey, hlands⟩
      exact ⟨by rw [hkey, Int32.ofInt_toInt], hlands⟩
  | none =>
    cases seen <;> try exact False.elim h
    exact h
  | int value =>
    cases seen <;> try exact False.elim h
    case number n =>
      obtain rfl : n = value.toInt := h
      exact Int32.ofInt_toInt value
  | constant reference =>
    cases seen <;> try exact False.elim h
    case constant index => exact h
    case interfaceMethod index count last => exact h.1
  | branch target =>
    cases seen <;> try exact False.elim h
    exact h
  | increment index delta =>
    cases seen <;> try exact False.elim h
    case increment index' delta' =>
      obtain ⟨rfl, rfl⟩ := h
      exact ⟨UInt32.ofNat_toNat, Int32.ofInt_toInt delta⟩

/-! ## Positions -/

/-- The position of what starts at an offset. -/
def positionOf? (starts : List Nat) (offset : Int) : Option Nat :=
  starts.findIdx? fun start : Nat => (start : Int) == offset

theorem positionOf?_of_ascending {starts : List Nat} (ascends : starts.Pairwise (· < ·))
    {position start : Nat} {offset : Int} (hstart : starts[position]? = some start)
    (hoffset : offset = start) : positionOf? starts offset = some position := by
  obtain ⟨bound, rfl⟩ := List.getElem?_eq_some_iff.mp hstart
  subst hoffset
  refine List.findIdx?_eq_some_iff_getElem.mpr ⟨bound, by simp, fun other before => ?_⟩
  have apart :=
    List.pairwise_iff_getElem.mp ascends other position (before.trans bound) bound before
  simp only [beq_iff_eq]
  omega

/-- The starts of all instructions, and then the end of the code. -/
def ReadCode.starts (seen : ReadCode) (read : List (Nat × ReadInstruction)) : List Nat :=
  read.map Prod.fst ++ [seen.code.length]

/-! ## Handlers -/

/-- A handler, by the positions of instructions and the class it catches. -/
structure HandlerMeaning where
  start : Nat
  stop : Nat
  handler : Nat
  /-- Without one, everything is caught. -/
  catchType : Option ConstantValue
  deriving DecidableEq, Repr

/-- What a handler under construction means. -/
def Handler.meaning? (place : Target → Option Nat) (known : Entry → Option ConstantValue)
    (handler : Handler) : Option HandlerMeaning := do
  let start ← place handler.start
  let stop ← place handler.stop
  let target ← place handler.handler
  let catchType ← handler.catchType.mapM known
  return ⟨start, stop, target, catchType⟩

/-- The class at an index that is zero if there is none. -/
def ReadPool.catch? (names : ReadPool) (index : Nat) : Option (Option ConstantValue) :=
  if index = 0 then some none else (names.value? index).map some

/-- What a row of a table of handlers means. -/
def ReadHandler.meaning? (names : ReadPool) (place : Int → Option Nat) (row : ReadHandler) :
    Option HandlerMeaning := do
  let start ← place row.startPc
  let stop ← place row.endPc
  let target ← place row.handlerPc
  let catchType ← names.catch? row.catchType
  return ⟨start, stop, target, catchType⟩

/-! ## Attributes of code -/

/-- What a payload without a format of its own means: the index of a constant stands for the
constant, and bytes for themselves. -/
inductive PlainMeaning where
  | raw (bytes : Bytes)
  | constant (value : ConstantValue)
  deriving DecidableEq, Repr

/-- A payload under its name. -/
structure Titled (π : Type) where
  name : String
  payload : π
  deriving DecidableEq, Repr

/-- What a payload under construction means. -/
def AttributeValue.meaning? (known : Entry → Option ConstantValue) :
    AttributeValue → Option PlainMeaning
  | .bytes info => some (.raw info)
  | .constant entry => (known entry).map .constant

/-- The payload in a file shows the meaning. -/
def PlainMeaning.ShownBy (names : ReadPool) : PlainMeaning → Bytes → Prop
  | .raw bytes, info => info = bytes
  | .constant value, info => PayloadLeads (fun index => names.value? index = some value) info

/-- The attribute in a file has the name, and its payload shows what it should. -/
def Titled.ShownBy {π : Type} (shown : π → Bytes → Prop) (names : ReadPool)
    (meaning : Titled π) (seen : ReadAttribute) : Prop :=
  names.text? seen.name = some meaning.name ∧ shown meaning.payload seen.info

/-! ## Code -/

/-- **The meaning of code.** -/
structure CodeMeaning where
  maxStack : Nat
  maxLocals : Nat
  instructions : List (Instruction Nat ConstantValue)
  handlers : List HandlerMeaning
  attributes : List (Titled PlainMeaning)
  deriving DecidableEq, Repr

/-- The position a target stands for. -/
def Code.place? (code : Code) (target : Target) : Option Nat := (code.resolve target).toOption

/-- What code under construction means, given what entries stand for. -/
def Code.meaning? (known : Entry → Option ConstantValue) (code : Code) : Option CodeMeaning := do
  let instructions ← code.instructions.toList.mapM (Instruction.meaning? code.place? known)
  let handlers ← code.handlers.toList.mapM (Handler.meaning? code.place? known)
  let attributes ← code.attributes.entries.mapM fun named =>
    (named.value.meaning? known).map (Titled.mk named.name)
  return ⟨code.maxStack.toNat, code.maxLocals.toNat, instructions, handlers, attributes⟩

namespace ReadCode

/-- What the instructions of code as read mean. -/
def instructions? (names : ReadPool) (seen : ReadCode) :
    Option (List (Instruction Nat ConstantValue)) := do
  let read ← readCode seen.code
  read.mapM fun numbered => numbered.2.meaning? names fun displacement =>
    positionOf? (seen.starts read) (numbered.1 + displacement)

/-- What the table of handlers of code as read means. -/
def handlers? (names : ReadPool) (seen : ReadCode) : Option (List HandlerMeaning) := do
  let read ← readCode seen.code
  seen.handlers.mapM (ReadHandler.meaning? names (positionOf? (seen.starts read)))

/-- **The code in a file shows the meaning.** -/
structure Shows (names : ReadPool) (seen : ReadCode) (meaning : CodeMeaning) : Prop where
  maxStack : seen.maxStack = meaning.maxStack
  maxLocals : seen.maxLocals = meaning.maxLocals
  instructions : seen.instructions? names = some meaning.instructions
  handlers : seen.handlers? names = some meaning.handlers
  attributes : List.Forall₂ (Titled.ShownBy (PlainMeaning.ShownBy names) names)
    meaning.attributes seen.attributes

end ReadCode

/-! ## What the pool knows -/

/-- What an entry stands for. -/
def Pool.known (pool : Pool) (entry : Entry) : Option ConstantValue :=
  (pool.constant? entry).map Constant.value

section

variable {pool : Pool} (hpool : pool.Invariant) (settled : pool.state ≠ .growing)

include hpool settled

theorem Pool.Indexes.agree {entry : Entry} {index : Nat} (h : pool.Indexes entry index) :
    Agree (pool.known entry) (pool.asRead.value? index) := by
  obtain ⟨constant, present⟩ := h.exists_constant?
  refine .of_eq ?_ (h.leads hpool settled present)
  rw [known, present, Option.map_some]

theorem Pool.IndexesCatch.agree {catchType : Option Entry} {index : Nat}
    (h : pool.IndexesCatch catchType index) :
    Agree (catchType.mapM pool.known) (pool.asRead.catch? index) := by
  unfold ReadPool.catch?
  cases catchType with
  | none =>
    obtain rfl : index = 0 := h
    exact ⟨none, rfl, rfl⟩
  | some entry =>
    have indexed : pool.Indexes entry index := h
    rw [if_neg (indexed.ne_zero hpool settled)]
    obtain ⟨value, known, read⟩ := indexed.agree hpool settled
    exact ⟨some value, by rw [Option.mapM_some, known]; rfl, by rw [read]; rfl⟩

/-- A call of an interface method announces the slots of its descriptor. -/
theorem Operand.Denotes.announces {τ : Type} {lands : τ → Int → Prop} {operand : Operand τ Entry}
    {seen : ReadOperand} (h : operand.Denotes lands pool.Indexes pool.CallTakes seen) :
    seen.announces pool.asRead = true := by
  cases operand with
  | constant entry =>
    cases seen <;> try rfl
    case interfaceMethod index count last =>
      obtain ⟨indexed, ⟨member, descriptor, present, hparse, rfl⟩, rfl⟩ := h
      have read : pool.asRead.value? index = some _ := indexed.leads hpool settled present
      simp [ReadOperand.announces, read, Constant.value, ConstantValue.callSlots?, hparse]
  | switch cases => cases cases <;> cases seen <;> first | rfl | exact False.elim h
  | none | int | branch | increment => cases seen <;> first | rfl | exact False.elim h

end

namespace Code

variable {code : Code} {pool : Pool} {layout : Layout} {chunks : List Bytes} {seen : ReadCode}
  {read : List (Nat × ReadInstruction)}

theorem place?_of_resolve {target : Target} {place : Nat} (h : code.resolve target = .ok place) :
    code.place? target = some place := by
  rw [place?, h]
  rfl

/-! ## Offsets -/

/-- Where the instructions of encoded code were read, and where the code ends. -/
structure LaidOut (code : Code) (layout : Layout) (starts : List Nat) : Prop where
  starts : starts = (List.range (code.length + 1)).map layout.start
  ascends : ∀ i j, i < j → j ≤ code.length → layout.start i < layout.start j

theorem LaidOut.positionOf? {starts : List Nat} (h : code.LaidOut layout starts) {position : Nat}
    (inside : position ≤ code.length) {offset : Int} (hoffset : offset = layout.start position) :
    JvmAsm.positionOf? starts offset = some position := by
  refine positionOf?_of_ascending ?_ ?_ hoffset
  · rw [h.starts, List.pairwise_map]
    refine List.pairwise_lt_range.imp_of_mem fun _ hj before => h.ascends _ _ before ?_
    exact Nat.lt_succ_iff.mp (List.mem_range.mp hj)
  · have listed : position < code.length + 1 := Nat.lt_succ_iff.mpr inside
    rw [h.starts, List.getElem?_map, List.getElem?_range listed, Option.map_some]

theorem laidOut_starts (hlayout : code.layout pool = .ok layout)
    (hchunks : layout.encodeAll = .ok chunks) (hcode : seen.code = chunks.flatten)
    (count : read.length = code.length)
    (each : ∀ position < code.length, ∃ instruction,
      read[position]? = some (layout.start position, instruction)) :
    code.LaidOut layout (seen.starts read) := by
  refine ⟨?_, fun i j hij hj => start_lt_start hlayout hchunks hij hj⟩
  have befores : read.map Prod.fst = (List.range code.length).map layout.start := by
    refine List.ext_getElem (by simp [count]) fun position before _ => ?_
    rw [List.length_map, count] at before
    obtain ⟨instruction, here⟩ := each position before
    obtain ⟨_, here⟩ := List.getElem?_eq_some_iff.mp here
    rw [List.getElem_map, List.getElem_map, List.getElem_range, here]
  rw [ReadCode.starts, befores, hcode, ← start_length hlayout hchunks, List.range_succ,
    List.map_append, List.map_singleton]

variable (hpool : pool.Invariant) (settled : pool.state ≠ .growing) {starts : List Nat}

include hpool settled

/-! ## Instructions and handlers -/

/-- **An instruction means the same as what is read for it.** -/
theorem ReadsAs.agree {position : Nat} {instruction : ReadInstruction} {source : SourceInstruction}
    (laidOut : code.LaidOut layout starts) (h : code.ReadsAs pool layout position instruction)
    (hsource : code.instructions[position]? = some source) :
    Agree (source.meaning? code.place? pool.known)
      (instruction.meaning? pool.asRead fun displacement =>
        JvmAsm.positionOf? starts (layout.start position + displacement)) := by
  obtain ⟨becomes, denotes⟩ := h.denotes hsource
  have operands : Agree (source.operand.replace? code.place? pool.known)
      (instruction.operand.plain.replace?
        (fun displacement => JvmAsm.positionOf? starts (layout.start position + displacement))
        pool.asRead.value?) := by
    refine denotes.related.agree ?_ fun entry index indexed => indexed.agree hpool settled
    rintro target displacement ⟨place, htarget, lands⟩
    obtain ⟨hresolve, inside⟩ := branchTarget_eq_ok.mp htarget
    exact .of_eq (place?_of_resolve hresolve) (laidOut.positionOf? inside.le lands)
  unfold ReadInstruction.meaning? Instruction.meaning?
  rw [if_pos (denotes.announces hpool settled), becomes.narrowed]
  exact operands.map _

/-- All instructions, one by one. -/
theorem agree_instructions (laidOut : code.LaidOut layout (seen.starts read))
    (hread : readCode seen.code = some read) (count : read.length = code.length)
    (each : ∀ position < code.length, ∃ instruction,
      read[position]? = some (layout.start position, instruction) ∧
        code.ReadsAs pool layout position instruction) :
    Agree (code.instructions.toList.mapM (Instruction.meaning? code.place? pool.known))
      (seen.instructions? pool.asRead) := by
  rw [ReadCode.instructions?, hread]
  refine Agree.mapM (List.forall₂_iff_get.mpr ⟨by rw [count, Array.length_toList]; rfl, ?_⟩)
  intro position hsource hseen
  obtain ⟨instruction, hinstruction, readsAs⟩ := each position (count ▸ hseen)
  obtain ⟨_, same⟩ := List.getElem?_eq_some_iff.mp hinstruction
  rw [List.get_eq_getElem, List.get_eq_getElem, same]
  refine readsAs.agree hpool settled laidOut ?_
  rw [← Array.getElem?_toList]
  exact List.getElem?_eq_getElem hsource

/-- **A handler means the same as its row.** -/
theorem agree_handlerRow {handler : Handler} {row : ExceptionHandler}
    (laidOut : code.LaidOut layout starts) (short : layout.start code.length ≤ 65535)
    (h : code.handlerRow pool layout handler = .ok row) :
    Agree (handler.meaning? code.place? pool.known)
      (row.asRead.meaning? pool.asRead (JvmAsm.positionOf? starts)) := by
  obtain ⟨start, stop, target, hstart, hstop, range, inside, htarget, catches, atStart, atStop,
    atTarget⟩ := handlerRow_eq_ok h
  obtain ⟨hresolve, hlt⟩ := branchTarget_eq_ok.mp htarget
  -- Offsets are written in two bytes, and the code is no longer than these can count.
  have there (position : Nat) (hle : position ≤ code.length) :
      JvmAsm.positionOf? starts (UInt16.ofNat (layout.start position)).toNat = some position := by
    refine laidOut.positionOf? hle ?_
    have near : layout.start position ≤ layout.start code.length := by
      rcases Nat.lt_or_eq_of_le hle with before | rfl
      · exact (laidOut.ascends _ _ before (Nat.le_refl _)).le
      · exact Nat.le_refl _
    rw [UInt16.toNat_ofNat_of_lt' (Nat.lt_succ_of_le (near.trans short))]
  unfold Handler.meaning? ReadHandler.meaning? ExceptionHandler.asRead
  dsimp only
  rw [atStart, atStop, atTarget, there start (range.le.trans inside), there stop inside,
    there target hlt.le, place?_of_resolve hstart, place?_of_resolve hstop,
    place?_of_resolve hresolve]
  exact (catches.agree hpool settled).bind fun catchType => .of_eq rfl rfl

end Code

/-! ## Attributes -/

/-- Values found one by one, each related to an element of another list. -/
theorem exists_mapM_of_forall₂ {α β γ : Type} {f : α → Option γ} {R : γ → β → Prop} {as : List α}
    {bs : List β} (h : List.Forall₂ (fun a b => ∃ c, f a = some c ∧ R c b) as bs) :
    ∃ cs, as.mapM f = some cs ∧ List.Forall₂ R cs bs := by
  induction h with
  | nil => exact ⟨[], rfl, .nil⟩
  | cons head _ ih =>
    obtain ⟨c, hc, related⟩ := head
    obtain ⟨cs, hcs, all⟩ := ih
    exact ⟨c :: cs, by rw [List.mapM_cons, hc, hcs]; rfl, .cons related all⟩

section

variable {pool : Pool} (hpool : pool.Invariant) (settled : pool.state ≠ .growing)

include hpool settled

/-- A payload shows what it was given. -/
theorem AttributeValue.exists_shown {value : AttributeValue} {info : Bytes}
    (h : Attributes.payload pool value = .ok info) :
    ∃ meaning, value.meaning? pool.known = some meaning ∧ meaning.ShownBy pool.asRead info := by
  cases value with
  | bytes given =>
    obtain rfl := Except.ok.inj h
    exact ⟨.raw given, rfl, rfl⟩
  | constant entry =>
    obtain ⟨index, hindex, rfl⟩ := Attributes.payload_constant_eq_ok.mp h
    have indexed : pool.Indexes entry index.toNat := ⟨index, hindex, rfl⟩
    obtain ⟨value, known, read⟩ := indexed.agree hpool settled
    refine ⟨.constant value, ?_, index.toNat, (reads_uint16 index).whole, read⟩
    rw [AttributeValue.meaning?, known, Option.map_some]

/-- The attributes in a file show what was given, in its order. -/
theorem Attributes.Framed.exists_shown {attributes : Attributes} {seen : List ReadAttribute}
    (h : attributes.Framed pool seen) (sound : attributes.Sound pool) :
    ∃ listed, (attributes.entries.mapM fun named =>
        (named.value.meaning? pool.known).map (Titled.mk named.name)) = some listed ∧
      List.Forall₂ (Titled.ShownBy (PlainMeaning.ShownBy pool.asRead) pool.asRead) listed seen := by
  refine exists_mapM_of_forall₂ (((List.forall₂_and_left _ _).mpr ⟨sound.named, h⟩).imp ?_)
  rintro named found ⟨present, indexed, payload⟩
  obtain ⟨meaning, known, shown⟩ := AttributeValue.exists_shown hpool settled payload
  refine ⟨⟨named.name, meaning⟩, ?_, indexed.text? hpool settled present, shown⟩
  rw [known, Option.map_some]

/-- **Assembly keeps the meaning of code.**  What is read from assembled code, with the pool that
was written, shows what the code means. -/
theorem Code.Framed.shows {code : Code} {seen : ReadCode} (h : code.Framed pool seen)
    (sound : code.attributes.Sound pool) :
    ∃ meaning, code.meaning? pool.known = some meaning ∧ seen.Shows pool.asRead meaning := by
  obtain ⟨layout, chunks, hlayout, hchunks, hcode, rows⟩ := h.body
  obtain ⟨read, hread, count, each⟩ := exists_read hlayout hchunks
  rw [← hcode] at hread
  have laidOut : code.LaidOut layout (seen.starts read) :=
    laidOut_starts hlayout hchunks hcode count fun position inside =>
      (each position inside).imp fun _ => And.left
  have short : layout.start code.length ≤ 65535 := by
    rw [start_length hlayout hchunks]
    exact length_flatten_le hlayout hchunks
  have instructions := agree_instructions hpool settled laidOut hread count each
  have handlers : Agree (code.handlers.toList.mapM (Handler.meaning? code.place? pool.known))
      (seen.handlers? pool.asRead) := by
    rw [ReadCode.handlers?, hread]
    refine Agree.mapM (rows.imp ?_)
    rintro handler _ ⟨row, hrow, rfl⟩
    exact agree_handlerRow hpool settled laidOut short hrow
  obtain ⟨meant, hmeant, shown⟩ := instructions
  obtain ⟨caught, hcaught, shownRows⟩ := handlers
  obtain ⟨listed, hlisted, shownAttributes⟩ := h.attributes.exists_shown hpool settled sound
  refine ⟨⟨code.maxStack.toNat, code.maxLocals.toNat, meant, caught, listed⟩, ?_,
    h.maxStack, h.maxLocals, shown, shownRows, shownAttributes⟩
  rw [Code.meaning?, hmeant, hcaught, hlisted]
  rfl

end

end JvmAsm
