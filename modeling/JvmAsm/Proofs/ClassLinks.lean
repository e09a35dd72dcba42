import JvmAsm.Proofs.ClassRoundTrip
import JvmAsm.Proofs.OperandKinds

/-! # Every index in a class file leads to what was asked for

A class file is held together by indices into the pool at its head.  They come from
different times.  Those in code, in tables of handlers and in lists of exceptions were
looked up when a method was finalized, while the pool still took the names of further
attributes; the others are looked up as the file is written.  Entries keep their
indices once they have them, so it is enough that every index in the file is the one
that the pool that is written has for an entry (`Pool.Indexes`).  What the entry was
asked to stand for is known from the edits the class accepted.

`ReadClass.Links` says where the indices of a file lead, all of them, in terms of the
edits and of the constants as a reader resolves them.  `class_file_links` proves it of
every class that is written for the first time. -/

namespace JvmAsm

open Reader

/-! ## Where an index leads -/

/-- The index leads to the constant. -/
def ReadPool.Leads (names : ReadPool) (constant : Constant) (index : Nat) : Prop :=
  names.value? index = some constant.value

/-- The index leads to the constant of the entry. -/
def ReadPool.LeadsTo (names : ReadPool) (pool : Pool) (entry : Entry) (index : Nat) : Prop :=
  ∃ constant, pool.constant? entry = some constant ∧ names.Leads constant index

/-- The payload is a single index, and it leads where it should. -/
def PayloadLeads (leads : Nat → Prop) (info : Bytes) : Prop :=
  ∃ index, (unsigned 2).whole info = some index ∧ leads index

/-- The class a row of a table of handlers names is the one to be caught; zero stands for
everything. -/
def Catch.Shown (names : ReadPool) (pool : Pool) : Catch → Nat → Prop
  | everything, index => index = 0
  | named name, index => index ≠ 0 ∧ names.Leads (.classNamed name) index
  | held entry, index => index ≠ 0 ∧ names.LeadsTo pool entry index

/-- The number in a row for the class a handler catches. -/
def Pool.IndexesCatch (pool : Pool) : Option Entry → Nat → Prop
  | some entry, index => pool.Indexes entry index
  | none, index => index = 0

section

variable {pool : Pool} (hpool : pool.Invariant) (settled : pool.state ≠ .growing)
  {entry : Entry} {index : Nat} {constant : Constant}

include hpool settled

/-- A constant that is there is found at its position. -/
theorem Pool.leads_position (present : ∃ entry, pool.constant? entry = some constant) :
    pool.asRead.Leads constant (pool.position constant) := by
  obtain ⟨entry, present⟩ := present
  rw [ReadPool.Leads, ReadPool.value?, constant?_asRead hpool settled present]
  exact resolve?_written hpool settled present

namespace Pool.Indexes

/-- An entry has one index, the position of its constant. -/
theorem eq_position (h : pool.Indexes entry index)
    (present : pool.constant? entry = some constant) :
    index = pool.position constant := by
  obtain ⟨i, hindex, rfl⟩ := h
  exact (position_of_index hpool settled present hindex).symm

theorem leads (h : pool.Indexes entry index) (present : pool.constant? entry = some constant) :
    pool.asRead.Leads constant index := by
  rw [h.eq_position hpool settled present]
  exact leads_position hpool settled ⟨entry, present⟩

omit hpool settled in
theorem exists_constant? (h : pool.Indexes entry index) :
    ∃ constant, pool.constant? entry = some constant := by
  obtain ⟨i, hindex, -⟩ := h
  exact exists_constant?_of_index hindex

theorem leadsTo (h : pool.Indexes entry index) : pool.asRead.LeadsTo pool entry index := by
  obtain ⟨constant, present⟩ := h.exists_constant?
  exact ⟨constant, present, h.leads hpool settled present⟩

/-- Index 0 belongs to no constant. -/
theorem ne_zero (h : pool.Indexes entry index) : index ≠ 0 := by
  obtain ⟨constant, present⟩ := h.exists_constant?
  rw [h.eq_position hpool settled present]
  have low := (position_bounds hpool settled present).1
  omega

end Pool.Indexes

/-- What a handler was asked to catch is what its row names. -/
theorem Catch.Means.shown {asked : Catch} {catchType : Option Entry}
    (means : asked.Means pool catchType) (row : pool.IndexesCatch catchType index) :
    asked.Shown pool.asRead pool index := by
  cases asked with
  | everything =>
    obtain rfl : catchType = none := means
    exact row
  | named name =>
    obtain ⟨entry, rfl, hclass⟩ := means
    have row : pool.Indexes entry index := row
    exact ⟨row.ne_zero hpool settled, row.leads hpool settled hclass⟩
  | held entry =>
    obtain rfl : catchType = some entry := means
    have row : pool.Indexes entry index := row
    exact ⟨row.ne_zero hpool settled, row.leadsTo hpool settled⟩

theorem Attributes.payloadLeads {info : Bytes} (h : payload pool (.constant entry) = .ok info) :
    PayloadLeads (pool.asRead.LeadsTo pool entry) info := by
  obtain ⟨i, hindex, rfl⟩ := payload_constant_eq_ok.mp h
  have indexed : pool.Indexes entry i.toNat := ⟨i, hindex, rfl⟩
  exact ⟨i.toNat, (reads_uint16 i).whole, indexed.leadsTo hpool settled⟩

end

theorem PayloadLeads.imp {leads leads' : Nat → Prop} {info : Bytes} (h : PayloadLeads leads info)
    (step : ∀ index, leads index → leads' index) : PayloadLeads leads' info := by
  obtain ⟨index, read, there⟩ := h
  exact ⟨index, read, step index there⟩

theorem ReadPool.LeadsTo.leads {names : ReadPool} {pool : Pool} {entry : Entry} {index : Nat}
    {constant : Constant} (h : names.LeadsTo pool entry index)
    (present : pool.constant? entry = some constant) : names.Leads constant index := by
  obtain ⟨other, hother, there⟩ := h
  obtain rfl : constant = other := Option.some.inj (present.symm.trans hother)
  exact there

/-! ## Operands -/

/-- The index in an operand. -/
def ReadOperand.index? : ReadOperand → Option Nat
  | .constant index | .interfaceMethod index _ _ => some index
  | _ => Option.none

/-- **An instruction as read refers to what was asked for**: its operand has an index if it was
given an entry, and the index leads to the constant of that entry, which is of a kind that the
opcode in the file takes. -/
def ReadInstruction.Refers (names : ReadPool) (pool : Pool) (source : SourceInstruction)
    (seen : ReadInstruction) : Prop :=
  match source.operand with
  | .constant entry => ∃ index found, seen.operand.index? = some index ∧
      names.LeadsTo pool entry index ∧ names.constant? index = some found ∧
      found.tag ∈ operandTags seen.opcode.toNat
  | _ => seen.operand.index? = none

namespace Opcode

/-- A load has the same constants in both its forms. -/
theorem Becomes.tags {source final : Opcode} (h : source.Becomes final) {tag : Nat}
    (htag : tag ∈ operandTags source.toNat) : tag ∈ operandTags final.toNat := by
  rcases h with rfl | ⟨rfl, rfl⟩ | ⟨rfl, rfl⟩ | ⟨rfl, rfl⟩
  · exact htag
  · cases htag
  · cases htag
  · exact htag

end Opcode

namespace Code

variable {code : Code} {pool : Pool} {position : Nat}

attribute [local irreducible] Opcode.form

theorem suits_of_linkAt {opcode : Opcode} {entry : Entry} {linked : LinkedInstruction}
    (h : code.linkAt pool position ⟨opcode, .constant entry⟩ = .ok linked) :
    ∃ constant, pool.constant? entry = some constant ∧ opcode.suits constant = true := by
  cases (linksTo_of_linkAt h).2 with
  | @constant _ reference known =>
    obtain ⟨refers, suits⟩ := linkConstant_eq_ok known
    exact ⟨reference.constant, refers.1, suits⟩

/-- An instruction was linked only to a constant of a kind it takes. -/
theorem suits_of_link {linked : List LinkedInstruction} (h : code.link pool = .ok linked)
    {opcode : Opcode} {entry : Entry}
    (hsource : code.instructions[position]? = some ⟨opcode, .constant entry⟩) :
    ∃ constant, pool.constant? entry = some constant ∧ opcode.suits constant = true := by
  have hlist : code.instructions.toList[position]? = some ⟨opcode, .constant entry⟩ := by
    rwa [Array.getElem?_toList]
  obtain ⟨instruction, -, hlink⟩ := Check.getElem?_of_mapM_zipIdx h hlist
  exact suits_of_linkAt hlink

/-- An operand as read has the index of the entry it was given. -/
theorem index?_of_readsAs {layout : Layout} {seen : ReadInstruction} {source : SourceInstruction}
    (h : code.ReadsAs pool layout position seen)
    (hsource : code.instructions[position]? = some source) :
    source.opcode.Becomes seen.opcode ∧
      match source.operand with
      | .constant entry => ∃ index, seen.operand.index? = some index ∧ pool.Indexes entry index
      | _ => seen.operand.index? = none := by
  obtain ⟨becomes, denotes⟩ := h.denotes hsource
  refine ⟨becomes, ?_⟩
  obtain ⟨opcode, operand⟩ := source
  obtain ⟨seenOpcode, seenOperand⟩ := seen
  -- The operand keeps its shape from the source to the file.
  cases operand with
  | constant entry =>
    cases seenOperand <;> try exact False.elim denotes
    case constant index => exact ⟨index, rfl, denotes⟩
    case interfaceMethod index count last => exact ⟨index, rfl, denotes.1⟩
  | switch cases => cases cases <;> cases seenOperand <;> first | rfl | exact False.elim denotes
  | none | int | branch | increment => cases seenOperand <;> first | rfl | exact False.elim denotes

/-- **Every index in assembled code leads to the constant of its entry**, and the opcode before it
takes constants of that kind. -/
theorem Framed.refers {seen : ReadCode} (hpool : pool.Invariant) (settled : pool.state ≠ .growing)
    (h : code.Framed pool seen) :
    ∃ read, readCode seen.code = some read ∧
      List.Forall₂ (fun source instruction => instruction.2.Refers pool.asRead pool source)
        code.instructions.toList read := by
  obtain ⟨layout, chunks, hlayout, hchunks, hcode, -⟩ := h.body
  obtain ⟨linked, hlinked, -, -⟩ := layout_eq_ok.mp hlayout
  obtain ⟨read, hread, count, hall⟩ := exists_read hlayout hchunks
  rw [← hcode] at hread
  refine ⟨read, hread, List.forall₂_iff_get.mpr ⟨?_, ?_⟩⟩
  · rw [count, Array.length_toList]
    rfl
  · intro position hsource hseen
    obtain ⟨seen', hseen', readsAs⟩ := hall position (count ▸ hseen)
    obtain ⟨_, same⟩ := List.getElem?_eq_some_iff.mp hseen'
    rw [List.get_eq_getElem, List.get_eq_getElem, same]
    have here : code.instructions[position]? = some code.instructions.toList[position] := by
      rw [← Array.getElem?_toList]
      exact List.getElem?_eq_getElem hsource
    generalize code.instructions.toList[position] = source at here
    obtain ⟨becomes, indexed⟩ := index?_of_readsAs readsAs here
    obtain ⟨opcode, operand⟩ := source
    cases operand with
    | constant entry =>
      obtain ⟨index, hindex, indexed⟩ := indexed
      obtain ⟨constant, present, suits⟩ := suits_of_link hlinked here
      refine ⟨index, pool.written constant, hindex, indexed.leadsTo hpool settled, ?_, ?_⟩
      · rw [indexed.eq_position hpool settled present]
        exact Pool.constant?_asRead hpool settled present
      · -- The check was made for the opcode of the source, which may have been widened since.
        rw [Pool.tag_written]
        refine becomes.tags ?_
        exact (Opcode.suits_iff _ _).mp suits
    | none | int | branch | increment | switch => exact indexed

/-- What a row of the table of handlers says. -/
theorem handlerRow_eq_ok {layout : Layout} {handler : Handler} {row : ExceptionHandler}
    (h : code.handlerRow pool layout handler = .ok row) :
    ∃ start stop target, code.resolve handler.start = .ok start ∧
      code.resolve handler.stop = .ok stop ∧ start < stop ∧ stop ≤ code.length ∧
      code.branchTarget start handler.handler = .ok target ∧
      pool.IndexesCatch handler.catchType row.catchType.toNat ∧
      row.startPc = UInt16.ofNat (layout.start start) ∧
      row.endPc = UInt16.ofNat (layout.start stop) ∧
      row.handlerPc = UInt16.ofNat (layout.start target) := by
  obtain ⟨start, hstart, h⟩ := Check.bind_eq_ok.mp h
  obtain ⟨stop, hstop, h⟩ := Check.bind_eq_ok.mp h
  split at h
  · rename_i range
    obtain ⟨target, htarget, h⟩ := Check.bind_eq_ok.mp h
    refine ⟨start, stop, target, hstart, hstop, range.1, range.2, htarget, ?_⟩
    cases hasked : handler.catchType with
    | none =>
      rw [hasked] at h
      obtain rfl := Check.pure_eq_ok.mp h
      exact ⟨rfl, rfl, rfl, rfl⟩
    | some entry =>
      rw [hasked] at h
      obtain ⟨catchType, hcatch, h⟩ := Check.bind_eq_ok.mp h
      obtain rfl := Check.pure_eq_ok.mp h
      exact ⟨⟨catchType, hcatch, rfl⟩, rfl, rfl, rfl⟩
  · cases h

end Code

/-! ## The file -/

/-- The indices in attributes: of their names, and in payloads that are the index of a constant. -/
def Attributes.Link (names : ReadPool) (pool : Pool) (attributes : Attributes) :
    List ReadAttribute → Prop :=
  List.Forall₂ (fun named seen => names.Leads (.utf8 named.name) seen.name ∧
    ∀ entry, named.value = .constant entry → PayloadLeads (names.LeadsTo pool entry) seen.info)
    attributes.entries

/-- **The indices in the payload of code**: in operands, in the table of handlers and in the
attributes of the code. -/
structure ReadCode.Links (names : ReadPool) (pool : Pool) (asked : List Method.Edit) (code : Code)
    (seen : ReadCode) : Prop where
  operands : ∃ read, readCode seen.code = some read ∧
    List.Forall₂ (fun source instruction => instruction.2.Refers names pool source)
      code.instructions.toList read
  catches : List.Forall₂ (fun asked row => asked.Shown names pool row.catchType)
    (asked.filterMap Method.Edit.catch?) seen.handlers
  attributes : code.attributes.Link names pool seen.attributes

/-- The indices of a field, against the edits of the field that were accepted. -/
structure Field.Links (names : ReadPool) (asked : List Edit) (field : Field) (seen : ReadMember) :
    Prop where
  name : names.Leads (.utf8 field.name.text) seen.name
  descriptor : names.Leads (.utf8 field.type.render) seen.descriptor
  /-- The initial value is the one that was set last. -/
  value : ∀ constant, (asked.filterMap Edit.constant?).getLast? = some constant → ∃ info,
    names.attribute? seen.attributes constantValueName = some info ∧
      PayloadLeads (names.Leads constant) info

/-- The indices of a method, against the edits of the method that were accepted. -/
structure Method.Links (names : ReadPool) (pool : Pool) (asked : List Edit) (method : Method)
    (seen : ReadMember) : Prop where
  name : names.Leads (.utf8 method.name.text) seen.name
  descriptor : names.Leads (.utf8 method.descriptor.render) seen.descriptor
  /-- The exceptions are those declared, each once, in the order of their first declaration. -/
  throws : asked.filterMap Edit.throws? ≠ [] → ∃ info indices,
    names.attribute? seen.attributes exceptionsName = some info ∧
      (counted (unsigned 2)).whole info = some indices ∧
      List.Forall₂ (fun exception => names.Leads (.classNamed exception))
        (asked.filterMap Edit.throws?).eraseDups indices
  code : ∀ code, method.code = some code → ∃ payload : ReadCode,
    names.attribute? seen.attributes codeName = some payload.bytes ∧
      payload.Links names pool asked code

/-- **Every index in the file leads to what was asked for.**  `log` holds the edits of the class
that were accepted, `built` is the class before it was written, and `final` after. -/
structure ReadClass.Links (seen : ReadClass) (log : List Class.Edit) (built final : Class) :
    Prop where
  closed : seen.pool.Closed
  thisClass : seen.pool.Leads (.classNamed built.name) seen.thisClass
  superClass : seen.pool.Leads (.classNamed built.superName) seen.superClass
  interfaces : List.Forall₂ (fun name => seen.pool.Leads (.classNamed name))
    built.interfaces seen.interfaces
  fields : List.Forall₂ (fun (field, index) => field.Links seen.pool (Class.fieldEdits log index))
    built.fields.toList.zipIdx seen.fields
  methods : List.Forall₂ (fun (method, index) =>
    method.Links seen.pool final.pool (Class.methodEdits log index))
    built.methods.toList.zipIdx seen.methods
  attributes : final.attributes.Link seen.pool final.pool seen.attributes
  inFields : List.Forall₂ (fun field member =>
    field.attributes.Link seen.pool final.pool member.attributes) final.fields.toList seen.fields
  inMethods : List.Forall₂ (fun method member =>
    method.attributes.Link seen.pool final.pool member.attributes) final.methods.toList seen.methods
  source : ∀ file, built.sourceFile = some file →
    built.attributes.contains sourceFileName = false → ∃ info,
      seen.pool.attribute? seen.attributes sourceFileName = some info ∧
        PayloadLeads (seen.pool.Leads (.utf8 file)) info

section

variable {pool : Pool} (hpool : pool.Invariant) (settled : pool.state ≠ .growing)

include hpool settled

theorem Attributes.Framed.link {attributes : Attributes} {seen : List ReadAttribute}
    (h : attributes.Framed pool seen) (sound : attributes.Sound pool) :
    attributes.Link pool.asRead pool seen := by
  refine ((List.forall₂_and_left _ _).mpr ⟨sound.named, h⟩).imp ?_
  rintro named read ⟨present, index, info⟩
  refine ⟨index.leads hpool settled present, fun entry hentry => ?_⟩
  rw [hentry] at info
  exact payloadLeads hpool settled info

/-- The rows of handlers name the classes that were asked for, by edit. -/
theorem Code.Framed.links {code : Code} {seen : ReadCode} {asked : List Method.Edit}
    (h : code.Framed pool seen) (sound : code.attributes.Sound pool)
    (catches : List.Forall₂ (Catch.Means pool) (asked.filterMap Method.Edit.catch?)
      (code.handlers.toList.map Handler.catchType)) :
    seen.Links pool.asRead pool asked code where
  operands := h.refers hpool settled
  catches := by
    obtain ⟨layout, chunks, -, -, -, rows⟩ := h.body
    refine forall₂_trans ?_ (List.forall₂_map_right_iff.mp catches) rows
    rintro asked handler _ means ⟨row, hrow, rfl⟩
    obtain ⟨_, _, _, -, -, -, -, -, catchType, -⟩ := handlerRow_eq_ok hrow
    exact means.shown hpool settled catchType
  attributes := h.attributes.link hpool settled sound

theorem Field.Finished.links {built final : Field} {asked : List Field.Edit} {seen : ReadMember}
    (finished : built.Finished pool final) (reflects : built.Reflects pool asked)
    (framed : final.Framed pool seen) : built.Links pool.asRead asked seen := by
  -- Attributes are those of the finished field, all else is as it was built.
  have attributes := framed.attributes
  rw [Field.Framed, finished.same] at framed
  refine ⟨framed.name.leads hpool settled reflects.name,
    framed.descriptor.leads hpool settled reflects.type, ?_⟩
  intro constant last
  have value := reflects.value
  rw [last] at value
  obtain ⟨entry, hentry, present⟩ := Option.map_eq_some_iff.mp value
  have generated := finished.generated
  rw [hentry] at generated
  obtain ⟨info, hinfo, hpayload⟩ :=
    attributes.attribute? hpool settled finished.attributes generated.get?_self
  refine ⟨info, hinfo, (Attributes.payloadLeads hpool settled hpayload).imp ?_⟩
  intro index there
  exact there.leads present

/-- Exceptions, code and handlers of a method lead to what its own edits asked for. -/
theorem Method.Finished.links {built final : Method} {asked : List Method.Edit} {seen : ReadMember}
    (finished : built.Finished pool final) (reflects : built.Reflects pool asked)
    (framed : final.Framed pool seen) : built.Links pool.asRead pool asked seen := by
  have attributes := framed.attributes
  rw [Method.Framed, finished.same] at framed
  refine ⟨framed.name.leads hpool settled reflects.name,
    framed.descriptor.leads hpool settled reflects.descriptor, ?_, ?_⟩
  · intro some_declared
    have declared := reflects.throws
    have nonempty : built.throws ≠ [] := by
      intro none_declared
      rw [none_declared] at declared
      have erased := List.map_eq_nil_iff.mp (List.map_eq_nil_iff.mp declared.symm)
      exact some_declared (List.eq_nil_iff_forall_not_mem.mpr fun name hname => by
        rw [← List.mem_eraseDups, erased] at hname
        cases hname)
    obtain ⟨info, indices, hget, read, indexed⟩ :=
      finished.exceptions nonempty (reflects.few_throws hpool)
    obtain ⟨_, hinfo, hbytes⟩ := attributes.attribute? hpool settled finished.attributes hget
    obtain rfl := Except.ok.inj hbytes
    refine ⟨info, indices, hinfo, read, ?_⟩
    rw [← List.forall₂_eq_eq_eq, List.forall₂_map_left_iff, List.map_map,
      List.forall₂_map_right_iff] at declared
    refine forall₂_trans ?_ declared.flip indexed
    intro exception entry index present indexed
    exact indexed.leads hpool settled present
  · intro code hcode
    obtain ⟨payload, hpayload, hget⟩ := finished.code hcode
    obtain ⟨_, hinfo, hbytes⟩ := attributes.attribute? hpool settled finished.attributes hget
    obtain rfl := Except.ok.inj hbytes
    have nested := reflects.nested code hcode
    obtain ⟨framedCode, -⟩ := Code.reads_assembled hpayload nested.few
    refine ⟨payload.asRead, ?_, framedCode.links hpool settled nested (reflects.catches code hcode)⟩
    rw [CodeAttribute.bytes_asRead]
    exact hinfo

end

/-- Related lists, one of them with its positions. -/
theorem forall₂_zipIdx {α β : Type} {R : α → β → Prop} {S : α × Nat → β → Prop} {as : List α}
    {bs : List β} (h : List.Forall₂ R as bs)
    (step : ∀ index a b, as[index]? = some a → R a b → S (a, index) b) :
    List.Forall₂ S as.zipIdx bs := by
  rw [List.forall₂_iff_get] at h ⊢
  obtain ⟨same, each⟩ := h
  refine ⟨by rw [List.length_zipIdx, same], fun index ha hb => ?_⟩
  have inside : index < as.length := by rwa [List.length_zipIdx] at ha
  have here := step index _ _ (List.getElem?_eq_getElem inside) (each index inside hb)
  simpa using here

namespace Class

variable {built final : Class} {log : List Edit} {seen : ReadClass}

/-- **The file as read leads where the log says**, for the class and all its members. -/
theorem Framed.links (reflects : built.Reflects log) (prepared : built.Prepared final)
    (framed : final.Framed seen) : seen.Links log built final := by
  have hpool := prepared.pool
  have settled := Pool.settled_of_state prepared.closed nofun
  have same := prepared.same
  have named (name : BinaryName)
      (hname : name ∈ built.name :: built.superName :: built.interfaces) :
      final.pool.asRead.Leads (.classNamed name) (final.pool.position (.classNamed name)) :=
    Pool.leads_position hpool settled (prepared.names name hname)
  have fields : List.Forall₂ (fun field member => ∃ done, field.Finished final.pool done ∧
      done.Framed final.pool member) built.fields.toList seen.fields :=
    forall₂_trans (fun _ _ _ finished framed => ⟨_, finished, framed⟩) prepared.fields framed.fields
  have methods : List.Forall₂ (fun method member => ∃ done, method.Finished final.pool done ∧
      done.Framed final.pool member) built.methods.toList seen.methods :=
    forall₂_trans (fun _ _ _ finished framed => ⟨_, finished, framed⟩)
      prepared.methods framed.methods
  exact {
    closed := by
      rw [framed.pool]
      exact Pool.closed_asRead hpool settled
    thisClass := by
      rw [framed.pool, framed.thisClass, same]
      exact named _ List.mem_cons_self
    superClass := by
      rw [framed.pool, framed.superClass, same]
      exact named _ (List.mem_cons_of_mem _ List.mem_cons_self)
    interfaces := by
      rw [framed.pool, framed.interfaces, same, List.forall₂_map_right_iff]
      exact List.forall₂_same.mpr fun name hname =>
        named name (List.mem_cons_of_mem _ (List.mem_cons_of_mem _ hname))
    fields := by
      rw [framed.pool]
      refine forall₂_zipIdx fields ?_
      rintro index field member hfield ⟨done, finished, framed⟩
      rw [Array.getElem?_toList] at hfield
      -- What a field meant while it was built it still means in the pool that is written.
      exact finished.links hpool settled
        ((reflects.fields.each index field hfield).mono prepared.more) framed
    methods := by
      rw [framed.pool]
      refine forall₂_zipIdx methods ?_
      rintro index method member hmethod ⟨done, finished, framed⟩
      rw [Array.getElem?_toList] at hmethod
      exact finished.links hpool settled
        ((reflects.methods.each index method hmethod).mono prepared.more) framed
    attributes := by
      rw [framed.pool]
      exact framed.attributes.link hpool settled prepared.attributes
    inFields := by
      rw [framed.pool]
      refine ((List.forall₂_and_left _ _).mpr ⟨prepared.sound_field, framed.fields⟩).imp ?_
      rintro field member ⟨sound, framed⟩
      exact framed.attributes.link hpool settled sound
    inMethods := by
      rw [framed.pool]
      refine ((List.forall₂_and_left _ _).mpr ⟨prepared.sound_method, framed.methods⟩).imp ?_
      rintro method member ⟨sound, framed⟩
      exact framed.attributes.link hpool settled sound
    source := by
      intro file hfile absent
      rw [framed.pool]
      rcases prepared.source with ⟨unnamed | present, -⟩ | ⟨file', entry, hfile', -, hentry, gains⟩
      · rw [hfile] at unnamed
        cases unnamed
      · rw [absent] at present
        cases present
      · obtain rfl : file = file' := Option.some.inj (hfile.symm.trans hfile')
        obtain ⟨info, hinfo, hpayload⟩ :=
          framed.attributes.attribute? hpool settled prepared.attributes gains.get?_self
        refine ⟨info, hinfo, (Attributes.payloadLeads hpool settled hpayload).imp ?_⟩
        intro index there
        exact there.leads hentry }

/-- **Every index in a class file leads to what was asked for.**  If the first writing of a class
succeeds, whatever was done to the class and its pool before, the bytes are those of a class file
around a pool, and with that pool every index in the file resolves to the constant it was meant
for.  Entries stand for the same constants as before writing.  A reader of the format finds the file
as it is described here, unless the length of a payload does not fit its four bytes. -/
theorem class_file_links {name superName : BinaryName} {flags : AccessFlags .type}
    {cls final : Class} {history : List Edit} {bytes : Bytes}
    (declared : declare name superName flags = .ok cls)
    (unwritten : ∀ room, .serialize room ∉ history)
    (written : toBytes (cls.after history) = .ok bytes final) :
    (cls.after history).pool.Extends final.pool ∧ ∃ seen pool,
      bytes = seen.bytes pool ∧ Reader.pool.whole pool = some seen.pool ∧
      (final.Short → classFile.whole bytes = some seen) ∧
      seen.Links (cls.accepted history) (cls.after history) final := by
  have reflects := (reflects_declare declared).after unwritten
  obtain ⟨prepared, seen, framed, spelled, read⟩ := reflects.framed written
  refine ⟨prepared.more, seen, _, spelled, ?_, read, framed.links reflects prepared⟩
  rw [framed.pool]
  exact (Pool.reads_output prepared.pool prepared.closed).whole

end Class

theorem Sample.sample_class_file_links :
    Class.declare start.name start.superName ⟨0x21⟩ = .ok start ∧
      (∀ room, .serialize room ∉ history) ∧
      (start.after history).toBytes = .ok final.output.bytes final ∧
      (start.after history).pool.Extends final.pool ∧ ∃ seen pool,
        final.output.bytes = seen.bytes pool ∧ Reader.pool.whole pool = some seen.pool ∧
        (final.Short → classFile.whole final.output.bytes = some seen) ∧
        seen.Links (start.accepted history) (start.after history) final := by
  have declared : Class.declare start.name start.superName ⟨0x21⟩ = .ok start := rfl
  have unwritten : ∀ room, .serialize room ∉ history := by simp [history]
  exact ⟨declared, unwritten, toBytes_eq,
    Class.class_file_links declared unwritten toBytes_eq⟩

end JvmAsm
