import JvmAsm.Class.Basic
import JvmAsm.Proofs.Writers

/-! # What writers send

A writer can stop half way for two reasons: the destination takes no more bytes, or
what should come next cannot be determined.  An `Output` is what remains of a writer when
the destination is left out: the bytes, and what goes wrong after them, if anything does.
Sending them in one piece (`Output.send`) is what the writers of pools, members and classes
do, whatever pieces they use (`Pool.write_eq`, `Class.write_eq`), so what there is to know of
a class file can be read off its output. -/

namespace JvmAsm

/-- Bytes to be written, and what goes wrong after them, if anything does. -/
structure Output where
  bytes : Bytes
  failure : Option Error := none
  deriving DecidableEq

namespace Output

variable {α : Type}

/-- Nothing at all. -/
def empty : Output := ⟨[], none⟩

/-- One output after the other. Nothing follows a failure. -/
def append (first second : Output) : Output :=
  match first.failure with
  | some _ => first
  | none => ⟨first.bytes ++ second.bytes, second.failure⟩

instance : Append Output := ⟨append⟩

/-- A value in its fixed form. -/
def value [Encode α] (a : α) : Output := ⟨encode a, none⟩

/-- A value that may be missing. -/
def attempt [Encode α] : Except Error α → Output
  | .ok a => value a
  | .error e => ⟨[], some e⟩

/-- The outputs of all elements, one after the other. -/
def each (elements : List α) (output : α → Output) : Output :=
  elements.foldr (fun element following => output element ++ following) empty

/-- Outputs one after the other. -/
def sequence (outputs : List Output) : Output := each outputs id

/-- Hands the bytes over and then fails, if there is a failure. -/
def send (output : Output) : Writer :=
  Writer.put output.bytes >>= fun _ => output.failure.elim (pure ()) Attempt.fail

theorem mk_append (bytes : Bytes) (following : Output) :
    (⟨bytes, none⟩ : Output) ++ following = ⟨bytes ++ following.bytes, following.failure⟩ :=
  rfl

/-! ## Sending -/

theorem send_mk (bytes : Bytes) : (⟨bytes, none⟩ : Output).send = .put bytes :=
  bind_pure_unit

theorem send_empty : empty.send = pure () :=
  (send_mk []).trans Writer.faithful_pure.eq_put.symm

/-- **Outputs are sent one after the other** as they are in one piece. -/
theorem send_append (first second : Output) :
    (first ++ second).send = (first.send >>= fun _ => second.send) := by
  obtain ⟨bytes, failure⟩ := first
  cases failure with
  | some cause =>
    have stopped : ((Attempt.fail cause : Writer) >>= fun _ => second.send) = Attempt.fail cause :=
      rfl
    change send ⟨bytes, some cause⟩ = _
    rw [send, bind_assoc, Option.elim_some, stopped]
  | none =>
    rw [mk_append, send_mk, send, send, Writer.put_append, bind_assoc]

/-- **A writer that is faithful sends its bytes and does nothing else.** -/
theorem send_of_faithful {writer : Writer} {full : Bytes} (h : writer.Faithful full) :
    (⟨full, none⟩ : Output).send = writer :=
  (send_mk full).trans h.eq_put.symm

/-- So the value of a type with lawful writers is sent as it is written. -/
theorem send_value [Encode α] [Serialize α] [LawfulSerialize α] (a : α) :
    (value a).send = serialize a :=
  send_of_faithful (LawfulSerialize.faithful a)

theorem send_length (length : Nat) :
    (⟨Bytes.ofNat 2 length, none⟩ : Output).send = serialize (UInt16.ofNat length) :=
  send_of_faithful (LawfulSerialize.faithful_length16 length)

/-- The check is made where its value is to be written, and its failure is the failure of the
writer. -/
theorem send_attempt [Encode α] [Serialize α] [LawfulSerialize α] (check : Except Error α) :
    (attempt check).send = (Attempt.ofExcept check >>= serialize) := by
  cases check with
  | ok a => exact (send_value a).trans (pure_bind a serialize).symm
  | error cause =>
    have nothing : Writer.put [] = pure () := Writer.faithful_pure.eq_put.symm
    rw [attempt, send, nothing, pure_bind]
    rfl

/-- By induction over the elements. -/
theorem send_each {elements : List α} {output : α → Output} {write : α → Writer}
    (h : ∀ element, write element = (output element).send) :
    (each elements output).send = elements.forM write := by
  induction elements with
  | nil => exact send_empty
  | cons element elements ih =>
    change (output element ++ each elements output).send = _
    rw [send_append, ih, ← h]
    rfl

/-- A destination without a limit accepts all bytes, so only the output's own failure is left. -/
theorem send_unbounded (output : Output) :
    output.send .unbounded =
      output.failure.elim (.ok () ⟨output.bytes.toArray, none⟩) fun cause =>
        .error cause ⟨output.bytes.toArray, none⟩ := by
  have taken : Writer.put output.bytes .unbounded = .ok () ⟨output.bytes.toArray, none⟩ := by
    have accepted := (Writer.faithful_put output.bytes).unlimited #[]
    rwa [Array.empty_append] at accepted
  simp only [send, bind, EStateM.bind, taken]
  cases output.failure <;> rfl

end Output

open Output

/-! ## Pools -/

namespace Pool

/-- A constant with its constituents' entries, as it is written. -/
def slotOutput (pool : Pool) (slot : PoolSlot) : Output :=
  .value slot.constant.tag ++
    match slot.constant with
    | .utf8 text =>
      let bytes := ModifiedUtf8.encode text
      ⟨Bytes.ofNat 2 bytes.length ++ bytes, none⟩
    | .integer value => .value value
    | .float bits => .value bits
    | .long value => .value value
    | .double bits => .value bits
    | _ => .each slot.children fun child => .attempt (pool.index child)

/-- The constant of an entry, as it is written. -/
def entryOutput (pool : Pool) (entry : Entry) : Output :=
  match pool.slots[entry.rank]? with
  | some slot => pool.slotOutput slot
  | none => .empty

/-- The whole pool, as it is written. -/
def output (pool : Pool) : Output :=
  if pool.state = .sealed then
    .value pool.size ++ .each pool.layout.cells.toList fun cell => pool.entryOutput cell.2
  else
    ⟨[], some .poolNotSealed⟩

variable (pool : Pool)

theorem writeIndex_eq (entry : Entry) :
    pool.writeIndex entry = (Output.attempt (pool.index entry)).send :=
  (send_attempt (pool.index entry)).symm

/-- A slot is written by its tag: the kind of its constant says which parts follow. -/
theorem writeSlot_eq (slot : PoolSlot) : pool.writeSlot slot = (pool.slotOutput slot).send := by
  rw [slotOutput, send_append, send_value, writeSlot]
  refine bind_congr fun _ => ?_
  generalize slot.constant = constant
  cases constant with
  | utf8 text =>
    exact (send_of_faithful
      ((LawfulSerialize.faithful_length16 _).bind (Writer.faithful_put _))).symm
  | integer value => exact (send_value value).symm
  | float bits => exact (send_value bits).symm
  | long value => exact (send_value value).symm
  | double bits => exact (send_value bits).symm
  | refType | string | fieldRef | methodRef | interfaceMethodRef | nameAndType =>
    exact (send_each pool.writeIndex_eq).symm

/-- An entry that the pool does not have sends nothing. -/
theorem writeEntry_eq (entry : Entry) : pool.writeEntry entry = (pool.entryOutput entry).send := by
  unfold writeEntry entryOutput
  cases pool.slots[entry.rank]? with
  | some slot => exact pool.writeSlot_eq slot
  | none => exact send_empty.symm

/-- The number of slots stands in front of the entries. -/
theorem write_eq : pool.write = pool.output.send := by
  unfold write output
  by_cases closed : pool.state = .sealed
  · have entries : (Output.each pool.layout.cells.toList fun cell => pool.entryOutput cell.2).send =
        pool.layout.cells.toList.forM fun cell => pool.writeEntry cell.2 :=
      send_each fun cell => pool.writeEntry_eq cell.2
    rw [if_pos closed, if_pos closed, send_append, send_value, entries]
  · rw [if_neg closed, if_neg closed]
    exact Output.send_attempt (.error Error.poolNotSealed : Except Error UInt16)

end Pool

/-! ## Members and classes -/

/-- The attributes as they are written, behind their number. -/
def Attributes.output (attributes : Attributes) (pool : Pool) : Output :=
  .attempt (attributes.resolve pool)

theorem Attributes.write_eq (attributes : Attributes) (pool : Pool) :
    attributes.write pool = (attributes.output pool).send :=
  (send_attempt (attributes.resolve pool)).symm

/-- The field as it is written. -/
def Field.output (field : Field) (pool : Pool) : Output :=
  .sequence [.value field.flags, .attempt (pool.index field.nameEntry),
    .attempt (pool.index field.typeEntry), field.attributes.output pool]

/-- The method as it is written. -/
def Method.output (method : Method) (pool : Pool) : Output :=
  .sequence [.value method.flags, .attempt (pool.index method.nameEntry),
    .attempt (pool.index method.descriptorEntry), method.attributes.output pool]

/-- Members are written alike: flags, name, descriptor, attributes. -/
theorem Output.send_member {kind : Declaration} (flags : AccessFlags kind) (pool : Pool)
    (name descriptor : Entry) (attributes : Attributes) :
    (Output.sequence [.value flags, .attempt (pool.index name), .attempt (pool.index descriptor),
      attributes.output pool]).send = (do
        serialize flags
        pool.writeIndex name
        pool.writeIndex descriptor
        attributes.write pool) := by
  simp only [Output.sequence, Output.each, List.foldr_cons, List.foldr_nil, id, send_append,
    send_empty, send_value, ← Pool.writeIndex_eq, ← Attributes.write_eq, bind_pure_unit]

theorem Field.write_eq (field : Field) (pool : Pool) :
    field.write pool = (field.output pool).send :=
  (send_member field.flags pool field.nameEntry field.typeEntry field.attributes).symm

theorem Method.write_eq (method : Method) (pool : Pool) :
    method.write pool = (method.output pool).send :=
  (send_member method.flags pool method.nameEntry method.descriptorEntry method.attributes).symm

namespace Class

/-- The class as it is written. -/
def output (cls : Class) : Output :=
  .sequence [⟨magic, none⟩, .value cls.version, cls.pool.output, .value cls.flags,
    .attempt (classIndex cls.pool cls.name), .attempt (classIndex cls.pool cls.superName),
    .attempt (cls.interfaces.mapM (classIndex cls.pool)),
    ⟨Bytes.ofNat 2 cls.fields.size, none⟩,
    .each cls.fields.toList fun field => field.output cls.pool,
    ⟨Bytes.ofNat 2 cls.methods.size, none⟩,
    .each cls.methods.toList fun method => method.output cls.pool,
    cls.attributes.output cls.pool]

theorem write_eq (cls : Class) : cls.write = cls.output.send := by
  have fields : (Output.each cls.fields.toList fun field => field.output cls.pool).send =
      cls.fields.toList.forM fun field => field.write cls.pool :=
    send_each fun field => field.write_eq cls.pool
  have methods : (Output.each cls.methods.toList fun method => method.output cls.pool).send =
      cls.methods.toList.forM fun method => method.write cls.pool :=
    send_each fun method => method.write_eq cls.pool
  rw [output, Output.sequence, Output.each]
  simp only [List.foldr_cons, List.foldr_nil, id, send_append, send_empty, send_mk magic,
    send_value, send_attempt, send_length, fields, methods, ← Pool.write_eq,
    ← Attributes.write_eq, bind_pure_unit, bind_assoc]
  rfl

section

variable {cls final : Class} {bytes : Bytes} {cause : Error}

/-- What a class is written as, once it is prepared. -/
theorem toBytes_of_prepareOnce (run : prepareOnce cls = .ok () final) :
    toBytes cls =
      final.output.failure.elim (.ok final.output.bytes final) fun cause => .error cause final := by
  simp only [toBytes, serialize, run, write_eq, send_unbounded]
  cases final.output.failure with
  | none => simp only [Option.elim_none]
  | some cause => rfl

/-- What was not prepared is not written at all. -/
theorem toBytes_of_refused (run : prepareOnce cls = .error cause final) :
    toBytes cls = .error cause final := by
  simp only [toBytes, serialize, run]

/-- The bytes of a class are its whole output, once it is prepared. -/
theorem toBytes_eq_ok (h : toBytes cls = .ok bytes final) :
    prepareOnce cls = .ok () final ∧ final.output = ⟨bytes, none⟩ := by
  cases run : prepareOnce cls with
  | error cause failed =>
    rw [toBytes_of_refused run] at h
    cases h
  | ok _ prepared =>
    rw [toBytes_of_prepareOnce run] at h
    cases complete : prepared.output.failure with
    | some cause =>
      rw [complete] at h
      cases h
    | none =>
      rw [complete] at h
      cases h
      exact ⟨rfl, by rw [← complete]⟩

end

end Class

end JvmAsm
