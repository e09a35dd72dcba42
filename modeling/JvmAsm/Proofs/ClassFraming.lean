import JvmAsm.Proofs.AssemblyRoundTrip
import JvmAsm.Proofs.ClassReader
import JvmAsm.Proofs.PoolRoundTrip
import JvmAsm.Proofs.Preparation

/-! # What is sent is what is read

What a class sends is made of parts, and so are the bytes of a file and its reader.
`Output.ReadAs` is the link: whenever an output is sent completely, there is a value
whose bytes these are, with everything that is known about it, and the reader takes
exactly these bytes for that value.  The composition of outputs is followed by the
composition of readers (`ReadAs.bind`, `ReadAs.each`).

The properties are relations between what is written and what is read: `Framed` for
attributes, members, code and the class.  Indices are related to entries here, not
yet to what they stand for.  Every number in the file that counts something has two
or four bytes.  Building a class keeps the limits on lists (`Class.Countable`), but
none on payloads, so reading depends on a condition, `Class.Short`; what the bytes
are does not. -/

namespace JvmAsm

open Reader

/-! ## Outputs and readers -/

namespace Output

variable {α β γ : Type}

/-- **What is sent are the bytes of a value with the property**, if it is sent completely, and it is
read as that value if it fits its format. -/
def ReadAs (output : Output) (fits : Prop) (reader : Reader α) (property : α → Bytes → Prop) :
    Prop :=
  ∀ bytes, output = ⟨bytes, none⟩ →
    ∃ value, (fits → reader.Reads bytes value) ∧ property value bytes

theorem append_eq_ok {first second : Output} {bytes : Bytes} (h : first ++ second = ⟨bytes, none⟩) :
    ∃ before after, first = ⟨before, none⟩ ∧ second = ⟨after, none⟩ ∧ bytes = before ++ after := by
  obtain ⟨before, failure⟩ := first
  obtain ⟨after, failure'⟩ := second
  cases failure with
  | some cause => cases h
  | none =>
    rw [mk_append] at h
    cases h
    exact ⟨before, after, rfl, rfl, rfl⟩

namespace ReadAs

variable {first second : Output} {fits : Prop} {reader : Reader α} {next : α → Reader β}
  {property : α → Bytes → Prop} {property' : β → Bytes → Prop}

theorem pure {value : α} (h : property value []) : empty.ReadAs fits (pure value) property := by
  rintro bytes ⟨⟩
  exact ⟨value, fun _ => Reads.pure value, h⟩

/-- What the first reader found is known to the second, behind it. -/
theorem bind (hfirst : first.ReadAs fits reader property)
    (hsecond : ∀ value before, property value before →
      second.ReadAs fits (next value) fun value' after => property' value' (before ++ after)) :
    (first ++ second).ReadAs fits (reader >>= next) property' := by
  intro bytes h
  obtain ⟨before, after, hbefore, hafter, rfl⟩ := append_eq_ok h
  obtain ⟨value, reads, holds⟩ := hfirst before hbefore
  obtain ⟨value', reads', holds'⟩ := hsecond value before holds after hafter
  exact ⟨value', fun hfits => (reads hfits).bind (reads' hfits), holds'⟩

theorem of_reads {bytes : Bytes} {value : α} (reads : reader.Reads bytes value)
    (h : property value bytes) : (⟨bytes, none⟩ : Output).ReadAs fits reader property := by
  rintro _ ⟨⟩
  exact ⟨value, fun _ => reads, h⟩

theorem number {width value : Nat} (h : value < 256 ^ width) :
    (⟨Bytes.ofNat width value, none⟩ : Output).ReadAs fits (unsigned width) fun seen bytes =>
      seen = value ∧ bytes = Bytes.ofNat width seen :=
  of_reads (reads_unsigned h) ⟨rfl, rfl⟩

/-- A check that failed sends nothing, so only its value has to be read. -/
theorem attempt [Encode γ] {check : Except Error γ}
    (h : ∀ item, check = .ok item → ∃ value, (fits → reader.Reads (encode item) value) ∧
      property value (encode item)) :
    (attempt check).ReadAs fits reader property := by
  intro bytes sent
  cases check with
  | error cause => cases sent
  | ok item =>
    cases sent
    exact h item rfl

/-- Elements are read one by one. -/
theorem each {elements : List γ} {output : γ → Output} {related : γ → α → Prop}
    {write : α → Bytes}
    (h : ∀ element ∈ elements, (output element).ReadAs fits reader fun value bytes =>
      related element value ∧ bytes = write value) :
    (each elements output).ReadAs fits (times elements.length reader) fun values bytes =>
      List.Forall₂ related elements values ∧ bytes = values.flatMap write := by
  induction elements with
  | nil => exact ReadAs.pure ⟨.nil, rfl⟩
  | cons element elements ih =>
    have tail := ih fun other hother => h other (List.mem_cons_of_mem element hother)
    refine bind (h element List.mem_cons_self) ?_
    rintro value _ ⟨related, rfl⟩
    intro bytes sent
    obtain ⟨values, reads, all, rfl⟩ := tail bytes sent
    exact ⟨value :: values, fun hfits => (reads hfits).bind_pure _, .cons related all, rfl⟩

/-- A counted list, whose count is sent apart from its elements. -/
theorem counted {elements : List γ} {output : γ → Output} {related : γ → α → Prop}
    {write : α → Bytes} {following : Output} {next : List α → Reader β}
    (few : elements.length ≤ 65535)
    (h : ∀ element ∈ elements, (output element).ReadAs fits reader fun value bytes =>
      related element value ∧ bytes = write value)
    (hnext : ∀ values, List.Forall₂ related elements values →
      following.ReadAs fits (next values) fun value after =>
        property' value (countedBytes write values ++ after)) :
    ((⟨Bytes.ofNat 2 elements.length, none⟩ : Output) ++
      (Output.each elements output ++ following)).ReadAs
      fits (Reader.counted reader >>= next) property' := by
  unfold Reader.counted
  rw [bind_assoc]
  refine bind (number (show elements.length < 256 ^ 2 by omega)) ?_
  rintro _ _ ⟨rfl, rfl⟩
  refine bind (each h) ?_
  rintro values _ ⟨all, rfl⟩
  intro bytes sent
  obtain ⟨value, reads, holds⟩ := hnext values all bytes sent
  refine ⟨value, reads, ?_⟩
  dsimp only
  rw [← List.append_assoc, all.length_eq]
  exact holds

end ReadAs

end Output

open Output (ReadAs)

/-! ## Attributes -/

/-- The payload's length can be written in four bytes. -/
def AttributeValue.Short : AttributeValue → Prop
  | .bytes info => info.length < 2 ^ 32
  | .constant _ => True

instance (value : AttributeValue) : Decidable value.Short :=
  match value with
  | .bytes info => inferInstanceAs (Decidable (info.length < 2 ^ 32))
  | .constant _ => inferInstanceAs (Decidable True)

namespace Attributes

variable {pool : Pool} {attributes : Attributes} {resolved : List Attribute}

/-- The lengths of all payloads can be written in four bytes. -/
def Short (attributes : Attributes) : Prop := ∀ named ∈ attributes.entries, named.value.Short

instance (attributes : Attributes) : Decidable attributes.Short :=
  inferInstanceAs (Decidable (∀ named ∈ attributes.entries, named.value.Short))

/-- **Attributes as read are those of the container**, in its order and with their payloads. -/
def Framed (pool : Pool) (attributes : Attributes) : List ReadAttribute → Prop :=
  List.Forall₂ (fun named seen => pool.Indexes named.entry seen.name ∧
    payload pool named.value = .ok seen.info) attributes.entries

theorem resolveOne_eq_ok {named : NamedAttribute} {seen : Attribute}
    (h : resolveOne pool named = .ok seen) :
    pool.index named.entry = .ok seen.nameIndex ∧ payload pool named.value = .ok seen.info := by
  obtain ⟨nameIndex, hname, rest⟩ := Check.bind_eq_ok.mp h
  obtain ⟨info, hinfo, rest⟩ := Check.bind_eq_ok.mp rest
  obtain rfl := Check.pure_eq_ok.mp rest
  exact ⟨hname, hinfo⟩

/-- Resolved attributes have the indices of their names, in order. -/
theorem framed_of_resolve (h : attributes.resolve pool = .ok resolved) :
    attributes.Framed pool (resolved.map Attribute.asRead) := by
  unfold Framed
  rw [List.forall₂_map_right_iff]
  refine (Check.forall₂_of_mapM h).imp ?_
  intro named seen hnamed
  obtain ⟨hname, hinfo⟩ := resolveOne_eq_ok hnamed
  exact ⟨⟨seen.nameIndex, hname, rfl⟩, hinfo⟩

theorem length_payload {value : AttributeValue} {info : Bytes} (short : value.Short)
    (h : payload pool value = .ok info) : info.length < 2 ^ 32 := by
  cases value with
  | bytes bytes =>
    obtain rfl := Except.ok.inj h
    exact short
  | constant entry =>
    obtain ⟨index, -, rfl⟩ := payload_constant_eq_ok.mp h
    have two : (encode index).length = 2 := Bytes.length_ofNat 2 _
    omega

theorem short_of_resolve (h : attributes.resolve pool = .ok resolved) (short : attributes.Short) :
    ∀ seen ∈ resolved, seen.info.length < 2 ^ 32 := by
  intro seen hseen
  obtain ⟨named, hnamed, hresolve⟩ := Check.exists_of_forall₂ (Check.forall₂_of_mapM h) hseen
  exact length_payload (short named hnamed) (resolveOne_eq_ok hresolve).2

theorem count_of_resolve (h : attributes.resolve pool = .ok resolved)
    (few : attributes.count ≤ 65535) : resolved.length ≤ 65535 := by
  rw [Check.length_of_mapM h]
  exact few

/-- A container is read as what it resolves to. -/
theorem readAs_output {fits : Prop} (few : attributes.count ≤ 65535)
    (short : fits → attributes.Short) :
    (attributes.output pool).ReadAs fits (counted attributeInfo) fun seen bytes =>
      attributes.Framed pool seen ∧ bytes = countedBytes ReadAttribute.bytes seen := by
  refine ReadAs.attempt fun resolved hresolved => ⟨resolved.map Attribute.asRead, ?_, ?_, ?_⟩
  · intro hfits
    exact Attribute.reads_all (count_of_resolve hresolved few)
      (short_of_resolve hresolved (short hfits))
  · exact framed_of_resolve hresolved
  · exact (Attribute.bytes_all resolved).symm

end Attributes

/-! ## Members -/

/-- **A member as read**: its flags, the indices of its name and descriptor, and its attributes. -/
structure MemberFramed (pool : Pool) (flags : UInt16) (name descriptor : Entry)
    (attributes : Attributes) (seen : ReadMember) : Prop where
  flags : seen.flags = flags.toNat
  name : pool.Indexes name seen.name
  descriptor : pool.Indexes descriptor seen.descriptor
  attributes : attributes.Framed pool seen.attributes

section

variable {fits : Prop}

theorem readAs_uint16 (value : UInt16) :
    (⟨encode value, none⟩ : Output).ReadAs fits (unsigned 2) fun seen bytes =>
      seen = value.toNat ∧ bytes = Bytes.ofNat 2 seen :=
  ReadAs.number value.toNat_lt

theorem Pool.readAs_index (pool : Pool) (entry : Entry) :
    (Output.attempt (pool.index entry)).ReadAs fits (unsigned 2) fun seen bytes =>
      pool.Indexes entry seen ∧ bytes = Bytes.ofNat 2 seen :=
  ReadAs.attempt fun index hindex =>
    ⟨index.toNat, fun _ => reads_uint16 index, ⟨index, hindex, rfl⟩, rfl⟩

/-- **A member is read field by field**, whatever kind of member it is. -/
theorem readAs_member {kind : Declaration} {pool : Pool} (flags : AccessFlags kind)
    (name descriptor : Entry) {attributes : Attributes} (few : attributes.count ≤ 65535)
    (short : fits → attributes.Short) :
    (Output.sequence [.value flags, .attempt (pool.index name), .attempt (pool.index descriptor),
      attributes.output pool]).ReadAs fits Reader.member fun seen bytes =>
        MemberFramed pool flags.bits name descriptor attributes seen ∧ bytes = seen.bytes := by
  refine (readAs_uint16 flags.bits).bind ?_
  rintro flagBits _ ⟨hflags, rfl⟩
  refine (pool.readAs_index name).bind ?_
  rintro nameIndex _ ⟨hname, rfl⟩
  refine (pool.readAs_index descriptor).bind ?_
  rintro descriptorIndex _ ⟨hdescriptor, rfl⟩
  refine (Attributes.readAs_output few short).bind ?_
  rintro seen _ ⟨hseen, rfl⟩
  refine ReadAs.pure ⟨⟨hflags, hname, hdescriptor, hseen⟩, ?_⟩
  rw [List.append_nil]
  rfl

end

/-- A field as read. -/
abbrev Field.Framed (pool : Pool) (field : Field) : ReadMember → Prop :=
  MemberFramed pool field.flags.bits field.nameEntry field.typeEntry field.attributes

/-- A method as read. -/
abbrev Method.Framed (pool : Pool) (method : Method) : ReadMember → Prop :=
  MemberFramed pool method.flags.bits method.nameEntry method.descriptorEntry method.attributes

/-! ## The class -/

namespace Class

/-- **A class as read**, against the class that was written. -/
structure Framed (cls : Class) (seen : ReadClass) : Prop where
  minor : seen.minor = cls.version.minor.toNat
  major : seen.major = cls.version.major.toNat
  pool : seen.pool = cls.pool.asRead
  flags : seen.flags = cls.flags.bits.toNat
  thisClass : seen.thisClass = cls.pool.position (.classNamed cls.name)
  superClass : seen.superClass = cls.pool.position (.classNamed cls.superName)
  interfaces : seen.interfaces = cls.interfaces.map fun name => cls.pool.position (.classNamed name)
  fields : List.Forall₂ (Field.Framed cls.pool) cls.fields.toList seen.fields
  methods : List.Forall₂ (Method.Framed cls.pool) cls.methods.toList seen.methods
  attributes : cls.attributes.Framed cls.pool seen.attributes

/-- The lists of the class can be counted in two bytes. -/
structure Countable (cls : Class) : Prop where
  interfaces : cls.interfaces.length ≤ 65535
  fields : cls.fields.size ≤ 65535
  methods : cls.methods.size ≤ 65535
  attributes : cls.attributes.count ≤ 65535
  inFields : ∀ field ∈ cls.fields.toList, field.attributes.count ≤ 65535
  inMethods : ∀ method ∈ cls.methods.toList, method.attributes.count ≤ 65535

/-- The lengths of all payloads, also of those inside code, can be written in four bytes. -/
structure Short (cls : Class) : Prop where
  attributes : cls.attributes.Short
  fields : ∀ field ∈ cls.fields.toList, field.attributes.Short
  methods : ∀ method ∈ cls.methods.toList, method.attributes.Short
  code : ∀ method ∈ cls.methods.toList, ∀ code ∈ method.code, code.attributes.Short

theorem position_of_classIndex {pool : Pool} {name : BinaryName} {index : UInt16}
    (h : classIndex pool name = .ok index) :
    pool.position (.classNamed name) = index.toNat := by
  have found : pool.indexOf (.classNamed name) = .ok index := h
  rw [Pool.position, found]

section

variable {fits : Prop}

theorem readAs_classIndex (pool : Pool) (name : BinaryName) :
    (Output.attempt (classIndex pool name)).ReadAs fits (unsigned 2) fun seen bytes =>
      seen = pool.position (.classNamed name) ∧ bytes = Bytes.ofNat 2 seen :=
  ReadAs.attempt fun index hindex =>
    ⟨index.toNat, fun _ => reads_uint16 index, (position_of_classIndex hindex).symm, rfl⟩

/-- All interfaces have an index, or the class is not written. -/
theorem readAs_interfaces (pool : Pool) {names : List BinaryName} (few : names.length ≤ 65535) :
    (Output.attempt (names.mapM (classIndex pool))).ReadAs fits (counted (unsigned 2))
      fun seen bytes => seen = (names.map fun name => pool.position (.classNamed name)) ∧
        bytes = countedBytes (Bytes.ofNat 2) seen := by
  refine ReadAs.attempt fun indices hindices => ⟨indices.map UInt16.toNat, ?_, ?_, ?_⟩
  · intro _
    exact reads_indices (Nat.le_trans (Nat.le_of_eq (Check.length_of_mapM hindices)) few)
  · rw [← List.forall₂_eq_eq_eq, List.forall₂_map_left_iff, List.forall₂_map_right_iff]
    refine (Check.forall₂_of_mapM hindices).flip.imp ?_
    intro index name hindex
    exact (position_of_classIndex hindex).symm
  · rw [countedBytes_map]
    rfl

theorem readAs_magic : (⟨magic, none⟩ : Output).ReadAs fits Reader.magic fun _ bytes =>
    bytes = Bytes.ofNat 4 0xCAFEBABE := by
  have spelled : magic = Bytes.ofNat 4 0xCAFEBABE := by decide
  have number : (unsigned 4).Reads magic 0xCAFEBABE := by
    rw [spelled]
    exact reads_unsigned (by decide)
  have read : Reader.magic.Reads (magic ++ []) () := number.bind (Reads.require rfl)
  rw [List.append_nil] at read
  exact ReadAs.of_reads read spelled

/-- A sealed pool is read as its constants by index. -/
theorem readAs_pool {pool : Pool} (hpool : pool.Invariant) (closed : pool.state = .sealed) :
    pool.output.ReadAs fits Reader.pool fun seen bytes =>
      seen = pool.asRead ∧ bytes = pool.output.bytes := by
  intro bytes sent
  have reads := Pool.reads_output hpool closed
  rw [sent] at reads ⊢
  exact ⟨_, fun _ => reads, rfl, rfl⟩

end

/-- **A class that is written completely is read back.** -/
theorem readAs_output {cls : Class} (hpool : cls.pool.Invariant) (closed : cls.pool.state = .sealed)
    (h : cls.Countable) : cls.output.ReadAs cls.Short classFile fun seen bytes =>
      cls.Framed seen ∧ bytes = seen.bytes cls.pool.output.bytes := by
  -- Both numbers of the version are sent as one part, and read one after the other.
  have version (following : Output) : Output.value cls.version ++ following =
      ⟨encode cls.version.minor, none⟩ ++ (⟨encode cls.version.major, none⟩ ++ following) :=
    congrArg (Output.mk · following.failure) (List.append_assoc _ _ _)
  change Output.ReadAs (⟨magic, none⟩ ++ (.value cls.version ++ _)) _ _ _
  rw [version]
  refine readAs_magic.bind ?_
  rintro _ _ rfl
  refine (readAs_uint16 cls.version.minor).bind ?_
  rintro minor _ ⟨hminor, rfl⟩
  refine (readAs_uint16 cls.version.major).bind ?_
  rintro major _ ⟨hmajor, rfl⟩
  refine (readAs_pool hpool closed).bind ?_
  rintro pool _ ⟨hpool, rfl⟩
  refine (readAs_uint16 cls.flags.bits).bind ?_
  rintro flags _ ⟨hflags, rfl⟩
  refine (readAs_classIndex cls.pool cls.name).bind ?_
  rintro thisClass _ ⟨hthis, rfl⟩
  refine (readAs_classIndex cls.pool cls.superName).bind ?_
  rintro superClass _ ⟨hsuper, rfl⟩
  refine (readAs_interfaces cls.pool h.interfaces).bind ?_
  rintro interfaces _ ⟨hinterfaces, rfl⟩
  refine ReadAs.counted h.fields (fun field hfield => readAs_member _ _ _ (h.inFields field hfield)
    fun short => short.fields field hfield) fun fields hfields => ?_
  refine ReadAs.counted h.methods (fun method hmethod => readAs_member _ _ _
    (h.inMethods method hmethod) fun short => short.methods method hmethod) fun methods hmethods =>
      ?_
  refine (Attributes.readAs_output h.attributes fun short => short.attributes).bind ?_
  rintro attributes _ ⟨hattributes, rfl⟩
  refine ReadAs.pure ⟨⟨hminor, hmajor, hpool, hflags, hthis, hsuper, hinterfaces, hfields, hmethods,
    hattributes⟩, ?_⟩
  rw [List.append_nil]
  rfl

end Class

/-! ## Code -/

namespace Code

variable {code : Code} {pool : Pool} {payload : CodeAttribute}

/-- The payload of code as read: the limits, the bytes of the instructions, and a row for each
handler in the order in which they were added. -/
structure Framed (pool : Pool) (code : Code) (seen : ReadCode) : Prop where
  maxStack : seen.maxStack = code.maxStack.toNat
  maxLocals : seen.maxLocals = code.maxLocals.toNat
  body : ∃ layout chunks, code.layout pool = .ok layout ∧ layout.encodeAll = .ok chunks ∧
    seen.code = chunks.flatten ∧
    List.Forall₂ (fun handler row => ∃ written, code.handlerRow pool layout handler = .ok written ∧
      row = written.asRead) code.handlers.toList seen.handlers
  attributes : code.attributes.Framed pool seen.attributes

theorem exceptionTable_eq_ok {layout : Layout} {table : List ExceptionHandler}
    (h : code.exceptionTable pool layout = .ok table) :
    code.handlers.toList.mapM (code.handlerRow pool layout) = .ok table ∧ table.length ≤ 65535 := by
  obtain ⟨rows, hrows, rest⟩ := Check.bind_eq_ok.mp h
  split at rest
  · cases rest
  · rename_i few
    obtain rfl := Check.pure_eq_ok.mp rest
    exact ⟨hrows, Nat.le_of_not_lt few⟩

/-- Chunks that stand side by side take up the room between the first start and the last. -/
theorem start_flatten (start : Nat → Nat) (first : Nat) {chunks : List Bytes}
    (h : ∀ i chunk, chunks[i]? = some chunk →
      start (first + i + 1) = start (first + i) + chunk.length) :
    start (first + chunks.length) = start first + chunks.flatten.length := by
  induction chunks generalizing first with
  | nil => rfl
  | cons chunk chunks ih =>
    have head : start (first + 1) = start first + chunk.length := h 0 chunk rfl
    have tail := ih (first + 1) fun i other hother => by
      have next := h (i + 1) other hother
      rwa [show first + (i + 1) = first + 1 + i from by omega] at next
    rw [List.length_cons, List.flatten_cons, List.length_append,
      show first + (chunks.length + 1) = first + 1 + chunks.length from by omega, tail, head,
      Nat.add_assoc]

section

variable {layout : Layout} {chunks : List Bytes} (hlayout : code.layout pool = .ok layout)
  (hchunks : layout.encodeAll = .ok chunks)

include hlayout hchunks

theorem length_chunks : chunks.length = code.length := by
  obtain ⟨linked, hlinked, rfl, -⟩ := layout_eq_ok.mp hlayout
  rw [Check.length_of_mapM hchunks, List.length_zipIdx, Layout.length_ofLinked,
    length_of_link hlinked]

/-- Every chunk is as long as was measured. -/
theorem start_chunk {position : Nat} {chunk : Bytes} (hchunk : chunks[position]? = some chunk) :
    chunk ≠ [] ∧ layout.start (position + 1) = layout.start position + chunk.length := by
  obtain ⟨linked, hlinked, rfl, hlength⟩ := layout_eq_ok.mp hlayout
  obtain ⟨-, -, -, filled, next⟩ := read_of_chunk hlinked hlength hchunks hchunk
  exact ⟨filled, next⟩

/-- Behind the last instruction the code ends. -/
theorem start_length : layout.start code.length = chunks.flatten.length := by
  have room := start_flatten layout.start 0 fun i chunk hchunk => by
    rw [Nat.zero_add]
    exact (start_chunk hlayout hchunks hchunk).2
  obtain ⟨linked, -, rfl, -⟩ := layout_eq_ok.mp hlayout
  rw [Nat.zero_add, length_chunks hlayout hchunks] at room
  rw [room, show (Layout.ofLinked linked).start 0 = 0 from Layout.getD_startsOf_zero, Nat.zero_add]

/-- The layout was measured before encoding. -/
theorem length_flatten_le : chunks.flatten.length ≤ 65535 := by
  rw [← start_length hlayout hchunks]
  obtain ⟨linked, -, rfl, hlength⟩ := layout_eq_ok.mp hlayout
  exact Nat.le_trans (Layout.start_le_length linked _) hlength

/-- Starts ascend. -/
theorem start_lt_start {i j : Nat} (hij : i < j) (hj : j ≤ code.length) :
    layout.start i < layout.start j := by
  induction j with
  | zero => cases hij
  | succ j ih =>
    have inside : j < chunks.length := by rwa [length_chunks hlayout hchunks]
    obtain ⟨filled, next⟩ := start_chunk hlayout hchunks (List.getElem?_eq_getElem inside)
    have longer := List.length_pos_of_ne_nil filled
    rcases Nat.lt_succ_iff_lt_or_eq.mp hij with before | rfl
    · have := ih before (Nat.le_of_succ_le hj)
      omega
    · omega

/-- Encoded code is read as its instructions, each at its start. -/
theorem exists_read : ∃ read, readCode chunks.flatten = some read ∧ read.length = code.length ∧
    ∀ position < code.length, ∃ seen, read[position]? = some (layout.start position, seen) ∧
      code.ReadsAs pool layout position seen := by
  have count := length_chunks hlayout hchunks
  obtain ⟨linked, hlinked, rfl, hlength⟩ := layout_eq_ok.mp hlayout
  obtain ⟨read, hread, hreadLength, hall⟩ := readFrom_flatten (Layout.ofLinked linked).start
    (code.ReadsAs pool (Layout.ofLinked linked)) 0 fun i chunk hchunk => by
      rw [Nat.zero_add]
      exact read_of_chunk hlinked hlength hchunks hchunk
  rw [show (Layout.ofLinked linked).start 0 = 0 from Layout.getD_startsOf_zero] at hread
  simp only [Nat.zero_add, count] at hall
  exact ⟨read, hread, hreadLength.trans count, hall⟩

end

/-- **Assembled code is read back** from the payload of its attribute. -/
theorem reads_assembled (h : code.assemble pool = .ok payload)
    (few : code.attributes.count ≤ 65535) :
    code.Framed pool payload.asRead ∧
      (code.attributes.Short → Reader.code.Reads (encode payload) payload.asRead) := by
  obtain ⟨layout, chunks, table, attributes, hlayout, hchunks, htable, hattributes, rfl⟩ :=
    assemble_eq_ok.mp h
  obtain ⟨hrows, fewRows⟩ := exceptionTable_eq_ok htable
  constructor
  · refine ⟨rfl, rfl, ⟨layout, chunks, hlayout, hchunks, rfl, ?_⟩,
      Attributes.framed_of_resolve hattributes⟩
    refine List.forall₂_map_right_iff.mpr ((Check.forall₂_of_mapM hrows).imp ?_)
    intro handler row hrow
    exact ⟨row, hrow, rfl⟩
  · intro short
    rw [← CodeAttribute.bytes_asRead]
    exact CodeAttribute.reads (length_flatten_le hlayout hchunks) fewRows
      (Attributes.count_of_resolve hattributes few)
      (Attributes.short_of_resolve hattributes short)

end Code

/-- **Declared exceptions are read back** from the payload of their attribute, as indices. -/
theorem Method.Finished.exceptions {pool : Pool} {built final : Method}
    (h : Finished pool built final) (declared : built.throws ≠ [])
    (few : built.throws.length ≤ 65535) :
    ∃ info indices, final.attributes.get? exceptionsName = some (.bytes info) ∧
      (counted (unsigned 2)).whole info = some indices ∧
      List.Forall₂ pool.Indexes built.throws indices := by
  obtain ⟨indices, hindices, hget⟩ := h.throws declared
  refine ⟨_, indices.map UInt16.toNat, hget, ?_, ?_⟩
  · exact (reads_indices (Nat.le_trans (Nat.le_of_eq (Check.length_of_mapM hindices)) few)).whole
  · refine List.forall₂_map_right_iff.mpr ((Check.forall₂_of_mapM hindices).imp ?_)
    intro entry index hindex
    exact ⟨index, hindex, rfl⟩

/-! ## The whole -/

namespace Class

variable {cls built final : Class} {log history : List Edit} {bytes : Bytes}

theorem Prepared.sound_field (h : built.Prepared final) (field : Field)
    (hfield : field ∈ final.fields.toList) : field.attributes.Sound final.pool := by
  obtain ⟨before, -, finished⟩ := Check.exists_of_forall₂ h.fields hfield
  exact finished.attributes

theorem Prepared.sound_method (h : built.Prepared final) (method : Method)
    (hmethod : method ∈ final.methods.toList) : method.attributes.Sound final.pool := by
  obtain ⟨before, -, finished⟩ := Check.exists_of_forall₂ h.methods hmethod
  exact finished.attributes

theorem Prepared.countable (reflects : built.Reflects log) (h : built.Prepared final) :
    final.Countable where
  interfaces := by
    rw [h.same]
    exact reflects.interfaces
  fields := by
    have same := h.fields.length_eq
    rw [Array.length_toList, Array.length_toList] at same
    exact same ▸ reflects.fields.few
  methods := by
    have same := h.methods.length_eq
    rw [Array.length_toList, Array.length_toList] at same
    exact same ▸ reflects.methods.few
  attributes := h.attributes.few
  inFields field hfield := (h.sound_field field hfield).few
  inMethods method hmethod := (h.sound_method method hmethod).few

/-- **The file of a class that was built, prepared and written.** -/
theorem Reflects.framed (reflects : built.Reflects log)
    (written : toBytes built = .ok bytes final) :
    built.Prepared final ∧ ∃ seen, final.Framed seen ∧
      bytes = seen.bytes final.pool.output.bytes ∧
      (final.Short → classFile.whole bytes = some seen) := by
  obtain ⟨hprepare, sent⟩ := toBytes_eq_ok written
  have prepared := reflects.prepared hprepare
  obtain ⟨seen, reads, framed, spelled⟩ :=
    readAs_output prepared.pool prepared.closed (prepared.countable reflects) bytes sent
  exact ⟨prepared, seen, framed, spelled, fun short => (reads short).whole⟩

end Class

end JvmAsm
