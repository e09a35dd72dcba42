import JvmAsm.Proofs.CodeMeaning

/-! # What a class file means

A class file means what is left of it when indices are replaced by the constants they name and
code by its meaning.  Most attributes are known by their payloads alone, but the payload of
`Code` or `Exceptions` cannot be told from bytes that someone chose to put under that name;
only the class knows what it generated.  So the meaning is given by the class, before it is
prepared: `Class.contents` and the like say what each container will hold (`Content`), and
`Class.meaning?` what that means, once entries stand for constants.

The main result is that a file shows the meaning of its class (`Class.Framed.shows`).  Nothing in
the meaning depends on the pool but what entries stand for. -/

namespace JvmAsm

open Reader

/-! ## Contents -/

/-- What an attribute will hold. -/
inductive Content where
  /-- What was put there by hand, or the index of an entry. -/
  | given (value : AttributeValue)
  /-- The index of a text. -/
  | text (text : String)
  | exceptions (entries : List Entry)
  | code (code : Code)

/-- The list with a payload under a name: in place of the one that is there, or at the end. -/
def Titled.put {π : Type} (name : String) (payload : π) (listed : List (Titled π)) :
    List (Titled π) :=
  if listed.any fun titled => titled.name == name then
    listed.map fun titled => if titled.name = name then ⟨name, payload⟩ else titled
  else listed ++ [⟨name, payload⟩]

/-- The list with a generated payload, if there is one. -/
def Titled.gain {π : Type} (name : String) (generated : Option π) (listed : List (Titled π)) :
    List (Titled π) :=
  generated.elim listed (Titled.put name · listed)

/-- What a container holds. -/
def Attributes.contents (attributes : Attributes) : List (Titled Content) :=
  attributes.entries.map fun named => ⟨named.name, .given named.value⟩

/-- What the attributes of a field will hold. -/
def Field.contents (field : Field) : List (Titled Content) :=
  Titled.gain constantValueName (field.constantValue.map fun entry => .given (.constant entry))
    field.attributes.contents

/-- What the attributes of a method will hold. -/
def Method.contents (method : Method) : List (Titled Content) :=
  Titled.gain exceptionsName
    (if method.throws.isEmpty then none else some (.exceptions method.throws))
    (Titled.gain codeName (method.code.map .code) method.attributes.contents)

/-- What the attributes of a class will hold. -/
def Class.contents (cls : Class) : List (Titled Content) :=
  Titled.gain sourceFileName
    (if cls.attributes.contains sourceFileName then none else cls.sourceFile.map .text)
    cls.attributes.contents

/-! ## Meaning -/

/-- What a payload means. -/
inductive PayloadMeaning where
  | plain (meaning : PlainMeaning)
  | exceptions (classes : List ConstantValue)
  | code (meaning : CodeMeaning)
  deriving DecidableEq, Repr

/-- What a field or a method means. -/
structure MemberMeaning where
  flags : Nat
  name : String
  descriptor : String
  attributes : List (Titled PayloadMeaning)
  deriving DecidableEq, Repr

/-- **The meaning of a class.** -/
structure ClassMeaning where
  minor : Nat
  major : Nat
  flags : Nat
  thisClass : ConstantValue
  superClass : ConstantValue
  interfaces : List ConstantValue
  fields : List MemberMeaning
  methods : List MemberMeaning
  attributes : List (Titled PayloadMeaning)
  deriving DecidableEq, Repr

section

variable (known : Entry → Option ConstantValue)

def Content.meaning? : Content → Option PayloadMeaning
  | .given value => (value.meaning? known).map .plain
  | .text spelled => some (.plain (.constant (.utf8 spelled)))
  | .exceptions entries => (entries.mapM known).map .exceptions
  | .code body => (body.meaning? known).map .code

/-- What contents mean, one by one. -/
def meanings? (contents : List (Titled Content)) : Option (List (Titled PayloadMeaning)) :=
  contents.mapM fun titled => (titled.payload.meaning? known).map (Titled.mk titled.name)

def Field.meaning? (field : Field) : Option MemberMeaning :=
  (meanings? known field.contents).map
    (MemberMeaning.mk field.flags.bits.toNat field.name.text field.type.render)

def Method.meaning? (method : Method) : Option MemberMeaning :=
  (meanings? known method.contents).map
    (MemberMeaning.mk method.flags.bits.toNat method.name.text method.descriptor.render)

/-- **What a class under construction means**, given what entries stand for. -/
def Class.meaning? (cls : Class) : Option ClassMeaning := do
  let fields ← cls.fields.toList.mapM (Field.meaning? known)
  let methods ← cls.methods.toList.mapM (Method.meaning? known)
  let attributes ← meanings? known cls.contents
  return {
    minor := cls.version.minor.toNat
    major := cls.version.major.toNat
    flags := cls.flags.bits.toNat
    thisClass := (Constant.classNamed cls.name).value
    superClass := (Constant.classNamed cls.superName).value
    interfaces := cls.interfaces.map fun name => (Constant.classNamed name).value
    fields, methods, attributes }

end

/-! ## In a file -/

/-- The lengths of the payloads inside code can be written in four bytes. -/
def ReadCode.Short (seen : ReadCode) : Prop :=
  ∀ nested ∈ seen.attributes, nested.info.length < 2 ^ 32

/-- **The payload in a file shows the meaning.** -/
def PayloadMeaning.ShownBy (names : ReadPool) : PayloadMeaning → Bytes → Prop
  | .plain meaning, info => meaning.ShownBy names info
  | .exceptions classes, info => ∃ indices, (counted (unsigned 2)).whole info = some indices ∧
      indices.mapM names.value? = some classes
  | .code meaning, info => ∃ payload : ReadCode, info = payload.bytes ∧
      (payload.Short → Reader.code.whole info = some payload) ∧ payload.Shows names meaning

/-- The attributes in a file show the meanings, in their order. -/
def ShownBy (names : ReadPool) : List (Titled PayloadMeaning) → List ReadAttribute → Prop :=
  List.Forall₂ (Titled.ShownBy (PayloadMeaning.ShownBy names) names)

/-- The member in a file shows the meaning. -/
structure MemberMeaning.ShownBy (names : ReadPool) (meaning : MemberMeaning) (seen : ReadMember) :
    Prop where
  flags : seen.flags = meaning.flags
  name : names.text? seen.name = some meaning.name
  descriptor : names.text? seen.descriptor = some meaning.descriptor
  attributes : JvmAsm.ShownBy names meaning.attributes seen.attributes

/-- **The class file shows the meaning**, all indices being resolved in its own pool. -/
structure ReadClass.Shows (seen : ReadClass) (meaning : ClassMeaning) : Prop where
  minor : seen.minor = meaning.minor
  major : seen.major = meaning.major
  flags : seen.flags = meaning.flags
  thisClass : seen.pool.value? seen.thisClass = some meaning.thisClass
  superClass : seen.pool.value? seen.superClass = some meaning.superClass
  interfaces : seen.interfaces.mapM seen.pool.value? = some meaning.interfaces
  fields : List.Forall₂ (MemberMeaning.ShownBy seen.pool) meaning.fields seen.fields
  methods : List.Forall₂ (MemberMeaning.ShownBy seen.pool) meaning.methods seen.methods
  attributes : ShownBy seen.pool meaning.attributes seen.attributes

/-! ## Containers -/

/-- The value in a container is one that holds the content. -/
def Content.Carried (pool : Pool) : Content → AttributeValue → Prop
  | .given value, carried => carried = value
  | .text spelled, .constant entry => pool.constant? entry = some (.utf8 spelled)
  | .exceptions entries, .bytes info => entries.length ≤ 65535 ∧ ∃ indices,
      entries.mapM pool.index = .ok indices ∧ info = encode (Exceptions.mk indices)
  | .code body, .bytes info => body.attributes.Sound pool ∧ ∃ payload,
      body.assemble pool = .ok payload ∧ info = encode payload
  | _, _ => False

/-- The container holds the contents, in their order. -/
def Attributes.Carry (pool : Pool) (contents : List (Titled Content)) (attributes : Attributes) :
    Prop :=
  List.Forall₂ (fun titled named => named.name = titled.name ∧
    titled.payload.Carried pool named.value) contents attributes.entries

namespace Attributes

variable {pool : Pool} {attributes result : Attributes} {contents : List (Titled Content)}

theorem carry_contents (attributes : Attributes) : attributes.Carry pool attributes.contents := by
  unfold Carry Attributes.contents
  rw [List.forall₂_map_left_iff]
  exact List.forall₂_same.mpr fun named _ => ⟨rfl, rfl⟩

theorem Carry.contains (h : attributes.Carry pool contents) (name : String) :
    (contents.any fun titled => titled.name == name) = attributes.contains name := by
  obtain ⟨entries⟩ := attributes
  unfold Attributes.contains
  change List.Forall₂ _ contents entries at h
  dsimp only
  induction h with
  | nil => rfl
  | cons head _ ih => rw [List.any_cons, List.any_cons, ih, head.1]

theorem Carry.put (h : attributes.Carry pool contents) (name : String) (entry : Entry)
    {content : Content} {value : AttributeValue} (carried : content.Carried pool value) :
    (attributes.put name entry value).Carry pool (Titled.put name content contents) := by
  unfold Titled.put Attributes.put
  rw [h.contains name]
  split
  · refine List.forall₂_map_left_iff.mpr (List.forall₂_map_right_iff.mpr (h.imp ?_))
    rintro titled named ⟨same, kept⟩
    rw [same]
    split
    · rename_i here
      exact ⟨here, carried⟩
    · exact ⟨same, kept⟩
  · exact List.rel_append h (.cons ⟨rfl, carried⟩ .nil)

/-- What a container gains, its contents gain. -/
theorem Carry.gains (h : attributes.Carry pool contents) {name : String} {content : Option Content}
    {generated : Option AttributeValue}
    (carried : Option.Rel (Content.Carried pool) content generated)
    (gains : attributes.Gains name generated result) :
    result.Carry pool (Titled.gain name content contents) := by
  cases carried with
  | none =>
    obtain rfl : result = attributes := gains
    exact h
  | some carried =>
    obtain ⟨entry, rfl⟩ := gains
    exact h.put name entry carried

theorem Framed.short {seen : List ReadAttribute} (h : attributes.Framed pool seen)
    (short : ∀ nested ∈ seen, nested.info.length < 2 ^ 32) : attributes.Short := by
  intro named hnamed
  obtain ⟨found, hfound, -, payload⟩ := Check.exists_of_forall₂ (List.Forall₂.flip h) hnamed
  cases hvalue : named.value with
  | constant entry => trivial
  | bytes info =>
    rw [hvalue] at payload
    obtain rfl := Except.ok.inj payload
    exact short found hfound

end Attributes

/-! ## What a file shows -/

section

variable {pool : Pool} (hpool : pool.Invariant) (settled : pool.state ≠ .growing)

include hpool settled

/-- **A payload shows the content it holds.** -/
theorem Content.Carried.exists_shown {content : Content} {value : AttributeValue} {info : Bytes}
    (h : content.Carried pool value) (written : Attributes.payload pool value = .ok info) :
    ∃ meaning, content.meaning? pool.known = some meaning ∧ meaning.ShownBy pool.asRead info := by
  cases content with
  | given given =>
    obtain rfl : value = given := h
    obtain ⟨meaning, known, shown⟩ := AttributeValue.exists_shown hpool settled written
    exact ⟨.plain meaning, by rw [meaning?, known, Option.map_some], shown⟩
  | text spelled =>
    cases value with
    | bytes _ => exact False.elim h
    | constant entry =>
      have present : pool.constant? entry = some (.utf8 spelled) := h
      obtain ⟨meaning, known, shown⟩ := AttributeValue.exists_shown hpool settled written
      rw [AttributeValue.meaning?, Pool.known, present] at known
      obtain rfl := Option.some.inj known
      exact ⟨_, rfl, shown⟩
  | exceptions entries =>
    cases value with
    | constant _ => exact False.elim h
    | bytes _ =>
      obtain ⟨few, indices, hindices, rfl⟩ := h
      obtain rfl := Except.ok.inj written
      have known : Agree (entries.mapM pool.known)
          ((indices.map UInt16.toNat).mapM pool.asRead.value?) := by
        refine Agree.mapM (List.forall₂_map_right_iff.mpr ((Check.forall₂_of_mapM hindices).imp ?_))
        intro entry index hindex
        have indexed : pool.Indexes entry index.toNat := ⟨index, hindex, rfl⟩
        exact indexed.agree hpool settled
      obtain ⟨classes, hclasses, shown⟩ := known
      refine ⟨.exceptions classes, by rw [meaning?, hclasses, Option.map_some], _, ?_, shown⟩
      exact (reads_indices (Nat.le_trans (Nat.le_of_eq (Check.length_of_mapM hindices)) few)).whole
  | code body =>
    cases value with
    | constant _ => exact False.elim h
    | bytes _ =>
      obtain ⟨sound, payload, assembled, rfl⟩ := h
      obtain rfl := Except.ok.inj written
      obtain ⟨framed, reads⟩ := Code.reads_assembled assembled sound.few
      obtain ⟨meaning, known, shows⟩ := framed.shows hpool settled sound
      refine ⟨.code meaning, by rw [meaning?, known, Option.map_some], payload.asRead,
        (CodeAttribute.bytes_asRead payload).symm, fun short => ?_, shows⟩
      exact (reads (framed.attributes.short short)).whole

/-- Attributes in a file show the contents of their container. -/
theorem Attributes.Carry.exists_shown {attributes : Attributes} {contents : List (Titled Content)}
    {seen : List ReadAttribute} (h : attributes.Carry pool contents)
    (sound : attributes.Sound pool) (framed : attributes.Framed pool seen) :
    ∃ listed, meanings? pool.known contents = some listed ∧ ShownBy pool.asRead listed seen := by
  refine exists_mapM_of_forall₂ (forall₂_trans ?_ h
    ((List.forall₂_and_left _ _).mpr ⟨sound.named, framed⟩))
  rintro titled named found ⟨same, carried⟩ ⟨present, indexed, written⟩
  obtain ⟨meaning, known, shown⟩ := carried.exists_shown hpool settled written
  refine ⟨⟨titled.name, meaning⟩, by rw [known, Option.map_some], ?_, shown⟩
  rw [indexed.text? hpool settled present, same]

/-- A member in a file shows its flags, name and descriptor and the contents of its container. -/
theorem MemberFramed.exists_shown {flags : UInt16} {nameEntry descriptorEntry : Entry}
    {attributes : Attributes} {contents : List (Titled Content)} {seen : ReadMember}
    (h : MemberFramed pool flags nameEntry descriptorEntry attributes seen)
    {name descriptor : String}
    (hname : pool.constant? nameEntry = some (.utf8 name))
    (hdescriptor : pool.constant? descriptorEntry = some (.utf8 descriptor))
    (carry : attributes.Carry pool contents) (sound : attributes.Sound pool) :
    ∃ meaning, (meanings? pool.known contents).map
        (MemberMeaning.mk flags.toNat name descriptor) = some meaning ∧
      meaning.ShownBy pool.asRead seen := by
  obtain ⟨listed, known, shown⟩ := carry.exists_shown hpool settled sound h.attributes
  obtain ⟨sameFlags, sameName, sameDescriptor⟩ := h.declares hpool settled hname hdescriptor
  exact ⟨⟨flags.toNat, name, descriptor, listed⟩, by rw [known, Option.map_some],
    sameFlags, sameName, sameDescriptor, shown⟩

end

/-! ## Members -/

theorem Field.Finished.carry {pool : Pool} {built final : Field} (h : built.Finished pool final) :
    final.attributes.Carry pool built.contents := by
  refine (Attributes.carry_contents built.attributes).gains ?_ h.generated
  cases built.constantValue with
  | none => exact .none
  | some entry => exact .some rfl

theorem Method.Finished.carry {pool : Pool} {built final : Method} {asked : List Method.Edit}
    (h : built.Finished pool final) (hpool : pool.Invariant)
    (reflects : built.Reflects pool asked) :
    final.attributes.Carry pool built.contents := by
  obtain ⟨assembled, indices, middle, hassembled, hindices, gainsCode, gainsThrows⟩ := h.generated
  have code : middle.Carry pool
      (Titled.gain codeName (built.code.map .code) built.attributes.contents) := by
    refine (Attributes.carry_contents built.attributes).gains ?_ gainsCode
    cases hcode : built.code with
    | none =>
      rw [hcode] at hassembled
      obtain rfl := Check.pure_eq_ok.mp hassembled
      exact .none
    | some body =>
      rw [hcode] at hassembled
      obtain ⟨payload, hpayload, hsome⟩ := Check.bind_eq_ok.mp hassembled
      obtain rfl := Check.pure_eq_ok.mp hsome
      exact .some ⟨reflects.nested body hcode, payload, hpayload, rfl⟩
  refine code.gains ?_ gainsThrows
  by_cases declared : built.throws = []
  · rw [declared] at hindices ⊢
    obtain rfl := Check.pure_eq_ok.mp hindices
    exact .none
  · rw [if_neg (by simpa using declared), exceptionsValue?_of_mapM hindices declared]
    exact .some ⟨reflects.few_throws hpool, indices, hindices, rfl⟩

theorem Class.RecordsSource.carry {pool : Pool} {built final : Class}
    (h : RecordsSource pool built final) : final.attributes.Carry pool built.contents := by
  have start : built.attributes.Carry pool built.attributes.contents := Attributes.carry_contents _
  unfold Class.contents
  rcases h with ⟨unnamed | present, same⟩ | ⟨file, entry, named, absent, hentry, gains⟩
  · have none_given : (if built.attributes.contains sourceFileName then none
        else built.sourceFile.map Content.text) = none := by
      rw [unnamed, Option.map_none, ite_self]
    rw [none_given, same]
    exact start
  · rw [if_pos present, same]
    exact start
  · have carried : (Content.text file).Carried pool (.constant entry) := hentry
    rw [absent, named]
    exact start.gains (.some carried) gains

/-! ## The class -/

/-- **A file shows the meaning of the class it was made from.** -/
theorem Class.Framed.shows {built final : Class} {log : List Class.Edit} {seen : ReadClass}
    (reflects : built.Reflects log) (prepared : built.Prepared final) (framed : final.Framed seen) :
    ∃ meaning, built.meaning? final.pool.known = some meaning ∧ seen.Shows meaning := by
  have hpool := prepared.pool
  have settled := Pool.settled_of_state prepared.closed nofun
  have same := prepared.same
  have named (name : BinaryName)
      (hname : name ∈ built.name :: built.superName :: built.interfaces) :
      seen.pool.value? (final.pool.position (.classNamed name)) =
        some (Constant.classNamed name).value := by
    rw [framed.pool]
    exact Pool.leads_position hpool settled (prepared.names name hname)
  have interfaces : seen.interfaces.mapM seen.pool.value? =
      some (built.interfaces.map fun name => (Constant.classNamed name).value) := by
    have each : List.Forall₂ (fun index name => ∃ value, seen.pool.value? index = some value ∧
        value = (Constant.classNamed name).value) seen.interfaces built.interfaces := by
      rw [framed.interfaces, same, List.forall₂_map_left_iff]
      exact List.forall₂_same.mpr fun name hname =>
        ⟨_, named name (List.mem_cons_of_mem _ (List.mem_cons_of_mem _ hname)), rfl⟩
    obtain ⟨values, read, all⟩ := exists_mapM_of_forall₂ each
    rw [← List.forall₂_map_right_iff, List.forall₂_eq_eq_eq] at all
    rw [read, all]
  have fields : ∃ members,
      built.fields.toList.mapM (Field.meaning? final.pool.known) = some members ∧
      List.Forall₂ (MemberMeaning.ShownBy seen.pool) members seen.fields := by
    rw [framed.pool]
    refine exists_mapM_of_forall₂ (forall₂_trans ?_ ((List.forall₂_and_left _ _).mpr
      ⟨fun _ hfield => reflects.fields.of_mem hfield, prepared.fields⟩) framed.fields)
    rintro field done member ⟨⟨index, reflects⟩, finished⟩ framed
    have known := reflects.mono prepared.more
    have carry := finished.carry
    have sound := finished.attributes
    rw [Field.Framed, finished.same] at framed
    exact framed.exists_shown hpool settled known.name known.type carry sound
  have methods : ∃ members,
      built.methods.toList.mapM (Method.meaning? final.pool.known) = some members ∧
      List.Forall₂ (MemberMeaning.ShownBy seen.pool) members seen.methods := by
    rw [framed.pool]
    refine exists_mapM_of_forall₂ (forall₂_trans ?_ ((List.forall₂_and_left _ _).mpr
      ⟨fun _ hmethod => reflects.methods.of_mem hmethod, prepared.methods⟩) framed.methods)
    rintro method done member ⟨⟨index, reflects⟩, finished⟩ framed
    have known := reflects.mono prepared.more
    have carry := finished.carry hpool known
    have sound := finished.attributes
    rw [Method.Framed, finished.same] at framed
    exact framed.exists_shown hpool settled known.name known.descriptor carry sound
  obtain ⟨fieldMeanings, hfields, shownFields⟩ := fields
  obtain ⟨methodMeanings, hmethods, shownMethods⟩ := methods
  obtain ⟨listed, hlisted, shownAttributes⟩ := prepared.source.carry.exists_shown hpool settled
    prepared.attributes framed.attributes
  refine ⟨_, by rw [Class.meaning?, hfields, hmethods, hlisted]; rfl, ?_⟩
  exact {
    minor := by
      rw [framed.minor, same]
    major := by
      rw [framed.major, same]
    flags := by
      rw [framed.flags, same]
    thisClass := by
      rw [framed.thisClass, same]
      exact named _ List.mem_cons_self
    superClass := by
      rw [framed.superClass, same]
      exact named _ (List.mem_cons_of_mem _ List.mem_cons_self)
    interfaces
    fields := shownFields
    methods := shownMethods
    attributes := by
      rw [framed.pool]
      exact shownAttributes }

end JvmAsm
