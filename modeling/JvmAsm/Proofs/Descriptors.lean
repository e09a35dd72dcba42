import JvmAsm.Proofs.CursorPlaces

/-! # Descriptors are read exactly as they are rendered

Descriptors have no separators, so it is not obvious that a text stands for one
value only, nor that the reader finds it.  Each reader here is exact
(`Reading.Exact`), and a list of parameters is read by as many turns of one exact reader.

Three facts carry this.  The characters of a class name leave out `;`, so the first
one ends the name.  No element type starts with `[`, so the brackets that can be
passed are the dimensions.  No field type starts with `)` or `V`, so both end the list
of parameters and the reading of a result.

The limit on dimensions is the reader's and not the renderer's: types beyond it are
rendered, differently from all others, and are not read back.  But the dimensions of an
array are counted with 64 bits, and one kind of array has too many for that
(`FieldType.Countable`). -/

namespace JvmAsm

/-! ## Names -/

namespace BinaryName

theorem text_injective : Function.Injective text := by
  rintro ⟨text, valid⟩ ⟨text', valid'⟩ (rfl : text = text')
  rfl

theorem segments_slash (rest : List Char) : segments ('/' :: rest) = [] :: segments rest := rfl

theorem segments_ne_nil (chars : List Char) : segments chars ≠ [] := by
  cases chars with
  | nil => exact List.cons_ne_nil _ _
  | cons c rest =>
    unfold segments
    rw [List.foldr_cons]
    split
    · exact List.cons_ne_nil _ _
    · split <;> exact List.cons_ne_nil _ _

/-- A character other than a slash belongs to the first segment of what it stands before. -/
theorem segments_cons {c : Char} (other : c ≠ '/') (rest : List Char) :
    ∃ part parts, segments rest = part :: parts ∧ segments (c :: rest) = (c :: part) :: parts := by
  obtain ⟨part, parts, hrest⟩ := List.exists_cons_of_ne_nil (segments_ne_nil rest)
  refine ⟨part, parts, hrest, ?_⟩
  unfold segments at hrest ⊢
  rw [List.foldr_cons, if_neg other, hrest]

/-- A character of a text is a slash or stands in one of the segments. -/
theorem mem_segments {c : Char} {chars : List Char} (h : c ∈ chars) :
    c = '/' ∨ ∃ segment ∈ segments chars, c ∈ segment := by
  induction chars with
  | nil => cases h
  | cons first rest ih =>
    by_cases slash : first = '/'
    · subst slash
      rw [segments_slash]
      rcases List.mem_cons.mp h with rfl | later
      · exact .inl rfl
      · refine (ih later).imp_right ?_
        rintro ⟨segment, hsegment, hc⟩
        exact ⟨segment, List.mem_cons_of_mem _ hsegment, hc⟩
    · obtain ⟨part, parts, hrest, hsegments⟩ := segments_cons slash rest
      rw [hsegments]
      rcases List.mem_cons.mp h with rfl | later
      · exact .inr ⟨c :: part, List.mem_cons_self, List.mem_cons_self⟩
      · refine (ih later).imp_right ?_
        rintro ⟨segment, hsegment, hc⟩
        rw [hrest] at hsegment
        rcases List.mem_cons.mp hsegment with rfl | elsewhere
        · exact ⟨first :: segment, List.mem_cons_self, List.mem_cons_of_mem _ hc⟩
        · exact ⟨segment, List.mem_cons_of_mem _ elsewhere, hc⟩

/-- **A name holds none of the characters that descriptors use around names.** -/
theorem not_reserved (name : BinaryName) {c : Char} (h : c ∈ name.text.toList) :
    c ≠ ';' ∧ c ≠ '[' := by
  rcases mem_segments h with rfl | ⟨segment, hsegment, hc⟩
  · decide
  · have valid := List.all_eq_true.mp name.valid segment hsegment
    have plain := List.all_eq_true.mp (Bool.and_eq_true_iff.mp valid).2 c hc
    constructor <;> rintro rfl <;> exact absurd plain (by decide)

theorem ofString_eq_ok {text : String} {name : BinaryName} :
    ofString text = .ok name ↔ name.text = text := by
  unfold ofString
  by_cases empty : text = ""
  · rw [if_pos empty]
    constructor
    · intro refused
      cases refused
    · -- The empty text has one segment, and that is empty.
      intro same
      have valid := name.valid
      rw [same, empty] at valid
      exact absurd valid (by decide)
  · rw [if_neg empty]
    obtain ⟨own, valid⟩ := name
    constructor
    · intro h
      split at h
      · exact (congrArg BinaryName.text (Except.ok.inj h)).symm
      · cases h
    · rintro rfl
      exact dif_pos valid

end BinaryName

/-! ## Element types -/

namespace Reading

variable {before after : Cursor}


theorem readClass_eq_ok {element : ElementType} :
    readClass before = .ok element after ↔ ∃ name : BinaryName, element = .object name ∧
      before.Passes (name.text.toList ++ [';']) after := by
  unfold readClass
  rw [Attempt.bind_eq_ok]
  constructor
  · rintro ⟨text, middle, htake, h⟩
    cases hname : BinaryName.ofString text with
    | error cause =>
      rw [hname] at h
      cases h
    | ok name =>
      rw [hname] at h
      obtain ⟨rfl, rfl⟩ := Attempt.pure_eq_ok.mp h
      have spelled := BinaryName.ofString_eq_ok.mp hname
      refine ⟨name, rfl, ?_⟩
      rw [spelled]
      exact (takeUntil_eq_ok.mp htake).2
  · rintro ⟨name, rfl, passes⟩
    have absent : ';' ∉ name.text.toList := fun found => (name.not_reserved found).1 rfl
    refine ⟨name.text, after, takeUntil_eq_ok.mpr ⟨absent, passes⟩, ?_⟩
    rw [BinaryName.ofString_eq_ok.mpr rfl]
    rfl

end Reading

namespace BaseType

theorem ofLetter?_eq_some {found : Char} {type : BaseType} :
    ofLetter? found = some type ↔ type.letter = found := by
  constructor
  · intro h
    unfold ofLetter? at h
    split at h <;> cases h <;> rfl
  · rintro rfl
    cases type <;> rfl

/-- No base type shares its letter with a character that has another meaning. -/
theorem letter_ne (type : BaseType) :
    type.letter ≠ 'L' ∧ type.letter ≠ '[' ∧ type.letter ≠ ')' ∧ type.letter ≠ 'V' := by
  cases type <;> decide

end BaseType

/-- The first character of an element type ends neither dimensions nor parameters. -/
theorem ElementType.head_chars (element : ElementType) :
    ∃ first rest, element.chars = first :: rest ∧ first ≠ '[' ∧ first ≠ ')' ∧ first ≠ 'V' := by
  cases element with
  | base type => exact ⟨type.letter, [], rfl, type.letter_ne.2⟩
  | object name => exact ⟨'L', _, rfl, by decide⟩

namespace Reading

variable {before after : Cursor}

theorem readElement_exact : readElement.Exact ElementType.chars fun _ => True := by
  intro before element after
  unfold readElement
  rw [Attempt.bind_eq_ok, true_and]
  constructor
  · rintro ⟨found?, middle, hnext, h⟩
    cases found? with
    | none => cases h
    | some found =>
      have passed := next_eq_ok.mp hnext
      dsimp only at h
      by_cases hclass : found = 'L'
      · rw [if_pos hclass] at h
        obtain ⟨name, rfl, passes⟩ := readClass_eq_ok.mp h
        subst hclass
        exact Cursor.passes_append.mpr ⟨middle, passed, passes⟩
      · rw [if_neg hclass] at h
        cases hletter : BaseType.ofLetter? found with
        | none =>
          rw [hletter] at h
          cases h
        | some type =>
          rw [hletter] at h
          obtain ⟨rfl, rfl⟩ := Attempt.pure_eq_ok.mp h
          obtain rfl := BaseType.ofLetter?_eq_some.mp hletter
          exact passed
  · intro passes
    cases element with
    | base type =>
      refine ⟨some type.letter, after, next_eq_ok.mpr passes, ?_⟩
      dsimp only
      rw [if_neg type.letter_ne.1, BaseType.ofLetter?_eq_some.mpr rfl]
      rfl
    | object name =>
      obtain ⟨middle, first, second⟩ := Cursor.passes_append.mp
        (show before.Passes (['L'] ++ (name.text.toList ++ [';'])) after from passes)
      refine ⟨some 'L', middle, next_eq_ok.mpr first, ?_⟩
      exact readClass_eq_ok.mpr ⟨name, rfl, second⟩

end Reading

/-! ## Field types -/

namespace FieldType

/-- The number of dimensions, however many there are. -/
def depth : FieldType → Nat
  | ref (.array extra _) => extra.toNat + 1
  | _ => 0

/-- No array in the type has more than 255 dimensions. -/
def Shallow (type : FieldType) : Prop := type.depth ≤ 255

/-- The number of dimensions has 64 bits. -/
def Countable (type : FieldType) : Prop := type.depth < UInt64.size

theorem Shallow.countable {type : FieldType} (h : type.Shallow) : type.Countable :=
  Nat.lt_of_le_of_lt h (by decide)

/-- Dimensions that can be counted are counted right. -/
theorem Countable.toNat_dimensions {type : FieldType} (h : type.Countable) :
    type.dimensions.toNat = type.depth := by
  rcases type with type | ⟨name⟩ | ⟨extra, element⟩
  · rfl
  · rfl
  · exact (UInt64.toNat_add extra 1).trans (Nat.mod_eq_of_lt h)

theorem ofElement_succ (extra : Nat) (element : ElementType) :
    ofElement (extra + 1) element = ref (.array (.ofNat extra) element) := by
  induction extra with
  | zero => cases element <;> rfl
  | succ extra ih =>
    rw [ofElement, ih, UInt64.ofNat_add]
    rfl

theorem ofElement_eq_iff {dimensions : Nat} (few : dimensions < UInt64.size) {element : ElementType}
    {type : FieldType} :
    ofElement dimensions element = type ↔ type.depth = dimensions ∧ type.element = element := by
  constructor
  · rintro rfl
    cases dimensions with
    | zero => cases element <;> exact ⟨rfl, rfl⟩
    | succ extra =>
      rw [ofElement_succ]
      have exactly : (UInt64.ofNat extra).toNat = extra :=
        UInt64.toNat_ofNat_of_lt' (Nat.lt_trans (Nat.lt_succ_self extra) few)
      exact ⟨congrArg (· + 1) exactly, rfl⟩
  · rintro ⟨rfl, rfl⟩
    rcases type with type | ⟨name⟩ | ⟨extra, element⟩
    · rfl
    · rfl
    · rw [depth, ofElement_succ, UInt64.ofNat_toNat]
      rfl

/-- A field type is written as its dimensions, as far as they are counted, and its element type. -/
theorem chars_eq (type : FieldType) :
    type.chars = List.replicate type.dimensions.toNat '[' ++ type.element.chars := by
  rcases type with type | ⟨name⟩ | ⟨extra, element⟩ <;> rfl

/-- The first character of a field type ends neither parameters nor a result. -/
theorem head_chars (type : FieldType) :
    ∃ first rest, type.chars = first :: rest ∧ first ≠ ')' ∧ first ≠ 'V' := by
  rw [chars_eq]
  cases type.dimensions.toNat with
  | zero =>
    obtain ⟨first, rest, h, -, other⟩ := type.element.head_chars
    exact ⟨first, rest, by rw [h]; rfl, other⟩
  | succ extra => exact ⟨'[', _, rfl, by decide⟩

end FieldType

namespace Reading

/-- The brackets that can be passed in front of an element type are its dimensions. -/
theorem skipAll_brackets {before after : Cursor} {dimensions : Nat} {element : ElementType}
    (h : before.Passes (List.replicate dimensions '[' ++ element.chars) after) :
    ∃ middle, skipAll '[' 0 before = .ok dimensions middle ∧
      readElement middle = .ok element after := by
  obtain ⟨middle, first, second⟩ := Cursor.passes_append.mp h
  obtain ⟨c, rest, hchars, other, -⟩ := element.head_chars
  have faces : middle.Faces (some c) := (hchars ▸ second).faces
  have run : skipAll '[' 0 before = .ok (0 + dimensions) middle :=
    skipAll_of_passes first faces fun same => other (Option.some.inj same)
  rw [Nat.zero_add] at run
  exact ⟨middle, run, (readElement_exact _ _ _).mpr ⟨trivial, second⟩⟩

theorem readField_exact : readField.Exact FieldType.chars FieldType.Shallow := by
  intro before type after
  unfold readField
  rw [Attempt.bind_eq_ok, FieldType.chars_eq]
  constructor
  · rintro ⟨dimensions, middle, hskip, h⟩
    by_cases deep : maxArrayDimensions < dimensions
    · rw [if_pos deep] at h
      cases h
    · rw [if_neg deep] at h
      obtain ⟨element, last, hread, h⟩ := Attempt.bind_eq_ok.mp h
      obtain ⟨same, rfl⟩ := Attempt.pure_eq_ok.mp h
      have limit : dimensions ≤ 255 := Nat.le_of_not_lt deep
      obtain ⟨rfl, rfl⟩ :=
        (FieldType.ofElement_eq_iff (Nat.lt_of_le_of_lt limit (by decide))).mp same
      have shallow : type.Shallow := limit
      obtain ⟨count, _, counted, passes, -⟩ := passes_of_skipAll hskip
      rw [Nat.zero_add] at counted
      rw [shallow.countable.toNat_dimensions, counted]
      exact ⟨shallow, Cursor.passes_append.mpr
        ⟨middle, passes, ((readElement_exact _ _ _).mp hread).2⟩⟩
  · rintro ⟨shallow, passes⟩
    rw [shallow.countable.toNat_dimensions] at passes
    obtain ⟨middle, hskip, hread⟩ := skipAll_brackets passes
    refine ⟨type.depth, middle, hskip, ?_⟩
    have within : ¬ maxArrayDimensions < type.depth := Nat.not_lt.mpr shallow
    rw [if_neg within]
    refine Attempt.bind_eq_ok.mpr ⟨type.element, after, hread, Attempt.pure_eq_ok.mpr ⟨?_, rfl⟩⟩
    exact (FieldType.ofElement_eq_iff shallow.countable).mpr ⟨rfl, rfl⟩

end Reading

/-- **Field types are told apart by their characters, whatever follows**, also those that are too
deep to be read. -/
theorem FieldType.chars_append_inj {type type' : FieldType} (countable : type.Countable)
    (countable' : type'.Countable) {rest rest' : List Char}
    (h : type.chars ++ rest = type'.chars ++ rest') : type = type' ∧ rest = rest' := by
  rw [chars_eq, chars_eq, countable.toNat_dimensions, countable'.toNat_dimensions] at h
  -- The same text is read in two ways, so the readings agree.
  have start := Cursor.stands_ofString
    (rfl : String.ofList (List.replicate type.depth '[' ++ type.element.chars ++ rest) = _)
  have start' := Cursor.stands_ofString (congrArg String.ofList h)
  have last := start.advance
  have last' := start'.advance
  obtain ⟨middle, hskip, hread⟩ := Reading.skipAll_brackets (start.passes last)
  obtain ⟨middle', hskip', hread'⟩ := Reading.skipAll_brackets (start'.passes last')
  obtain ⟨depth, rfl⟩ := EStateM.Result.ok.inj (hskip.symm.trans hskip')
  obtain ⟨element, moved⟩ := EStateM.Result.ok.inj (hread.symm.trans hread')
  refine ⟨?_, ((moved ▸ last).unique last').2⟩
  calc type = ofElement type.depth type.element :=
        ((ofElement_eq_iff countable).mpr ⟨rfl, rfl⟩).symm
    _ = type' := (ofElement_eq_iff countable).mpr ⟨depth.symm, element.symm⟩

/-! ## Reference types -/

namespace RefType

/-- No array in the type has more than 255 dimensions. -/
def Shallow (type : RefType) : Prop := (FieldType.ref type).Shallow

/-- The number of dimensions has 64 bits. -/
def Countable (type : RefType) : Prop := (FieldType.ref type).Countable

end RefType

theorem Reading.readRef_exact : readRef.Exact RefType.chars RefType.Shallow := by
  intro before type after
  unfold readRef
  rw [Attempt.bind_eq_ok]
  constructor
  · rintro ⟨read, middle, hread, h⟩
    cases read with
    | base base => cases h
    | ref other =>
      obtain ⟨rfl, rfl⟩ := Attempt.pure_eq_ok.mp h
      exact (readField_exact _ _ _).mp hread
  · intro h
    exact ⟨.ref type, after, (readField_exact _ _ _).mpr h, rfl⟩

/-! ## Method descriptors -/

namespace MethodDescriptor

/-- No array in the descriptor has more than 255 dimensions. -/
def Shallow (descriptor : MethodDescriptor) : Prop :=
  (∀ type ∈ descriptor.parameters, type.Shallow) ∧ ∀ type ∈ descriptor.result, type.Shallow

/-- The numbers of dimensions of all arrays in the descriptor have 64 bits. -/
def Countable (descriptor : MethodDescriptor) : Prop :=
  (∀ type ∈ descriptor.parameters, type.Countable) ∧ ∀ type ∈ descriptor.result, type.Countable

/-- The characters of a result. -/
def resultChars (result : Option FieldType) : List Char := result.elim ['V'] FieldType.chars

theorem chars_eq (descriptor : MethodDescriptor) : descriptor.chars =
    ['('] ++ ((descriptor.parameters.flatMap FieldType.chars ++ [')']) ++
      resultChars descriptor.result) := by
  obtain ⟨parameters, result⟩ := descriptor
  cases result <;> simp [chars, resultChars]

end MethodDescriptor

namespace Reading

variable {before after : Cursor}

/-- The closing parenthesis ends the parameters. -/
theorem readParameters_of_true {done : Array FieldType} (h : eat ')' before = .ok true after) :
    readParameters done before = .ok done.toList after := by
  rw [readParameters]
  split <;> rename_i run <;> cases h.symm.trans run
  rfl

/-- Anything else is one more of them. -/
theorem readParameters_of_false {done : Array FieldType} (h : eat ')' before = .ok false before) :
    readParameters done before =
      (readField >>= fun type => readParameters (done.push type)) before := by
  rw [readParameters]
  split <;> rename_i run <;> cases h.symm.trans run
  simp only [bind, EStateM.bind]
  split <;> rename_i read <;> rw [read]

theorem readParameters_of_error {done : Array FieldType} {cause : DescriptorError}
    (h : eat ')' before = .error cause after) :
    readParameters done before = .error cause after := by
  rw [readParameters]
  split <;> rename_i run <;> cases h.symm.trans run
  rfl

theorem passes_of_readParameters {done : Array FieldType} {parameters : List FieldType}
    {before after : Cursor} (h : readParameters done before = .ok parameters after) :
    ∃ types, parameters = done.toList ++ types ∧ (∀ type ∈ types, type.Shallow) ∧
      before.Passes (types.flatMap FieldType.chars ++ [')']) after := by
  cases heat : eat ')' before with
  | error cause middle =>
    rw [readParameters_of_error heat] at h
    cases h
  | ok closed middle =>
    cases closed with
    | true =>
      rw [readParameters_of_true heat] at h
      obtain ⟨rfl, rfl⟩ := EStateM.Result.ok.inj h
      exact ⟨[], (List.append_nil _).symm, nofun, eat_eq_true.mp heat⟩
    | false =>
      rw [eat_stays heat] at heat
      rw [readParameters_of_false heat] at h
      obtain ⟨type, next, hread, h⟩ := Attempt.bind_eq_ok.mp h
      have shorter := readField_shorter hread
      obtain ⟨types, rfl, shallow, passes⟩ := passes_of_readParameters h
      obtain ⟨shallowFirst, passesFirst⟩ := (readField_exact _ _ _).mp hread
      refine ⟨type :: types, ?_, List.forall_mem_cons.mpr ⟨shallowFirst, shallow⟩, ?_⟩
      · rw [Array.toList_push, List.append_assoc]
        rfl
      · rw [List.flatMap_cons, List.append_assoc]
        exact Cursor.passes_append.mpr ⟨next, passesFirst, passes⟩
termination_by before.left

/-- A field type starts with neither of the characters that may stand in its place. -/
theorem eat_of_passes_field {type : FieldType} {wanted : Char} (h : before.Passes type.chars after)
    (reserved : wanted = ')' ∨ wanted = 'V') : eat wanted before = .ok false before := by
  obtain ⟨first, rest, hchars, notParenthesis, notVoid⟩ := type.head_chars
  rw [hchars] at h
  refine eat_eq_false.mpr ⟨rfl, some first, h.faces, fun same => ?_⟩
  rw [Option.some.inj same] at notParenthesis notVoid
  exact reserved.elim notParenthesis notVoid

theorem readParameters_of_passes {done : Array FieldType} {types : List FieldType}
    (shallow : ∀ type ∈ types, type.Shallow)
    (h : before.Passes (types.flatMap FieldType.chars ++ [')']) after) :
    readParameters done before = .ok (done.toList ++ types) after := by
  induction types generalizing done before with
  | nil => rw [readParameters_of_true (eat_eq_true.mpr h), List.append_nil]
  | cons type types ih =>
    rw [List.flatMap_cons, List.append_assoc] at h
    obtain ⟨middle, passesFirst, passes⟩ := Cursor.passes_append.mp h
    obtain ⟨shallowFirst, shallow⟩ := List.forall_mem_cons.mp shallow
    rw [readParameters_of_false (eat_of_passes_field passesFirst (.inl rfl))]
    refine Attempt.bind_eq_ok.mpr
      ⟨type, middle, (readField_exact _ _ _).mpr ⟨shallowFirst, passesFirst⟩, ?_⟩
    rw [ih shallow passes, Array.toList_push, List.append_assoc]
    rfl

theorem readParameters_exact : (readParameters #[]).Exact
    (fun types => types.flatMap FieldType.chars ++ [')'])
    (fun types => ∀ type ∈ types, type.Shallow) := by
  intro before types after
  constructor
  · intro h
    obtain ⟨types, rfl, read⟩ := passes_of_readParameters h
    exact read
  · rintro ⟨shallow, passes⟩
    exact readParameters_of_passes shallow passes

theorem readResult_exact : readResult.Exact MethodDescriptor.resultChars
    (fun result => ∀ type ∈ result, type.Shallow) := by
  intro before result after
  unfold readResult
  rw [Attempt.bind_eq_ok]
  constructor
  · rintro ⟨void, middle, heat, h⟩
    cases void with
    | true =>
      obtain ⟨rfl, rfl⟩ := Attempt.pure_eq_ok.mp h
      exact ⟨nofun, eat_eq_true.mp heat⟩
    | false =>
      obtain rfl := eat_stays heat
      obtain ⟨type, last, hread, h⟩ := Attempt.bind_eq_ok.mp h
      obtain ⟨rfl, rfl⟩ := Attempt.pure_eq_ok.mp h
      obtain ⟨shallow, passes⟩ := (readField_exact _ _ _).mp hread
      exact ⟨fun _ h => Option.some.inj h ▸ shallow, passes⟩
  · rintro ⟨shallow, passes⟩
    cases result with
    | none => exact ⟨true, after, eat_eq_true.mpr passes, rfl⟩
    | some type =>
      refine ⟨false, before, eat_of_passes_field passes (.inr rfl), ?_⟩
      exact Attempt.bind_eq_ok.mpr
        ⟨type, after, (readField_exact _ _ _).mpr ⟨shallow type rfl, passes⟩, rfl⟩

theorem readMethod_exact : readMethod.Exact MethodDescriptor.chars MethodDescriptor.Shallow := by
  intro before descriptor after
  rw [MethodDescriptor.chars_eq, Cursor.passes_append]
  unfold readMethod
  rw [Attempt.bind_eq_ok]
  constructor
  · rintro ⟨begun, opened, heat, h⟩
    cases begun with
    | false => cases h
    | true =>
      obtain ⟨parameters, middle, hparameters, h⟩ := Attempt.bind_eq_ok.mp h
      obtain ⟨result, last, hresult, h⟩ := Attempt.bind_eq_ok.mp h
      obtain ⟨rfl, rfl⟩ := Attempt.pure_eq_ok.mp h
      obtain ⟨shallow, passes⟩ := (readParameters_exact _ _ _).mp hparameters
      obtain ⟨shallow', passes'⟩ := (readResult_exact _ _ _).mp hresult
      exact ⟨⟨shallow, shallow'⟩, opened, eat_eq_true.mp heat,
        Cursor.passes_append.mpr ⟨middle, passes, passes'⟩⟩
  · rintro ⟨⟨shallow, shallow'⟩, opened, passes, following⟩
    refine ⟨true, opened, eat_eq_true.mpr passes, ?_⟩
    obtain ⟨middle, passes, passes'⟩ := Cursor.passes_append.mp following
    refine Attempt.bind_eq_ok.mpr
      ⟨descriptor.parameters, middle, (readParameters_exact _ _ _).mpr ⟨shallow, passes⟩, ?_⟩
    exact Attempt.bind_eq_ok.mpr
      ⟨descriptor.result, after, (readResult_exact _ _ _).mpr ⟨shallow', passes'⟩, rfl⟩

end Reading

/-! ## Rendering tells values apart -/

namespace FieldType

/-- Lists of parameters are told apart by their characters up to the closing parenthesis. -/
theorem flatMap_chars_inj {types types' : List FieldType}
    (countable : ∀ type ∈ types, type.Countable)
    (countable' : ∀ type ∈ types', type.Countable) {rest rest' : List Char}
    (h : types.flatMap chars ++ ')' :: rest = types'.flatMap chars ++ ')' :: rest') :
    types = types' ∧ rest = rest' := by
  induction types generalizing types' with
  | nil =>
    cases types' with
    | nil => exact ⟨rfl, (List.cons.inj h).2⟩
    | cons type' types' =>
      obtain ⟨first, tail, hchars, other, -⟩ := type'.head_chars
      rw [List.flatMap_cons, hchars] at h
      exact absurd (List.cons.inj h).1.symm other
  | cons type types ih =>
    cases types' with
    | nil =>
      obtain ⟨first, tail, hchars, other, -⟩ := type.head_chars
      rw [List.flatMap_cons, hchars] at h
      exact absurd (List.cons.inj h).1 other
    | cons type' types' =>
      obtain ⟨first, others⟩ := List.forall_mem_cons.mp countable
      obtain ⟨first', others'⟩ := List.forall_mem_cons.mp countable'
      rw [List.flatMap_cons, List.flatMap_cons, List.append_assoc, List.append_assoc] at h
      obtain ⟨rfl, following⟩ := chars_append_inj first first' h
      obtain ⟨rfl, rfl⟩ := ih others others' following
      exact ⟨rfl, rfl⟩

theorem render_inj {type type' : FieldType} (countable : type.Countable)
    (countable' : type'.Countable) (h : type.render = type'.render) : type = type' := by
  have same : type.chars ++ [] = type'.chars ++ [] :=
    congrArg (· ++ []) (String.ofList_injective h)
  exact (chars_append_inj countable countable' same).1

end FieldType

theorem RefType.render_inj {type type' : RefType} (countable : type.Countable)
    (countable' : type'.Countable) (h : type.render = type'.render) : type = type' :=
  FieldType.ref.inj (FieldType.render_inj countable countable' h)

theorem MethodDescriptor.resultChars_inj {result result' : Option FieldType}
    (countable : ∀ type ∈ result, type.Countable) (countable' : ∀ type ∈ result', type.Countable)
    (h : resultChars result = resultChars result') : result = result' := by
  cases result with
  | none =>
    cases result' with
    | none => rfl
    | some type' =>
      obtain ⟨first, tail, hchars, -, other⟩ := type'.head_chars
      change ['V'] = type'.chars at h
      rw [hchars] at h
      exact absurd (List.cons.inj h).1.symm other
  | some type =>
    cases result' with
    | none =>
      obtain ⟨first, tail, hchars, -, other⟩ := type.head_chars
      change type.chars = ['V'] at h
      rw [hchars] at h
      exact absurd (List.cons.inj h).1 other
    | some type' =>
      exact congrArg some (FieldType.render_inj (countable type rfl) (countable' type' rfl)
        (congrArg String.ofList h))

theorem MethodDescriptor.render_inj {descriptor descriptor' : MethodDescriptor}
    (countable : descriptor.Countable) (countable' : descriptor'.Countable)
    (h : descriptor.render = descriptor'.render) : descriptor = descriptor' := by
  have same := String.ofList_injective h
  rw [chars_eq, chars_eq, List.append_assoc, List.append_assoc] at same
  obtain ⟨parameters, results⟩ :=
    FieldType.flatMap_chars_inj countable.1 countable'.1 (List.cons.inj same).2
  have result := resultChars_inj countable.2 countable'.2 results
  obtain ⟨types, result?⟩ := descriptor
  obtain ⟨types', result?'⟩ := descriptor'
  exact congrArg₂ MethodDescriptor.mk parameters result

/-! ## Parsing -/

end JvmAsm
