import JvmAsm.Descriptor.Cursor

/-! # Reading descriptors

The readers of element types, field types, reference types and method
descriptors. Each takes one value off the front of the text ahead. The reader of
parameters ends because every field type it reads passes at least one byte, which
is `readField_shorter`. -/

namespace JvmAsm.Reading

/-! ## Moving on

The loops of a reader end because a turn passes at least one byte. -/

/-- A character can be seen only if something is left. -/
theorem peek_left {before after : Cursor} {found : Char}
    (h : peek before = .ok (some found) after) : after = before ∧ 0 < before.left := by
  unfold peek at h
  obtain ⟨text, middle, hrest, answer⟩ := Attempt.bind_eq_ok.mp h
  obtain ⟨first, rfl⟩ := Attempt.pure_eq_ok.mp answer
  unfold rest at hrest
  cases hplace : before.rest? with
  | none =>
    rw [hplace] at hrest
    cases hrest
  | some ahead =>
    rw [hplace] at hrest
    obtain ⟨rfl, rfl⟩ := EStateM.Result.ok.inj hrest
    refine ⟨rfl, ?_⟩
    unfold Cursor.rest? at hplace
    split at hplace
    · rename_i boundary
      obtain rfl := Option.some.inj hplace
      -- The text is what was passed and what is ahead, and the latter is not empty.
      have split := (before.source.pos _ boundary).splits
      have size := congrArg String.utf8ByteSize split.eq_append
      have passed := congrArg String.Pos.Raw.byteIdx split.offset_eq_rawEndPos
      rw [String.utf8ByteSize_append] at size
      rw [String.offset_pos, String.byteIdx_rawEndPos] at passed
      have more :
          (before.source.sliceFrom (before.source.pos _ boundary)).copy.utf8ByteSize ≠ 0 := by
        intro none
        rw [String.Slice.front?_eq, String.utf8ByteSize_eq_zero_iff.mp none] at first
        cases first
      unfold Cursor.left
      dsimp only at passed
      omega
    · cases hplace

/-- A character that is there takes at least one byte. -/
theorem left_advance_lt {cursor : Cursor} (more : 0 < cursor.left) (found : Char) :
    Cursor.left { cursor with position := cursor.position + found.utf8Size } < cursor.left := by
  have positive := found.utf8Size_pos
  unfold Cursor.left at more ⊢
  dsimp only
  omega

theorem next_shorter {before after : Cursor} {found : Char}
    (h : next before = .ok (some found) after) : after.left < before.left := by
  unfold next at h
  obtain ⟨found?, middle, hpeek, passing⟩ := Attempt.bind_eq_ok.mp h
  cases found? with
  | none => cases (Attempt.pure_eq_ok.mp passing).1
  | some c =>
    obtain ⟨_, moved, hadvance, answer⟩ := Attempt.bind_eq_ok.mp passing
    obtain ⟨-, rfl⟩ := Attempt.pure_eq_ok.mp answer
    obtain ⟨rfl, more⟩ := peek_left hpeek
    cases hadvance
    exact left_advance_lt more c

theorem eat_shorter {wanted : Char} {before after : Cursor}
    (h : eat wanted before = .ok true after) : after.left < before.left := by
  unfold eat at h
  obtain ⟨found?, middle, hpeek, passing⟩ := Attempt.bind_eq_ok.mp h
  by_cases same : found? = some wanted
  · rw [if_pos same] at passing
    obtain ⟨_, moved, hadvance, answer⟩ := Attempt.bind_eq_ok.mp passing
    obtain ⟨-, rfl⟩ := Attempt.pure_eq_ok.mp answer
    obtain ⟨rfl, more⟩ := peek_left (same ▸ hpeek)
    cases hadvance
    exact left_advance_lt more wanted
  · rw [if_neg same] at passing
    cases (Attempt.pure_eq_ok.mp passing).1

theorem rest_stays {text : String.Slice} {before after : Cursor}
    (h : rest before = .ok text after) : after = before := by
  unfold rest at h
  split at h
  · exact (EStateM.Result.ok.inj h).2.symm
  · cases h

theorem eat_stays {wanted : Char} {before after : Cursor}
    (h : eat wanted before = .ok false after) : after = before := by
  unfold eat peek at h
  obtain ⟨found?, middle, hpeek, passing⟩ := Attempt.bind_eq_ok.mp h
  obtain ⟨text, _, hrest, answer⟩ := Attempt.bind_eq_ok.mp hpeek
  obtain ⟨-, rfl⟩ := Attempt.pure_eq_ok.mp answer
  by_cases same : found? = some wanted
  · rw [if_pos same] at passing
    obtain ⟨_, moved, -, answer⟩ := Attempt.bind_eq_ok.mp passing
    cases (Attempt.pure_eq_ok.mp answer).1
  · rw [if_neg same] at passing
    obtain ⟨-, rfl⟩ := Attempt.pure_eq_ok.mp passing
    exact rest_stays hrest

/-- What is passed moves the cursor forward. -/
theorem takeUntil_no_longer {terminator : Char} {text : String} {before after : Cursor}
    (h : takeUntil terminator before = .ok text after) : after.left ≤ before.left := by
  unfold takeUntil at h
  obtain ⟨ahead, middle, hrest, passing⟩ := Attempt.bind_eq_ok.mp h
  cases hfind : ahead.find? terminator with
  | none =>
    rw [hfind] at passing
    cases passing
  | some stop =>
    rw [hfind] at passing
    obtain ⟨_, moved, hadvance, answer⟩ := Attempt.bind_eq_ok.mp passing
    obtain ⟨-, rfl⟩ := Attempt.pure_eq_ok.mp answer
    cases hadvance
    rw [rest_stays hrest]
    unfold Cursor.left
    dsimp only
    omega

/-! ## Readers -/

/-- Passes every repetition of a character and counts them, beyond those already
counted. -/
def skipAll (repeated : Char) (count : Nat) : Reading Nat := fun cursor =>
  match _h : eat repeated cursor with
  | .ok true after => skipAll repeated (count + 1) after
  | .ok false after => .ok count after
  | .error cause after => .error cause after
termination_by cursor => cursor.left
decreasing_by exact eat_shorter _h

/-- A class, after its `L`. -/
def readClass : Reading ElementType := do
  let text ← takeUntil ';'
  match BinaryName.ofString text with
  | .ok name => pure (.object name)
  | .error cause => fail (.badName cause)

/-- A base type or a class. The character that decides is passed before it is
judged. -/
def readElement : Reading ElementType := do
  match ← next with
  | none => fail .missingFieldType
  | some found =>
    if found = 'L' then
      readClass
    else
      match BaseType.ofLetter? found with
      | some type => pure (.base type)
      | none => fail (.unexpected found)

/-- A field type: its dimensions, then its element type. -/
def readField : Reading FieldType := do
  let dimensions ← skipAll '[' 0
  if maxArrayDimensions < dimensions then
    fail .tooManyDimensions
  else
    let element ← readElement
    pure (.ofElement dimensions element)

/-- A field type that has to be a reference type. -/
def readRef : Reading RefType := do
  match ← readField with
  | .ref type => pure type
  | .base _ => fail .expectedReference

/-- One turn of the loop. -/
theorem skipAll_of_true {repeated : Char} {count : Nat} {before middle : Cursor}
    (h : eat repeated before = .ok true middle) :
    skipAll repeated count before = skipAll repeated (count + 1) middle := by
  rw [skipAll]
  split <;> rename_i run <;> cases h.symm.trans run
  rfl

theorem skipAll_of_false {repeated : Char} {count : Nat} {before middle : Cursor}
    (h : eat repeated before = .ok false middle) :
    skipAll repeated count before = .ok count middle := by
  rw [skipAll]
  split <;> rename_i run <;> cases h.symm.trans run
  rfl

theorem skipAll_of_error {repeated : Char} {count : Nat} {before middle : Cursor}
    {cause : DescriptorError} (h : eat repeated before = .error cause middle) :
    skipAll repeated count before = .error cause middle := by
  rw [skipAll]
  split <;> rename_i run <;> cases h.symm.trans run
  rfl

theorem skipAll_no_longer {repeated : Char} {count total : Nat} {before after : Cursor}
    (h : skipAll repeated count before = .ok total after) : after.left ≤ before.left := by
  cases heat : eat repeated before with
  | error cause middle =>
    rw [skipAll_of_error heat] at h
    cases h
  | ok more middle =>
    cases more with
    | false =>
      rw [skipAll_of_false heat] at h
      cases h
      exact Nat.le_of_eq (congrArg Cursor.left (eat_stays heat))
    | true =>
      have shorter := eat_shorter heat
      rw [skipAll_of_true heat] at h
      exact Nat.le_trans (skipAll_no_longer h) (Nat.le_of_lt shorter)
termination_by before.left

/-- The first character of an element is always passed. -/
theorem readElement_shorter {element : ElementType} {before after : Cursor}
    (h : readElement before = .ok element after) : after.left < before.left := by
  unfold readElement at h
  obtain ⟨found?, middle, hnext, reading⟩ := Attempt.bind_eq_ok.mp h
  cases found? with
  | none => cases reading
  | some found =>
    have shorter := next_shorter hnext
    dsimp only at reading
    by_cases hclass : found = 'L'
    · rw [if_pos hclass] at reading
      unfold readClass at reading
      obtain ⟨text, last, htext, naming⟩ := Attempt.bind_eq_ok.mp reading
      have further := takeUntil_no_longer htext
      cases hname : BinaryName.ofString text with
      | ok name =>
        rw [hname] at naming
        obtain ⟨-, rfl⟩ := Attempt.pure_eq_ok.mp naming
        omega
      | error cause =>
        rw [hname] at naming
        cases naming
    · rw [if_neg hclass] at reading
      cases hletter : BaseType.ofLetter? found with
      | some type =>
        rw [hletter] at reading
        obtain ⟨-, rfl⟩ := Attempt.pure_eq_ok.mp reading
        exact shorter
      | none =>
        rw [hletter] at reading
        cases reading

/-- **Reading a field type passes at least one byte.** -/
theorem readField_shorter {type : FieldType} {before after : Cursor}
    (h : readField before = .ok type after) : after.left < before.left := by
  unfold readField at h
  obtain ⟨dimensions, middle, hskip, reading⟩ := Attempt.bind_eq_ok.mp h
  have further := skipAll_no_longer hskip
  split at reading
  · cases reading
  · obtain ⟨element, last, hread, answer⟩ := Attempt.bind_eq_ok.mp reading
    obtain ⟨-, rfl⟩ := Attempt.pure_eq_ok.mp answer
    have shorter := readElement_shorter hread
    omega

/-- The parameters up to the closing parenthesis, after those already read. -/
def readParameters (done : Array FieldType) : Reading (List FieldType) := fun cursor =>
  match _h : eat ')' cursor with
  | .ok true after => .ok done.toList after
  | .ok false middle =>
    match _h' : readField middle with
    | .ok type after => readParameters (done.push type) after
    | .error cause after => .error cause after
  | .error cause after => .error cause after
termination_by cursor => cursor.left
decreasing_by exact eat_stays _h ▸ readField_shorter _h'

/-- A result type, or `V` for none. -/
def readResult : Reading (Option FieldType) := do
  if ← eat 'V' then
    return none
  else
    return some (← readField)

/-- A method descriptor. -/
def readMethod : Reading MethodDescriptor := do
  if ← eat '(' then
    let parameters ← readParameters #[]
    let result ← readResult
    return { parameters, result }
  else
    fail (.expected '(')

end JvmAsm.Reading

namespace JvmAsm

/-- The field type a text stands for. -/
def FieldType.parse (source : String) : Except DescriptorError FieldType :=
  Reading.readField.whole source

/-- The reference type a text stands for. -/
def RefType.parse (source : String) : Except DescriptorError RefType :=
  Reading.readRef.whole source

/-- The method descriptor a text stands for. -/
def MethodDescriptor.parse (source : String) : Except DescriptorError MethodDescriptor :=
  Reading.readMethod.whole source

end JvmAsm
