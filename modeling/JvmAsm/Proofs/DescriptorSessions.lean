import JvmAsm.Proofs.Attempts
import JvmAsm.Proofs.Descriptors

/-! # Reading many descriptors off one text

One cursor serves reader after reader, also after one of them gave up.  A text is cut
at the byte offsets that they leave behind, and that goes wrong inside a character or
beyond the end.  So what all readers have in common is that from a place in the text
they get to a place in the text, however they end, and object to what they found there
and nothing else (`Reading.Careful`).  The primitives do, since they add the size of
what they passed, and it goes from there to readers one after the other.

How far a reader goes if it succeeds is what `Reading.Exact` says, and values whose
descriptors follow one another are read one after the other. -/

namespace JvmAsm

namespace Reading

open Cursor

variable {α β : Type}

/-! ## Careful readers -/

/-- **From this place the reader passes some characters**, and if it gives up it objects to the
text, at the place where it then stands. -/
def CarefulAt (read : Reading α) (before : Cursor) : Prop :=
  ∃ chars after, before.Passes chars after ∧
    ((∃ value, read before = .ok value after) ∨
      ∃ problem, read before = .error (.malformed problem after.position after.source) after)

/-- From every place in the text. -/
def Careful (read : Reading α) : Prop :=
  ∀ ⦃before : Cursor⦄, before.Sound → read.CarefulAt before

theorem careful_pure (value : α) : (pure value : Reading α).Careful :=
  fun before sound => ⟨[], before, passes_nil sound, .inl ⟨value, rfl⟩⟩

theorem careful_fail (problem : DescriptorProblem) : (fail problem : Reading α).Careful :=
  fun before sound => ⟨[], before, passes_nil sound, .inr ⟨problem, rfl⟩⟩

/-- **One reader after the other.**  The second starts where the first ended. -/
theorem Careful.bind {read : Reading α} {following : α → Reading β} (first : read.Careful)
    (second : ∀ value, (following value).Careful) : (read >>= following).Careful := by
  intro before sound
  obtain ⟨chars, middle, passes, ⟨value, run⟩ | ⟨problem, run⟩⟩ := first sound
  · obtain ⟨chars', after, passes', last⟩ := second value passes.sound.2
    refine ⟨chars ++ chars', after, passes_append.mpr ⟨middle, passes, passes'⟩, ?_⟩
    refine last.imp ?_ ?_
    · rintro ⟨value', run'⟩
      exact ⟨value', Attempt.bind_eq_ok.mpr ⟨value, middle, run, run'⟩⟩
    · rintro ⟨problem, run'⟩
      exact ⟨problem, Attempt.bind_eq_error.mpr (.inr ⟨value, middle, run, run'⟩)⟩
  · exact ⟨chars, middle, passes, .inr ⟨problem, Attempt.bind_eq_error.mpr (.inl run)⟩⟩

theorem Careful.map {read : Reading α} (h : read.Careful) (form : α → β) :
    (form <$> read).Careful := by
  rw [map_eq_pure_bind]
  exact h.bind fun value => careful_pure _

/-- A turn of a loop: the reader passes characters and is then another one. -/
theorem CarefulAt.of_passes {read later : Reading α} {before middle : Cursor} {chars : List Char}
    (passes : before.Passes chars middle) (turn : read before = later middle)
    (h : later.CarefulAt middle) : read.CarefulAt before := by
  obtain ⟨chars', after, passes', outcome⟩ := h
  exact ⟨chars ++ chars', after, passes_append.mpr ⟨middle, passes, passes'⟩, turn ▸ outcome⟩

theorem careful_next : next.Careful := by
  rintro before ⟨passed, ahead, stands⟩
  cases ahead with
  | nil => exact ⟨[], before, passes_nil stands.sound, .inl ⟨none, next_of_nil stands⟩⟩
  | cons found ahead =>
    obtain ⟨after, run, moved⟩ := next_of_cons stands
    exact ⟨[found], after, stands.passes moved, .inl ⟨some found, run⟩⟩

theorem careful_eat (wanted : Char) : (eat wanted).Careful := by
  rintro before ⟨passed, ahead, stands⟩
  by_cases same : ahead.head? = some wanted
  · obtain ⟨ahead, rfl⟩ := List.head?_eq_some_iff.mp same
    obtain ⟨after, run, moved⟩ := eat_of_cons stands
    exact ⟨[wanted], after, stands.passes moved, .inl ⟨true, run⟩⟩
  · exact ⟨[], before, passes_nil stands.sound, .inl ⟨false, eat_of_head?_ne stands same⟩⟩

theorem careful_takeUntil (terminator : Char) : (takeUntil terminator).Careful := by
  rintro before ⟨passed, ahead, stands⟩
  rcases takeUntil_of_stands terminator stands with
    ⟨-, run⟩ | ⟨text, rest, after, -, rfl, run, moved⟩
  · exact ⟨[], before, passes_nil stands.sound, .inr ⟨_, run⟩⟩
  · rw [List.append_cons] at stands
    exact ⟨_, after, stands.passes moved, .inl ⟨_, run⟩⟩

/-! ## Readers of descriptors -/

/-- Each turn of the loop passes a character. -/
theorem carefulAt_skipAll (repeated : Char) (count : Nat) {before : Cursor} (sound : before.Sound) :
    (skipAll repeated count).CarefulAt before := by
  obtain ⟨chars, middle, passes, ⟨more, run⟩ | ⟨problem, run⟩⟩ := careful_eat repeated sound
  · cases more with
    | true =>
      have shorter := eat_shorter run
      exact .of_passes passes (skipAll_of_true run)
        (carefulAt_skipAll repeated (count + 1) passes.sound.2)
    | false => exact ⟨chars, middle, passes, .inl ⟨count, skipAll_of_false run⟩⟩
  · exact ⟨chars, middle, passes, .inr ⟨problem, skipAll_of_error run⟩⟩
termination_by before.left

theorem careful_readClass : readClass.Careful := by
  refine (careful_takeUntil ';').bind fun text => ?_
  cases BinaryName.ofString text with
  | ok name => exact careful_pure _
  | error cause => exact careful_fail _

theorem careful_readElement : readElement.Careful := by
  refine careful_next.bind fun found? => ?_
  cases found? with
  | none => exact careful_fail _
  | some found =>
    dsimp only
    by_cases hclass : found = 'L'
    · rw [if_pos hclass]
      exact careful_readClass
    · rw [if_neg hclass]
      cases BaseType.ofLetter? found with
      | some type => exact careful_pure _
      | none => exact careful_fail _

theorem careful_readField : readField.Careful := by
  refine Careful.bind (fun _ sound => carefulAt_skipAll '[' 0 sound) fun dimensions => ?_
  by_cases deep : maxArrayDimensions < dimensions
  · rw [if_pos deep]
    exact careful_fail _
  · rw [if_neg deep]
    exact careful_readElement.bind fun element => careful_pure _

theorem careful_readRef : readRef.Careful := by
  refine careful_readField.bind fun type => ?_
  cases type with
  | ref type => exact careful_pure _
  | base type => exact careful_fail _

/-- Each turn of the loop reads a field type, and there are no more turns than bytes ahead. -/
theorem carefulAt_readParameters (done : Array FieldType) {before : Cursor} (sound : before.Sound) :
    (readParameters done).CarefulAt before := by
  obtain ⟨chars, middle, passes, ⟨closed, run⟩ | ⟨problem, run⟩⟩ := careful_eat ')' sound
  · cases closed with
    | true => exact ⟨chars, middle, passes, .inl ⟨done.toList, readParameters_of_true run⟩⟩
    | false =>
      rw [eat_stays run] at run
      have turn : readParameters done before =
          (readField >>= fun type => readParameters (done.push type)) before :=
        readParameters_of_false run
      obtain ⟨chars, middle, passes, ⟨type, read⟩ | ⟨problem, read⟩⟩ := careful_readField sound
      · have shorter := readField_shorter read
        have rest : readParameters done before = readParameters (done.push type) middle := by
          rw [turn]
          simp only [bind, EStateM.bind, read]
        exact .of_passes passes rest (carefulAt_readParameters (done.push type) passes.sound.2)
      · exact ⟨chars, middle, passes,
          .inr ⟨problem, turn.trans (Attempt.bind_eq_error.mpr (.inl read))⟩⟩
  · exact ⟨chars, middle, passes, .inr ⟨problem, readParameters_of_error run⟩⟩
termination_by before.left

theorem careful_readResult : readResult.Careful := by
  refine (careful_eat 'V').bind fun void => ?_
  cases void with
  | true => exact careful_pure _
  | false => exact careful_readField.bind fun type => careful_pure _

theorem careful_readMethod : readMethod.Careful := by
  refine (careful_eat '(').bind fun begun => ?_
  cases begun with
  | true =>
    exact Careful.bind (fun _ sound => carefulAt_readParameters #[] sound) fun parameters =>
      careful_readResult.bind fun result => careful_pure _
  | false => exact careful_fail _

end Reading

/-! ## One value of any kind -/

/-- What a reader can be asked for. -/
inductive DescriptorKind where
  | field | ref | method
  deriving DecidableEq

/-- What a reader can answer. -/
inductive Descriptor where
  | field (type : FieldType)
  | ref (type : RefType)
  | method (descriptor : MethodDescriptor)
  deriving DecidableEq

namespace Descriptor

def kind : Descriptor → DescriptorKind
  | field _ => .field
  | ref _ => .ref
  | method _ => .method

/-- The descriptor, as characters. -/
def chars : Descriptor → List Char
  | field type => type.chars
  | ref type => type.chars
  | method descriptor => descriptor.chars

/-- The descriptor. -/
def render : Descriptor → String
  | field type => type.render
  | ref type => type.render
  | method descriptor => descriptor.render

/-- No array in the descriptor has more than 255 dimensions. -/
def Shallow : Descriptor → Prop
  | field type => type.Shallow
  | ref type => type.Shallow
  | method descriptor => descriptor.Shallow

theorem render_eq (value : Descriptor) : value.render = String.ofList value.chars := by
  cases value <;> rfl

theorem toList_render (value : Descriptor) : value.render.toList = value.chars := by
  rw [render_eq, String.toList_ofList]

/-- No descriptor is empty. -/
theorem size_render_pos (value : Descriptor) : 0 < value.render.utf8ByteSize := by
  obtain ⟨first, rest, hchars⟩ : ∃ first rest, value.chars = first :: rest := by
    cases value with
    | field type =>
      obtain ⟨first, rest, hchars, -⟩ := type.head_chars
      exact ⟨first, rest, hchars⟩
    | ref type =>
      obtain ⟨first, rest, hchars, -⟩ := (FieldType.ref type).head_chars
      exact ⟨first, rest, hchars⟩
    | method descriptor => exact ⟨'(', _, rfl⟩
  rw [render_eq, hchars, String.ofList_cons, String.utf8ByteSize_append,
    String.utf8ByteSize_singleton]
  have positive := first.utf8Size_pos
  omega

end Descriptor

namespace DescriptorKind

open Cursor Descriptor

variable {before after : Cursor} {value : Descriptor}

/-- Reads a value of the kind. -/
def read : DescriptorKind → Reading Descriptor
  | field => Descriptor.field <$> Reading.readField
  | ref => Descriptor.ref <$> Reading.readRef
  | method => Descriptor.method <$> Reading.readMethod

/-- An exact reader stays exact when its answers are given another form, one to one. -/
theorem map_exact {α β : Type} {reader : Reading α} {chars : α → List Char} {fits : α → Prop}
    (exact : reader.Exact chars fits) (form : α → β) {answer : β} :
    (form <$> reader) before = .ok answer after ↔
      ∃ value, form value = answer ∧ fits value ∧ before.Passes (chars value) after := by
  rw [Attempt.map_eq_ok]
  constructor
  · rintro ⟨value, run, same⟩
    exact ⟨value, same, (exact _ _ _).mp run⟩
  · rintro ⟨value, same, read⟩
    exact ⟨value, (exact _ _ _).mpr read, same⟩

/-- **A value is read if and only if it is of the kind, not too deep, and ahead.** -/
theorem read_eq_ok {kind : DescriptorKind} : kind.read before = .ok value after ↔
    value.kind = kind ∧ value.Shallow ∧ before.Passes value.chars after := by
  cases kind with
  | field =>
    rw [read, map_exact Reading.readField_exact]
    cases value <;> simp [Descriptor.kind, Descriptor.Shallow, Descriptor.chars]
  | ref =>
    rw [read, map_exact Reading.readRef_exact]
    cases value <;> simp [Descriptor.kind, Descriptor.Shallow, Descriptor.chars]
  | method =>
    rw [read, map_exact Reading.readMethod_exact]
    cases value <;> simp [Descriptor.kind, Descriptor.Shallow, Descriptor.chars]

theorem careful_read (kind : DescriptorKind) : kind.read.Careful := by
  cases kind with
  | field => exact Reading.careful_readField.map _
  | ref => exact Reading.careful_readRef.map _
  | method => exact Reading.careful_readMethod.map _

end DescriptorKind

/-! ## One value after the other -/

namespace Cursor

/-- What one reading answers. -/
def answer (kind : DescriptorKind) (cursor : Cursor) : Except DescriptorError Descriptor :=
  match kind.read cursor with
  | .ok value _ => .ok value
  | .error cause _ => .error cause

/-- Reads one value after the other from where the last reading ended, be it well or not. -/
def session : List DescriptorKind → Cursor → List (Except DescriptorError Descriptor) × Cursor
  | [], cursor => ([], cursor)
  | kind :: kinds, cursor =>
    let (answers, last) := session kinds (kind.read.after cursor)
    (cursor.answer kind :: answers, last)

variable {before after cursor : Cursor}

/-- Where one reading leads, and so where all of them do. -/
theorem passes_after_read (sound : cursor.Sound) (kind : DescriptorKind) :
    ∃ chars, cursor.Passes chars (kind.read.after cursor) := by
  obtain ⟨chars, after, passes, ⟨value, run⟩ | ⟨problem, run⟩⟩ := kind.careful_read sound
  · exact ⟨chars, (Attempt.after_of_ok run).symm ▸ passes⟩
  · exact ⟨chars, (Attempt.after_of_error run).symm ▸ passes⟩

theorem passes_session (sound : cursor.Sound) (kinds : List DescriptorKind) :
    ∃ chars, cursor.Passes chars (cursor.session kinds).2 := by
  induction kinds generalizing cursor with
  | nil => exact ⟨[], passes_nil sound⟩
  | cons kind kinds ih =>
    obtain ⟨chars, passes⟩ := passes_after_read sound kind
    obtain ⟨chars', passes'⟩ := ih passes.sound.2
    exact ⟨chars ++ chars', passes_append.mpr ⟨_, passes, passes'⟩⟩

/-- **Values are read as they follow one another**, whatever comes behind them. -/
theorem session_of_passes {values : List Descriptor} (shallow : ∀ value ∈ values, value.Shallow)
    (h : before.Passes (values.flatMap Descriptor.chars) after) :
    before.session (values.map Descriptor.kind) = (values.map .ok, after) := by
  induction values generalizing before with
  | nil =>
    obtain rfl := (passes_nil h.sound.1).unique h
    rfl
  | cons value values ih =>
    rw [List.flatMap_cons] at h
    obtain ⟨middle, first, following⟩ := passes_append.mp h
    obtain ⟨shallowFirst, shallow⟩ := List.forall_mem_cons.mp shallow
    have run := DescriptorKind.read_eq_ok.mpr ⟨rfl, shallowFirst, first⟩
    rw [List.map_cons, session, Attempt.after_of_ok run, ih shallow following, answer, run]
    rfl

theorem toList_join_render (values : List Descriptor) :
    (String.join (values.map Descriptor.render)).toList = values.flatMap Descriptor.chars := by
  rw [String.toList_join, List.flatMap_map]
  simp only [Descriptor.toList_render]

/-- **A place in a text**: the position lies between two characters of the text and not beyond its
end. -/
structure Inside (cursor : Cursor) (text : String) : Prop where
  source : cursor.source = text
  boundary : (String.Pos.Raw.mk cursor.position).IsValid text
  within : cursor.position ≤ text.utf8ByteSize

theorem Sound.inside {text : String} (h : cursor.Sound) (same : cursor.source = text) :
    cursor.Inside text := by
  subst same
  have boundary := sound_iff.mp h
  exact ⟨rfl, boundary, boundary.le_utf8ByteSize⟩

/-- **Readings never leave the text.**  After any readings, of which any may have failed, the cursor
stands between two characters of the text, and

* the next reading ends, without ever cutting the text elsewhere; if it answers a value it moves on
  by exactly the size of its descriptor, which is not zero, and if it fails, for something in the
  text, it does not move back; either way the cursor stands between two characters;
* where descriptors of values follow one another, the values are read one after the other, and what
  comes behind them is then ahead. -/
theorem readings_stay_in_the_text :
    (∀ (source : String) (kinds : List DescriptorKind) (kind : DescriptorKind),
      let cursor := ((ofString source).session kinds).2
      cursor.Inside source ∧
        ((∃ value after, kind.read cursor = .ok value after ∧ after.Inside source ∧
            cursor.position < after.position ∧
            after.position = cursor.position + value.render.utf8ByteSize) ∨
          ∃ problem after, kind.read cursor =
              .error (.malformed problem after.position source) after ∧ after.Inside source ∧
            cursor.position ≤ after.position)) ∧
    ∀ (values : List Descriptor) (rest : String) (before : Cursor) (passed : List Char),
      (∀ value ∈ values, value.Shallow) →
      before.Stands passed (String.join (values.map Descriptor.render) ++ rest).toList →
      ∃ after, before.session (values.map Descriptor.kind) = (values.map .ok, after) ∧
        after.Stands (passed ++ (String.join (values.map Descriptor.render)).toList) rest.toList ∧
        after.position =
          before.position + (String.join (values.map Descriptor.render)).utf8ByteSize := by
  constructor
  · intro source kinds kind cursor
    have start : (ofString source).Sound :=
      (stands_ofString (String.ofList_toList (s := source)).symm).sound
    obtain ⟨chars, reached⟩ : ∃ chars, (ofString source).Passes chars cursor :=
      passes_session start kinds
    refine ⟨reached.sound.2.inside reached.source_eq, ?_⟩
    obtain ⟨chars', after, passes, outcome⟩ := kind.careful_read reached.sound.2
    have same : after.source = source := passes.source_eq.trans reached.source_eq
    have inside := passes.sound.2.inside same
    rcases outcome with ⟨value, run⟩ | ⟨problem, run⟩
    · have further := (DescriptorKind.read_eq_ok.mp run).2.2.position_eq
      rw [← Descriptor.render_eq] at further
      have positive := value.size_render_pos
      exact .inl ⟨value, after, run, inside, by omega, further⟩
    · rw [same] at run
      refine .inr ⟨problem, after, run, inside, ?_⟩
      rw [passes.position_eq]
      exact Nat.le_add_right _ _
  · intro values rest before passed shallow ahead
    rw [String.toList_append] at ahead
    have last := ahead.advance
    rw [String.ofList_toList] at last
    have passes := ahead.passes last
    rw [toList_join_render] at passes
    exact ⟨_, session_of_passes shallow passes, last, rfl⟩

/-- One value of each kind. -/
def oneOfEach : List Descriptor :=
  [.field .int, .ref (.array 1 (.object .object)), .method ⟨[.long], none⟩]

/-- A character of two bytes that is no field type is passed all the same. -/
theorem session_accent : ((ofString "éI").session [.field]).2 = ⟨"éI", 2⟩ := by
  have stands : (ofString "éI").Stands [] ['é', 'I'] := stands_ofString (by decide)
  have skip : Reading.skipAll '[' 0 (ofString "éI") = .ok 0 (ofString "éI") :=
    Reading.skipAll_of_false (Reading.eat_of_head?_ne stands (by decide))
  obtain ⟨after, read, moved⟩ := Reading.next_of_cons stands
  obtain rfl : after = ⟨"éI", 2⟩ := moved.eq ⟨by decide, by decide⟩
  have element : Reading.readElement (ofString "éI") =
      .error (.malformed (.unexpected 'é') 2 "éI") ⟨"éI", 2⟩ :=
    Attempt.bind_eq_error.mpr (.inr ⟨some 'é', _, read, rfl⟩)
  have field : Reading.readField (ofString "éI") =
      .error (.malformed (.unexpected 'é') 2 "éI") ⟨"éI", 2⟩ :=
    Attempt.bind_eq_error.mpr (.inr ⟨0, _, skip, Attempt.bind_eq_error.mpr (.inl element)⟩)
  have run : DescriptorKind.field.read (ofString "éI") =
      .error (.malformed (.unexpected 'é') 2 "éI") ⟨"éI", 2⟩ :=
    (congrFun (map_eq_pure_bind _ _) _).trans (Attempt.bind_pure_eq_error.mpr field)
  rw [session, Attempt.after_of_error run]
  rfl

/-- One value of each kind in front of something else; and a character of two bytes that is no field
type, behind which the next reading finds one. -/
theorem one_of_each_is_read :
    (∀ value ∈ oneOfEach, value.Shallow) ∧
      (∃ after, (ofString "I[[Ljava/lang/Object;(J)V)").session [.field, .ref, .method] =
          (oneOfEach.map .ok, after) ∧ after.Stands "I[[Ljava/lang/Object;(J)V".toList [')'] ∧
            after.position = 25) ∧
      ((ofString "éI").session [.field]).2 = ⟨"éI", 2⟩ ∧ Inside ⟨"éI", 2⟩ "éI" ∧
      ∃ after, Cursor.session [.field] ⟨"éI", 2⟩ = ([.ok (.field .int)], after) ∧
        after.position = 3 := by
  have shallow : ∀ value ∈ oneOfEach, value.Shallow := by
    simp [oneOfEach, Descriptor.Shallow, RefType.Shallow, MethodDescriptor.Shallow,
      FieldType.Shallow, FieldType.depth, FieldType.int, FieldType.long]
  obtain ⟨stays, read⟩ := readings_stay_in_the_text
  refine ⟨shallow, ?_, session_accent, session_accent ▸ (stays "éI" [.field] .field).1, ?_⟩
  · have text : String.join (oneOfEach.map Descriptor.render) = "I[[Ljava/lang/Object;(J)V" := by
      decide
    obtain ⟨after, answers, rest, position⟩ :=
      read oneOfEach ")" (ofString "I[[Ljava/lang/Object;(J)V)") [] shallow
        (stands_ofString (by rw [text]; decide))
    rw [text] at position rest
    exact ⟨after, answers, rest, position⟩
  · obtain ⟨after, answers, -, position⟩ :=
      read [.field .int] "" ⟨"éI", 2⟩ ['é']
        (List.forall_mem_singleton.mpr (shallow _ List.mem_cons_self)) ⟨by decide, by decide⟩
    exact ⟨after, answers, position⟩

end Cursor

end JvmAsm
