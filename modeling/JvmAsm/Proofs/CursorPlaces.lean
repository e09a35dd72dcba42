import JvmAsm.Descriptor.Reader
import Mathlib.Data.List.TakeWhile
import Mathlib.Logic.Function.Basic

/-! # Places in a text

Readers work with byte offsets into a text, and a text can be cut only between two
characters.  A cursor stands between two parts of its text (`Cursor.Stands`) where its
offset is the size of the first part.  From there each primitive ends at such a place
again, since it adds the size of what it found, and says what it passed on the way
(`Cursor.Passes`).  From any other offset all of them fail, so a reader can be described
by what it passes alone.

A reader is *exact* (`Reading.Exact`) if it answers a value if and only if the text
ahead starts with the characters of that value, and then has passed these and nothing
more.  What follows does not matter, so exact readers can be run one after the other. -/

namespace JvmAsm

namespace Cursor

/-- **The cursor stands between two parts of its text.** -/
structure Stands (cursor : Cursor) (passed ahead : List Char) : Prop where
  source : cursor.source = String.ofList (passed ++ ahead)
  position : cursor.position = (String.ofList passed).utf8ByteSize

/-- The cursor stands somewhere in its text. -/
def Sound (cursor : Cursor) : Prop := ∃ passed ahead, cursor.Stands passed ahead

variable {before middle after cursor : Cursor}
  {passed passed' ahead ahead' chars chars' : List Char}

/-- A new cursor has passed nothing. -/
theorem stands_ofString {source : String} {chars : List Char} (h : source = String.ofList chars) :
    (ofString source).Stands [] chars :=
  ⟨h, rfl⟩

theorem Stands.sound (h : cursor.Stands passed ahead) : cursor.Sound := ⟨passed, ahead, h⟩

/-- Such places are those where a text can be cut. -/
theorem sound_iff : cursor.Sound ↔
    (String.Pos.Raw.mk cursor.position).IsValid cursor.source := by
  rw [String.Pos.Raw.isValid_iff_exists_append]
  constructor
  · rintro ⟨passed, ahead, h⟩
    refine ⟨String.ofList passed, String.ofList ahead, ?_, congrArg String.Pos.Raw.mk h.position⟩
    rw [h.source, String.ofList_append]
  · rintro ⟨passed, ahead, source, position⟩
    refine ⟨passed.toList, ahead.toList, ?_, ?_⟩
    · rw [source, String.ofList_append, String.ofList_toList, String.ofList_toList]
    · rw [String.ofList_toList]
      exact congrArg String.Pos.Raw.byteIdx position

theorem Stands.splits (h : cursor.Stands passed ahead) :
    (cursor.source.pos _ (sound_iff.mp h.sound)).Splits (String.ofList passed)
      (String.ofList ahead) where
  eq_append := by rw [h.source, String.ofList_append]
  offset_eq_rawEndPos := congrArg String.Pos.Raw.mk h.position

/-- A text can be cut at a position in one way only. -/
theorem Stands.unique (h : cursor.Stands passed ahead) (h' : cursor.Stands passed' ahead') :
    passed = passed' ∧ ahead = ahead' :=
  ⟨String.ofList_injective (h.splits.eq_left h'.splits),
    String.ofList_injective (h.splits.eq_right h'.splits)⟩

/-- There is one place between what was passed and what lies ahead. -/
theorem Stands.eq (h : before.Stands passed ahead) (h' : after.Stands passed ahead) :
    before = after := by
  obtain ⟨source, position⟩ := before
  obtain ⟨source', position'⟩ := after
  exact congrArg₂ Cursor.mk (h.source.trans h'.source.symm) (h.position.trans h'.position.symm)

/-- **Adding the size of what is ahead leads to a place in the text.** -/
theorem Stands.advance (h : before.Stands passed (chars ++ ahead)) :
    Stands { before with position := before.position + (String.ofList chars).utf8ByteSize }
      (passed ++ chars) ahead where
  source := by rw [h.source, List.append_assoc]
  position := by
    dsimp only
    rw [h.position, String.ofList_append, String.utf8ByteSize_append]

theorem Stands.advance_one {found : Char} (h : before.Stands passed (found :: ahead)) :
    Stands { before with position := before.position + found.utf8Size } (passed ++ [found])
      ahead := by
  have moved := Stands.advance (show before.Stands passed ([found] ++ ahead) from h)
  rwa [← String.singleton_eq_ofList, String.utf8ByteSize_singleton] at moved

/-! ## Passing characters -/

/-- The cursor passes these characters and stands behind them. -/
def Passes (before : Cursor) (chars : List Char) (after : Cursor) : Prop :=
  ∃ passed ahead, before.Stands passed (chars ++ ahead) ∧ after.Stands (passed ++ chars) ahead

theorem Passes.sound (h : before.Passes chars after) : before.Sound ∧ after.Sound := by
  obtain ⟨passed, ahead, first, last⟩ := h
  exact ⟨first.sound, last.sound⟩

theorem Stands.passes (h : before.Stands passed (chars ++ ahead))
    (h' : after.Stands (passed ++ chars) ahead) : before.Passes chars after :=
  ⟨passed, ahead, h, h'⟩

theorem passes_nil (h : cursor.Sound) : cursor.Passes [] cursor := by
  obtain ⟨passed, ahead, stands⟩ := h
  exact ⟨passed, ahead, stands, (List.append_nil passed).symm ▸ stands⟩

/-- What was ahead is passed, and the rest still is. -/
theorem Passes.of_stands (h : before.Passes chars after) (stands : before.Stands passed ahead) :
    ∃ rest, ahead = chars ++ rest ∧ after.Stands (passed ++ chars) rest := by
  obtain ⟨passed', rest, first, last⟩ := h
  obtain ⟨rfl, rfl⟩ := stands.unique first
  exact ⟨rest, rfl, last⟩

/-- Passing one text after the other. -/
theorem passes_append : before.Passes (chars ++ chars') after ↔
    ∃ middle, before.Passes chars middle ∧ middle.Passes chars' after := by
  constructor
  · rintro ⟨passed, ahead, first, last⟩
    rw [List.append_assoc] at first
    rw [← List.append_assoc] at last
    have between := first.advance
    exact ⟨_, first.passes between, between.passes last⟩
  · rintro ⟨middle, ⟨passed, ahead, first, between⟩, second⟩
    obtain ⟨rest, rfl, last⟩ := second.of_stands between
    rw [List.append_assoc] at last
    refine ⟨passed, rest, ?_, last⟩
    rwa [List.append_assoc]

/-- Where the cursor stands afterwards is determined. -/
theorem Passes.unique {after' : Cursor} (h : before.Passes chars after)
    (h' : before.Passes chars after') : after = after' := by
  obtain ⟨passed, ahead, first, last⟩ := h
  obtain ⟨rest, same, last'⟩ := h'.of_stands first
  rw [← List.append_cancel_left same] at last'
  exact last.eq last'

/-- Passing characters adds their size. -/
theorem Passes.position_eq (h : before.Passes chars after) :
    after.position = before.position + (String.ofList chars).utf8ByteSize := by
  obtain ⟨passed, ahead, first, last⟩ := h
  rw [last.position, first.position, String.ofList_append, String.utf8ByteSize_append]

theorem Passes.source_eq (h : before.Passes chars after) : after.source = before.source := by
  obtain ⟨passed, ahead, first, last⟩ := h
  rw [last.source, first.source, List.append_assoc]

/-- This is the next character, or there is none. -/
def Faces (cursor : Cursor) (next? : Option Char) : Prop :=
  ∃ passed ahead, cursor.Stands passed ahead ∧ ahead.head? = next?

theorem Passes.faces {first : Char} (h : before.Passes (first :: chars) after) :
    before.Faces (some first) := by
  obtain ⟨passed, ahead, stands, -⟩ := h
  exact ⟨passed, _, stands, rfl⟩

theorem Faces.unique {next? other? : Option Char} (h : cursor.Faces next?)
    (h' : cursor.Faces other?) : next? = other? := by
  obtain ⟨passed, ahead, stands, rfl⟩ := h
  obtain ⟨passed', ahead', stands', rfl⟩ := h'
  rw [(stands.unique stands').2]

end Cursor

namespace Reading

variable {α β : Type} {before after cursor : Cursor} {passed ahead : List Char}

/-! ## Characters

From a place in the text each of these ends at a place in the text. Anywhere else all of them
fail. -/

theorem rest_of_stands (h : cursor.Stands passed ahead) :
    ∃ text, rest cursor = .ok text cursor ∧ text.copy = String.ofList ahead := by
  refine ⟨cursor.source.sliceFrom (cursor.source.pos _ (Cursor.sound_iff.mp h.sound)), ?_, ?_⟩
  · rw [rest, Cursor.rest?, dif_pos (Cursor.sound_iff.mp h.sound)]
  · exact String.copy_sliceFrom_eq_iff_exists_splits.mpr ⟨_, h.splits⟩

theorem rest_of_not_sound (h : ¬ cursor.Sound) :
    rest cursor = .error (.misplaced cursor.position cursor.source) cursor := by
  rw [rest, Cursor.rest?, dif_neg (Cursor.sound_iff.not.mp h)]

theorem peek_of_stands (h : cursor.Stands passed ahead) : peek cursor = .ok ahead.head? cursor := by
  obtain ⟨text, run, spelled⟩ := rest_of_stands h
  refine Attempt.bind_eq_ok.mpr ⟨text, cursor, run, Attempt.pure_eq_ok.mpr ⟨?_, rfl⟩⟩
  rw [String.Slice.front?_eq, spelled, String.toList_ofList]

/-- Whatever begins with a look at the next character fails where there is none to look at. -/
theorem peek_bind_of_not_sound (h : ¬ cursor.Sound) (next : Option Char → Reading α) :
    (peek >>= next) cursor = .error (.misplaced cursor.position cursor.source) cursor :=
  Attempt.bind_eq_error.mpr (.inl (Attempt.bind_eq_error.mpr (.inl (rest_of_not_sound h))))

theorem next_of_nil (h : cursor.Stands passed []) : next cursor = .ok none cursor :=
  Attempt.bind_eq_ok.mpr ⟨none, cursor, peek_of_stands h, rfl⟩

theorem next_of_cons {found : Char} (h : cursor.Stands passed (found :: ahead)) :
    ∃ after, next cursor = .ok (some found) after ∧ after.Stands (passed ++ [found]) ahead :=
  ⟨_, Attempt.bind_eq_ok.mpr ⟨some found, cursor, peek_of_stands h, rfl⟩, h.advance_one⟩

/-- A character that is answered was passed. -/
theorem next_eq_ok {found : Char} :
    next before = .ok (some found) after ↔ before.Passes [found] after := by
  by_cases sound : before.Sound
  · obtain ⟨passed, ahead, stands⟩ := sound
    cases ahead with
    | nil =>
      rw [next_of_nil stands]
      constructor
      · intro same
        cases same
      · intro passes
        obtain ⟨rest, same, -⟩ := passes.of_stands stands
        cases same
    | cons first ahead =>
      obtain ⟨middle, run, between⟩ := next_of_cons stands
      have passes : before.Passes [first] middle := stands.passes between
      rw [run]
      constructor
      · intro same
        cases same
        exact passes
      · intro passes'
        obtain rfl := Option.some.inj (passes.faces.unique passes'.faces)
        rw [passes.unique passes']
  · rw [show next before = _ from peek_bind_of_not_sound sound _]
    exact iff_of_false nofun fun passes => sound passes.sound.1

theorem eat_of_cons {wanted : Char} (h : cursor.Stands passed (wanted :: ahead)) :
    ∃ after, eat wanted cursor = .ok true after ∧ after.Stands (passed ++ [wanted]) ahead := by
  refine ⟨_, Attempt.bind_eq_ok.mpr ⟨some wanted, cursor, peek_of_stands h, ?_⟩, h.advance_one⟩
  rw [if_pos rfl]
  rfl

theorem eat_of_head?_ne {wanted : Char} (h : cursor.Stands passed ahead)
    (other : ahead.head? ≠ some wanted) : eat wanted cursor = .ok false cursor := by
  refine Attempt.bind_eq_ok.mpr ⟨ahead.head?, cursor, peek_of_stands h, ?_⟩
  rw [if_neg other]
  rfl

theorem eat_of_not_sound {wanted : Char} (h : ¬ cursor.Sound) :
    eat wanted cursor = .error (.misplaced cursor.position cursor.source) cursor :=
  peek_bind_of_not_sound h _

/-- **What is eaten is the character that was wanted.** -/
theorem eat_eq_true {wanted : Char} :
    eat wanted before = .ok true after ↔ before.Passes [wanted] after := by
  by_cases sound : before.Sound
  · obtain ⟨passed, ahead, stands⟩ := sound
    by_cases same : ahead.head? = some wanted
    · obtain ⟨ahead, rfl⟩ := List.head?_eq_some_iff.mp same
      obtain ⟨middle, run, between⟩ := eat_of_cons stands
      have passes : before.Passes [wanted] middle := stands.passes between
      rw [run]
      constructor
      · intro same
        cases same
        exact passes
      · intro passes'
        rw [passes.unique passes']
    · rw [eat_of_head?_ne stands same]
      constructor
      · intro refused
        cases refused
      · intro passes
        obtain ⟨rest, rfl, -⟩ := passes.of_stands stands
        exact absurd rfl same
  · rw [eat_of_not_sound sound]
    exact iff_of_false nofun fun passes => sound passes.sound.1

theorem eat_eq_false {wanted : Char} : eat wanted before = .ok false after ↔
    after = before ∧ ∃ next?, before.Faces next? ∧ next? ≠ some wanted := by
  by_cases sound : before.Sound
  · obtain ⟨passed, ahead, stands⟩ := sound
    have faces : before.Faces ahead.head? := ⟨passed, ahead, stands, rfl⟩
    by_cases same : ahead.head? = some wanted
    · obtain ⟨ahead, rfl⟩ := List.head?_eq_some_iff.mp same
      obtain ⟨middle, run, -⟩ := eat_of_cons stands
      rw [run]
      constructor
      · intro refused
        cases refused
      · rintro ⟨-, next?, faces', other⟩
        exact absurd (faces'.unique faces) other
    · rw [eat_of_head?_ne stands same]
      constructor
      · intro stayed
        cases stayed
        exact ⟨rfl, ahead.head?, faces, same⟩
      · rintro ⟨rfl, -⟩
        rfl
  · rw [eat_of_not_sound sound]
    refine iff_of_false nofun ?_
    rintro ⟨-, next?, ⟨passed, ahead, stands, -⟩, -⟩
    exact sound stands.sound

/-- What is taken is all there is before the first terminator. -/
theorem takeUntil_of_stands (terminator : Char) (h : cursor.Stands passed ahead) :
    terminator ∉ ahead ∧ takeUntil terminator cursor =
        .error (.malformed (.missing terminator) cursor.position cursor.source) cursor ∨
      ∃ text rest after, terminator ∉ text ∧ ahead = text ++ terminator :: rest ∧
        takeUntil terminator cursor = .ok (String.ofList text) after ∧
        after.Stands (passed ++ (text ++ [terminator])) rest := by
  obtain ⟨slice, run, spelled⟩ := rest_of_stands h
  have spelled : slice.copy.toList = ahead := by rw [spelled, String.toList_ofList]
  cases hfind : slice.find? terminator with
  | none =>
    refine .inl ⟨?_, Attempt.bind_eq_error.mpr (.inr ⟨slice, cursor, run, ?_⟩)⟩
    · rw [String.Slice.find?_eq_none_iff, String.Slice.contains_char_eq, spelled] at hfind
      exact of_decide_eq_false hfind
    · rw [hfind]
      rfl
  | some stop =>
    obtain ⟨text, rest, splits, absent⟩ :=
      String.Slice.find?_char_eq_some_iff_splits.mp hfind
    have parts : ahead = text.toList ++ terminator :: rest.toList := by
      rw [← spelled, splits.eq_append, String.toList_append, String.toList_append,
        String.toList_singleton]
      rfl
    have moved := (parts.trans (List.append_cons _ _ _) ▸ h).advance
    refine .inr ⟨text.toList, rest.toList, _, absent, parts,
      Attempt.bind_eq_ok.mpr ⟨slice, cursor, run, ?_⟩, moved⟩
    have size : stop.offset.byteIdx + terminator.utf8Size =
        (String.ofList (text.toList ++ [terminator])).utf8ByteSize := by
      rw [splits.offset_eq_rawEndPos, String.ofList_append, String.ofList_toList,
        String.utf8ByteSize_append, ← String.singleton_eq_ofList, String.utf8ByteSize_singleton,
        String.byteIdx_rawEndPos]
    rw [hfind]
    dsimp only
    rw [size, String.Slice.copy_sliceTo_eq_iff_exists_splits.mpr ⟨_, splits⟩, String.ofList_toList]
    rfl

/-- A run of characters of a kind is the longest one if what follows is of another kind. -/
theorem takeWhile_append_of_stop {kind : Char → Bool} {run rest : List Char} {stop : Char}
    (all : ∀ c ∈ run, kind c = true) (other : kind stop = false) :
    (run ++ stop :: rest).takeWhile kind = run := by
  rw [List.takeWhile_append_of_pos all, List.takeWhile_cons_of_neg (by simp [other]),
    List.append_nil]

/-- The text ends before the first terminator, which is passed too. -/
theorem takeUntil_eq_ok {terminator : Char} {text : String} :
    takeUntil terminator before = .ok text after ↔
      terminator ∉ text.toList ∧ before.Passes (text.toList ++ [terminator]) after := by
  have before_first {text rest : List Char} (absent : terminator ∉ text) :
      (text ++ terminator :: rest).takeWhile (· != terminator) = text := by
    refine takeWhile_append_of_stop (fun c hc => ?_) (bne_self_eq_false terminator)
    exact bne_iff_ne.mpr (ne_of_mem_of_not_mem hc absent)
  by_cases sound : before.Sound
  · obtain ⟨passed, ahead, stands⟩ := sound
    rcases takeUntil_of_stands terminator stands with
      ⟨missing, run⟩ | ⟨found, rest, stopped, absent, rfl, run, between⟩
    · rw [run]
      refine iff_of_false nofun ?_
      rintro ⟨-, passes⟩
      obtain ⟨rest, rfl, -⟩ := passes.of_stands stands
      simp at missing
    · have passes : before.Passes (found ++ [terminator]) stopped :=
        (List.append_cons _ _ _ ▸ stands).passes between
      rw [run]
      constructor
      · intro same
        cases same
        rw [String.toList_ofList]
        exact ⟨absent, passes⟩
      · rintro ⟨absent', passes'⟩
        obtain ⟨rest', same, -⟩ := passes'.of_stands stands
        rw [← List.append_cons] at same
        have texts := congrArg (List.takeWhile (· != terminator)) same
        rw [before_first absent, before_first absent'] at texts
        subst texts
        rw [String.ofList_toList, passes.unique passes']
  · have run :
        takeUntil terminator before = .error (.misplaced before.position before.source) before :=
      Attempt.bind_eq_error.mpr (.inl (rest_of_not_sound sound))
    rw [run]
    exact iff_of_false nofun fun passes => sound passes.2.sound.1

/-- All repetitions are passed: as many as there are, and no further one is ahead. -/
theorem passes_of_skipAll {repeated : Char} {start total : Nat} {before after : Cursor}
    (h : skipAll repeated start before = .ok total after) :
    ∃ count next?, total = start + count ∧ before.Passes (List.replicate count repeated) after ∧
      after.Faces next? ∧ next? ≠ some repeated := by
  cases heat : eat repeated before with
  | error cause middle =>
    rw [skipAll_of_error heat] at h
    cases h
  | ok more middle =>
    cases more with
    | false =>
      rw [skipAll_of_false heat] at h
      cases h
      obtain ⟨rfl, next?, faces, other⟩ := eat_eq_false.mp heat
      obtain ⟨passed, ahead, stands, -⟩ := id faces
      exact ⟨0, next?, rfl, Cursor.passes_nil stands.sound, faces, other⟩
    | true =>
      have shorter := eat_shorter heat
      rw [skipAll_of_true heat] at h
      obtain ⟨count, next?, rfl, passes, faces, other⟩ := passes_of_skipAll h
      refine ⟨count + 1, next?, by omega, ?_, faces, other⟩
      exact Cursor.passes_append.mpr ⟨middle, eat_eq_true.mp heat, passes⟩
termination_by before.left

/-- All repetitions are passed, since something else follows. -/
theorem skipAll_of_passes {repeated : Char} {start count : Nat} {next? : Option Char}
    (passes : before.Passes (List.replicate count repeated) after) (faces : after.Faces next?)
    (other : next? ≠ some repeated) :
    skipAll repeated start before = .ok (start + count) after := by
  induction count generalizing before start with
  | zero =>
    obtain rfl := (Cursor.passes_nil passes.sound.1).unique passes
    exact skipAll_of_false (eat_eq_false.mpr ⟨rfl, next?, faces, other⟩)
  | succ count ih =>
    obtain ⟨middle, first, following⟩ := Cursor.passes_append.mp
      (show before.Passes ([repeated] ++ List.replicate count repeated) after from passes)
    rw [skipAll_of_true (eat_eq_true.mpr first), ih following, Nat.add_right_comm, Nat.add_assoc]

/-! ## Exact readers -/

/-- **Reads exactly the values it answers.**  Whatever follows, a value is answered if and only if
it fits and its characters are the next ones, and these are passed. -/
def Exact (read : Reading α) (chars : α → List Char) (fits : α → Prop) : Prop :=
  ∀ before value after, read before = .ok value after ↔
    fits value ∧ before.Passes (chars value) after

end Reading

end JvmAsm
