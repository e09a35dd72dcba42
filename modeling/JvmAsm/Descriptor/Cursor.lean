import JvmAsm.Attempt
import JvmAsm.Descriptor.Basic

/-! # A cursor over the text of a descriptor

A cursor is a byte offset into the UTF-8 form of a text. Whatever is read is cut out
of the text at such offsets, and an offset inside a character or beyond the end cuts
nothing out: reading fails there (`DescriptorError.misplaced`). The steps of a reader
add up the sizes of the characters they pass, so that this never happens, which is a
matter of proof and not of types.

Reading is an attempt on the cursor: after a failure the cursor stands where the
reader gave up, and a caller may go on reading from there. -/

namespace JvmAsm

/-- What a reader of descriptors can object to. -/
inductive DescriptorProblem where
  | tooManyDimensions
  | missingFieldType
  | missing (terminator : Char)
  | unexpected (found : Char)
  | expected (wanted : Char)
  | expectedReference
  | leftover (found : Char)
  | badName (cause : NameError)
  deriving DecidableEq, Repr

namespace DescriptorProblem

/-- The wording of the objection. -/
def message : DescriptorProblem → String
  | tooManyDimensions => "too many array dimensions"
  | missingFieldType => "missing field type"
  | missing terminator => "missing '" ++ terminator.toString ++ "'"
  | unexpected found => "unexpected '" ++ found.toString ++ "'"
  | expected wanted => "expected '" ++ wanted.toString ++ "'"
  | expectedReference => "expected a reference type"
  | leftover found => "leftover '" ++ found.toString ++ "'"
  | badName cause => cause.message

end DescriptorProblem

/-- Why a descriptor is refused. -/
inductive DescriptorError where
  /-- The text breaks off or goes wrong at a byte offset. -/
  | malformed (problem : DescriptorProblem) (offset : Nat) (source : String)
  /-- The text was to be cut at a byte offset that is not between two characters. -/
  | misplaced (offset : Nat) (source : String)
  /-- The parameters of a method take too many slots. -/
  | tooManySlots (descriptor : String) (slots : Nat)
  deriving DecidableEq, Repr

namespace DescriptorError

/-- The wording of the refusal. -/
def message : DescriptorError → String
  | malformed problem offset source =>
    problem.message ++ " at offset " ++ toString offset ++ " of '" ++ source ++ "'"
  | misplaced offset source =>
    "no character starts at offset " ++ toString offset ++ " of '" ++ source ++ "'"
  | tooManySlots descriptor slots =>
    descriptor ++ " has " ++ toString slots ++ " parameter slots, at most " ++
      toString maxParameterSlots ++ " are allowed"

end DescriptorError

/-- A place in a text. -/
structure Cursor where
  source : String
  /-- The number of bytes before the place, in UTF-8. -/
  position : Nat
  deriving DecidableEq, Repr

namespace Cursor

/-- The start of a text. -/
def ofString (source : String) : Cursor := ⟨source, 0⟩

/-- The text from the position on, unless the position is inside a character or
beyond the end. -/
def rest? (cursor : Cursor) : Option String.Slice :=
  if boundary : (String.Pos.Raw.mk cursor.position).IsValid cursor.source then
    some (cursor.source.sliceFrom (cursor.source.pos _ boundary))
  else
    none

/-- The number of bytes from the position on. -/
def left (cursor : Cursor) : Nat := cursor.source.utf8ByteSize - cursor.position

end Cursor

/-- Reading off a cursor. -/
abbrev Reading := Attempt DescriptorError Cursor

namespace Reading

/-- Stops here with an objection. -/
def fail {α : Type} (problem : DescriptorProblem) : Reading α := fun cursor =>
  .error (.malformed problem cursor.position cursor.source) cursor

/-- The text ahead. -/
def rest : Reading String.Slice := fun cursor =>
  match cursor.rest? with
  | some text => .ok text cursor
  | none => .error (.misplaced cursor.position cursor.source) cursor

/-- Moves on by a number of bytes, whatever stands there. -/
def advance (bytes : Nat) : Reading Unit := fun cursor =>
  .ok () { cursor with position := cursor.position + bytes }

/-- The next character, if there is one, which is not passed. -/
def peek : Reading (Option Char) := do
  let text ← rest
  return text.front?

/-- The next character, if there is one. -/
def next : Reading (Option Char) := do
  match ← peek with
  | none => return none
  | some found =>
    advance found.utf8Size
    return some found

/-- Passes the next character if it is the wanted one, and tells whether it was. -/
def eat (wanted : Char) : Reading Bool := do
  if (← peek) = some wanted then
    advance wanted.utf8Size
    return true
  else
    return false

/-- The text before the next `terminator`, which is passed as well. -/
def takeUntil (terminator : Char) : Reading String := do
  let text ← rest
  match text.find? terminator with
  | none => fail (.missing terminator)
  | some stop =>
    advance (stop.offset.byteIdx + terminator.utf8Size)
    return (text.sliceTo stop).copy

/-- Reads a value, behind which nothing may be left over. -/
def toEnd {α : Type} (read : Reading α) : Reading α := do
  let value ← read
  match ← peek with
  | none => return value
  | some found => fail (.leftover found)

/-- Reads a whole text. -/
def whole {α : Type} (read : Reading α) (source : String) : Except DescriptorError α :=
  match read.toEnd (.ofString source) with
  | .ok value _ => .ok value
  | .error cause _ => .error cause

end Reading

end JvmAsm
