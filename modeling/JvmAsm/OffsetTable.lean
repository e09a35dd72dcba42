import JvmAsm.Text.Report

/-! # Tables of elements of different widths

Elements stand side by side, each as wide as was said when it was added, and are
found by the offset at which they start. The constant pool is the case at hand:
most constants take one index and some take two.

Offsets and widths are 64-bit numbers, and nothing keeps a table from growing past
the last of them: the next offset is then counted from zero again.

As long as that does not happen offsets never decrease along the table, so `get?`
looks an offset up by halving the range that can hold it. Where elements of width
zero share an offset, the last of them is found. -/

namespace JvmAsm

/-- Elements with the offsets at which they start. -/
structure OffsetTable (α : Type) where
  /-- The elements in order, each behind its offset. -/
  cells : Array (UInt64 × α)
  /-- The offset of the next element. -/
  stop : UInt64

namespace OffsetTable

variable {α : Type}

/-- No elements, the first of which will start at `start`. -/
def startingAt (start : UInt64) : OffsetTable α := ⟨#[], start⟩

/-- Number of elements. -/
def size (table : OffsetTable α) : Nat := table.cells.size

/-- Adds an element at the end, which is `table.stop`. -/
def push (width : UInt64) (element : α) (table : OffsetTable α) : OffsetTable α :=
  match table with
  | ⟨cells, stop⟩ => ⟨cells.push (stop, element), stop + width⟩

/-- Adds an element at the end and answers the offset at which it starts. -/
def place (width : UInt64) (element : α) : StateM (OffsetTable α) UInt64 := fun table =>
  (table.stop, table.push width element)

/-- A cell starts beyond an offset, or there is no such cell. -/
def startsBeyond (cells : Array (UInt64 × α)) (cell : Nat) (offset : UInt64) : Bool :=
  match cells[cell]? with
  | some (start, _) => offset < start
  | none => true

/-- The last of `count` cells from `first` on that starts at `offset` or before
it, provided the cell at `first` does. -/
def seek (cells : Array (UInt64 × α)) (offset : UInt64) (first count : Nat) : Nat :=
  if 1 < count then
    if startsBeyond cells (first + count / 2) offset then
      seek cells offset first (count - count / 2)
    else
      seek cells offset (first + count / 2) (count - count / 2)
  else
    first
termination_by count

/-- The element that starts at an offset. -/
def get? (table : OffsetTable α) (offset : UInt64) : Option α :=
  match table.cells[seek table.cells offset 0 table.cells.size]? with
  | some (start, element) => if start = offset then some element else none
  | none => none

/-- How reports spell a table, given how they spell its elements. -/
def describe (element : α → String) (table : OffsetTable α) : String :=
  Text.brackets (table.cells.toList.map fun (offset, value) =>
    "#" ++ toString offset ++ " = " ++ element value)

end OffsetTable

end JvmAsm
