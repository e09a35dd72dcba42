import JvmAsm.Pool.Basic
import JvmAsm.Writer

/-! # The constant pool in a class file

A sealed pool is written as its size and then its constants in the order of their
indices. A constant starts with its tag; text follows with its length, numbers
in their fixed form, and every other constant as the indices of its
constituents. -/

namespace JvmAsm.Pool

/-- Writes the index of an entry. -/
def writeIndex (pool : Pool) (entry : Entry) : Writer := do
  let index ← Attempt.ofExcept (pool.index entry)
  serialize index

/-- Writes a constant with its constituents' entries. -/
def writeSlot (pool : Pool) (slot : PoolSlot) : Writer := do
  serialize slot.constant.tag
  match slot.constant with
  | .utf8 text =>
    let bytes := ModifiedUtf8.encode text
    serialize (UInt16.ofNat bytes.length)
    Writer.put bytes
  | .integer value => serialize value
  | .float bits => serialize bits
  | .long value => serialize value
  | .double bits => serialize bits
  | _ => slot.children.forM pool.writeIndex

/-- Writes the constant of an entry. -/
def writeEntry (pool : Pool) (entry : Entry) : Writer :=
  match pool.slots[entry.rank]? with
  | some slot => pool.writeSlot slot
  | none => pure ()

/-- Writes the whole pool. -/
def write (pool : Pool) : Writer :=
  if pool.state = .sealed then do
    serialize pool.size
    pool.layout.cells.toList.forM fun cell => pool.writeEntry cell.2
  else
    Attempt.fail .poolNotSealed

end JvmAsm.Pool
