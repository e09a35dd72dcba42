import JvmAsm.Attempt
import JvmAsm.Bytes
import JvmAsm.Error

/-! # Writing

A class file is written piece by piece: a number, the length of a list, its elements.
At any of them the destination may take no more bytes, or it turns out that what
should come next cannot be determined. Then what was taken stays and nothing further
is written. A writer is therefore an attempt on a destination, and longer writers are
made of shorter ones in sequence. -/

namespace JvmAsm

/-- A destination of bytes. -/
structure Sink where
  /-- What was accepted so far. -/
  accepted : Array UInt8 := #[]
  /-- How many more bytes fit, if there is a limit. -/
  room : Option Nat := none

namespace Sink

/-- A destination that takes everything. -/
def unbounded : Sink := {}

/-- A destination that takes so many bytes. -/
def limited (room : Nat) : Sink := { room := some room }

/-- Accepts bytes up to the first that does not fit, and says whether all did. -/
def write : Bytes → Sink → Bool × Sink
  | [], sink => (true, sink)
  | byte :: bytes, ⟨accepted, none⟩ => write bytes ⟨accepted.push byte, none⟩
  | byte :: bytes, ⟨accepted, some (room + 1)⟩ => write bytes ⟨accepted.push byte, some room⟩
  | _ :: _, ⟨accepted, some 0⟩ => (false, ⟨accepted, some 0⟩)

end Sink

/-- Writing to a destination. -/
abbrev Writer := Attempt Error Sink Unit

namespace Writer

/-- Hands bytes over in one piece. -/
def put (bytes : Bytes) : Writer := fun sink =>
  match sink.write bytes with
  | (true, sink) => .ok () sink
  | (false, sink) => .error (.storage .full) sink

/-- What is written where there is no limit. -/
def contents (writer : Writer) : Bytes :=
  (writer.after .unbounded).accepted.toList

end Writer

/-- Values with one fixed form in a class file. -/
class Serialize (α : Type) where
  /-- Writes a value. -/
  serialize : α → Writer

export Serialize (serialize)

instance : Serialize UInt8 where serialize n := .put (encode n)
instance : Serialize UInt16 where serialize n := .put (encode n)
instance : Serialize UInt32 where serialize n := .put (encode n)
instance : Serialize UInt64 where serialize n := .put (encode n)
instance : Serialize Int8 where serialize n := .put (encode n)
instance : Serialize Int16 where serialize n := .put (encode n)
instance : Serialize Int32 where serialize n := .put (encode n)
instance : Serialize Int64 where serialize n := .put (encode n)

/-- A list is its two-byte length followed by its elements. Whoever builds the
list keeps it short enough; a longer one is written with its length modulo
65536. -/
instance {α : Type} [Serialize α] : Serialize (List α) where
  serialize values := do
    serialize (UInt16.ofNat values.length)
    values.forM serialize

instance {kind : Declaration} : Serialize (AccessFlags kind) where
  serialize flags := serialize flags.bits

end JvmAsm
