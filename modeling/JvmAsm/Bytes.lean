/-! # Bytes, most significant first

A class file is a sequence of bytes, and every number in it is written with its
most significant byte first. Numbers of every width go through one function,
`Bytes.ofNat`, which keeps the low bytes of a natural number, so a count that is
too large for its field is reduced modulo the field's range and nothing else
needs to say so. `Bytes.toNat` reads the number back.

Bytes are `List UInt8`: statements about files take them apart from the front. -/

namespace JvmAsm

/-- A sequence of bytes. -/
abbrev Bytes := List UInt8

namespace Bytes

/-- The `width` low bytes of `n`, most significant first. -/
def ofNat : (width n : Nat) → Bytes
  | 0, _ => []
  | width + 1, n => UInt8.ofNat (n >>> (8 * width)) :: ofNat width n

/-- The low bytes of an integer in two's complement, most significant first. -/
def ofInt (width : Nat) (n : Int) : Bytes :=
  ofNat width (n % (1 <<< (8 * width) : Nat)).toNat

/-- The number that bytes spell, most significant first. -/
def toNat (bytes : Bytes) : Nat :=
  bytes.foldl (fun value byte => 256 * value + byte.toNat) 0

@[simp] theorem length_ofNat (width n : Nat) : (ofNat width n).length = width := by
  induction width with
  | zero => rfl
  | succ width ih => simp [ofNat, ih]

@[simp] theorem length_ofInt (width : Nat) (n : Int) : (ofInt width n).length = width :=
  length_ofNat width _

end Bytes

/-- Values with one fixed form in bytes. -/
class Encode (α : Type) where
  /-- The bytes of a value. -/
  encode : α → Bytes

export Encode (encode)

instance : Encode UInt8 where encode n := Bytes.ofNat 1 n.toNat
instance : Encode UInt16 where encode n := Bytes.ofNat 2 n.toNat
instance : Encode UInt32 where encode n := Bytes.ofNat 4 n.toNat
instance : Encode UInt64 where encode n := Bytes.ofNat 8 n.toNat
instance : Encode Int8 where encode n := Bytes.ofInt 1 n.toInt
instance : Encode Int16 where encode n := Bytes.ofInt 2 n.toInt
instance : Encode Int32 where encode n := Bytes.ofInt 4 n.toInt
instance : Encode Int64 where encode n := Bytes.ofInt 8 n.toInt

end JvmAsm
