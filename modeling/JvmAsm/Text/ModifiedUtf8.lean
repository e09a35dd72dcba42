import JvmAsm.Bytes

/-! # Modified UTF-8

Class files hold text in a variant of UTF-8. Three groups of bytes exist, of one,
two and three bytes, and each stands for one UTF-16 unit. Two characters differ
from UTF-8: the null character takes the two-byte group, so that no encoded text
holds a zero byte, and a character beyond the basic plane is written as its two
surrogates, three bytes each, so that no group of four bytes occurs. -/

namespace JvmAsm.ModifiedUtf8

/-- The two-byte group of a unit below `0x800`. -/
def twoBytes (unit : Nat) : Bytes :=
  [UInt8.ofNat (0xC0 + unit / 64), UInt8.ofNat (0x80 + unit % 64)]

/-- The three-byte group of a unit below `0x10000`. -/
def threeBytes (unit : Nat) : Bytes :=
  [UInt8.ofNat (0xE0 + unit / 4096), UInt8.ofNat (0x80 + unit / 64 % 64),
    UInt8.ofNat (0x80 + unit % 64)]

/-- The bytes of one character. -/
def encodeChar (c : Char) : Bytes :=
  let code := c.toNat
  if code ≠ 0 ∧ code < 0x80 then
    [UInt8.ofNat code]
  else if code < 0x800 then
    twoBytes code
  else if code < 0x10000 then
    threeBytes code
  else
    threeBytes (0xD800 + (code - 0x10000) / 0x400) ++ threeBytes (0xDC00 + (code - 0x10000) % 0x400)

/-- The bytes of a text. -/
def encode (text : String) : Bytes :=
  text.toList.flatMap encodeChar

end JvmAsm.ModifiedUtf8
