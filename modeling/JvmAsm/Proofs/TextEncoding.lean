import JvmAsm.Proofs.TextDecoding
import Mathlib.Algebra.Ring.Nat

/-! # What encoded text looks like

A character takes one of four forms: a group of one, two or three bytes, or two groups
of three.  `encodeChar_cases` says which, with the code points it is for, and everything
about encoded text is read off these four cases: which bytes occur (`usable_of_mem`),
and how many there are (`length_encode`).

That a text comes back from its bytes, so that no two texts share them, was shown with
the decoder. -/

namespace JvmAsm.ModifiedUtf8

/-! ## One character -/

/-- The number of bytes a character takes up, by its code point. -/
def width (c : Char) : Nat :=
  if 0x10000 ≤ c.toNat then 6
  else if 0x800 ≤ c.toNat then 3
  else if 0x80 ≤ c.toNat ∨ c.toNat = 0 then 2
  else 1

/-- The byte is neither zero, which ends texts elsewhere, nor one that UTF-8 keeps for groups of
four bytes or for nothing. -/
def Usable (byte : UInt8) : Prop := byte ≠ 0 ∧ byte < 0xF0

/-- **The four forms of a character.** -/
theorem encodeChar_cases (c : Char) :
    (0 < c.toNat ∧ c.toNat < 0x80 ∧ encodeChar c = [UInt8.ofNat c.toNat]) ∨
    ((0x80 ≤ c.toNat ∨ c.toNat = 0) ∧ c.toNat < 0x800 ∧ encodeChar c = twoBytes c.toNat) ∨
    (0x800 ≤ c.toNat ∧ c.toNat < 0x10000 ∧ encodeChar c = threeBytes c.toNat) ∨
    (0x10000 ≤ c.toNat ∧ ∃ high low, high < 0x10000 ∧ low < 0x10000 ∧
      encodeChar c = threeBytes high ++ threeBytes low) := by
  have range := toNat_range c
  unfold encodeChar
  dsimp only
  by_cases one : c.toNat ≠ 0 ∧ c.toNat < 0x80
  · exact .inl ⟨by omega, one.2, if_pos one⟩
  rw [if_neg one]
  by_cases two : c.toNat < 0x800
  · exact .inr (.inl ⟨by omega, two, if_pos two⟩)
  rw [if_neg two]
  by_cases three : c.toNat < 0x10000
  · exact .inr (.inr (.inl ⟨by omega, three, if_pos three⟩))
  rw [if_neg three]
  exact .inr (.inr (.inr ⟨by omega, _, _, by omega, by omega, rfl⟩))

/-- Usable bytes, by number. -/
theorem usable_byte {n : Nat} (pos : 0 < n) (small : n < 0xF0) : Usable (UInt8.ofNat n) := by
  have value : (UInt8.ofNat n).toNat = n := toNat_byte (by omega)
  constructor
  · intro zero
    rw [zero] at value
    exact absurd value (by simpa using Nat.ne_of_lt pos)
  · rw [UInt8.lt_iff_toNat_lt, value]
    exact small

theorem usable_of_mem_twoBytes {unit : Nat} (small : unit < 0x800) {byte : UInt8}
    (h : byte ∈ twoBytes unit) : Usable byte := by
  simp only [twoBytes, List.mem_cons, List.not_mem_nil, or_false] at h
  rcases h with rfl | rfl
  · exact usable_byte (by omega) (by omega)
  · exact usable_byte (by omega) (by omega)

theorem usable_of_mem_threeBytes {unit : Nat} (small : unit < 0x10000) {byte : UInt8}
    (h : byte ∈ threeBytes unit) : Usable byte := by
  simp only [threeBytes, List.mem_cons, List.not_mem_nil, or_false] at h
  rcases h with rfl | rfl | rfl
  · exact usable_byte (by omega) (by omega)
  · exact usable_byte (by omega) (by omega)
  · exact usable_byte (by omega) (by omega)

/-- **No zero and no large byte** in the encoding of a character. -/
theorem usable_of_mem_encodeChar {c : Char} {byte : UInt8} (h : byte ∈ encodeChar c) :
    Usable byte := by
  rcases encodeChar_cases c with ⟨pos, small, form⟩ | ⟨-, small, form⟩ | ⟨-, small, form⟩ |
    ⟨-, high, low, hhigh, hlow, form⟩ <;> rw [form] at h
  · rw [List.mem_singleton.mp h]
    exact usable_byte pos (by omega)
  · exact usable_of_mem_twoBytes small h
  · exact usable_of_mem_threeBytes small h
  · rcases List.mem_append.mp h with h | h
    · exact usable_of_mem_threeBytes hhigh h
    · exact usable_of_mem_threeBytes hlow h

/-- Characters beyond the basic plane take two groups of three bytes. -/
theorem length_encodeChar (c : Char) : (encodeChar c).length = width c := by
  unfold width
  rcases encodeChar_cases c with ⟨pos, small, form⟩ | ⟨large, small, form⟩ | ⟨large, small, form⟩ |
    ⟨large, high, low, -, -, form⟩ <;> rw [form]
  · rw [if_neg (by omega), if_neg (by omega), if_neg (by omega)]
    rfl
  · rw [if_neg (by omega), if_neg (by omega), if_pos large]
    rfl
  · rw [if_neg (by omega), if_pos large]
    rfl
  · rw [if_pos large]
    rfl

/-! ## Whole texts -/

theorem usable_of_mem {text : String} {byte : UInt8} (h : byte ∈ encode text) : Usable byte := by
  obtain ⟨c, -, hbyte⟩ := List.mem_flatMap.mp h
  exact usable_of_mem_encodeChar hbyte

theorem length_encode (text : String) : (encode text).length = (text.toList.map width).sum := by
  rw [encode, List.length_flatMap]
  exact congrArg List.sum (List.map_congr_left fun c _ => length_encodeChar c)

/-- Different texts have different encodings, since each can be decoded. -/
theorem encode_injective : Function.Injective encode := by
  intro text text' h
  have read := congrArg decode? h
  rw [decode?_encode, decode?_encode] at read
  exact Option.some.inj read

/-- **Text is encoded faithfully.**  A decoder of the format gives it back; there is no zero byte
and none from `0xF0` on; it has as many bytes as its characters take up; and no other text has the
same bytes. -/
theorem text_is_encoded_faithfully (text : String) :
    decode? (encode text) = some text ∧
      (∀ byte ∈ encode text, byte ≠ 0 ∧ byte < 0xF0) ∧
      (encode text).length = (text.toList.map width).sum ∧
      ∀ other, encode other = encode text → other = text :=
  ⟨decode?_encode text, fun _ => usable_of_mem, length_encode text,
    fun _ same => encode_injective same⟩

/-- A text with characters of all four forms and the null character. -/
def mixed : String := "a\x00é€😀"

theorem mixed_is_encoded_faithfully :
    encode mixed = [0x61, 0xC0, 0x80, 0xC3, 0xA9, 0xE2, 0x82, 0xAC,
        0xED, 0xA0, 0xBD, 0xED, 0xB8, 0x80] ∧
      decode? (encode mixed) = some mixed ∧ (0xED : UInt8) ∈ encode mixed ∧ (0xED : UInt8) < 0xF0 ∧
      (encode mixed).length = 1 + 2 + 2 + 3 + 6 ∧ encode "a" ≠ encode mixed := by
  have bytes : encode mixed = [0x61, 0xC0, 0x80, 0xC3, 0xA9, 0xE2, 0x82, 0xAC,
      0xED, 0xA0, 0xBD, 0xED, 0xB8, 0x80] := by decide
  obtain ⟨read, usable, length, unique⟩ := text_is_encoded_faithfully mixed
  have occurs : (0xED : UInt8) ∈ encode mixed := by
    rw [bytes]
    decide
  refine ⟨bytes, read, occurs, (usable _ occurs).2, length.trans (by decide), fun same => ?_⟩
  exact absurd (unique "a" same) (by decide)

end JvmAsm.ModifiedUtf8
