import JvmAsm.Bytes
import Mathlib.Tactic.SplitIfs

/-! # The order of texts

Texts are ordered by their characters, one after the other.  In UTF-8 their bytes are in
the same order, although characters take one to four bytes.  What makes it so: of two
characters, the encoding of the earlier one is lower at the first byte where the two
encodings differ, and there is such a byte, since no encoding starts another one
(`lower_encodeChar`). -/

namespace JvmAsm.Text

/-- The bytes of a text in UTF-8. -/
def utf8 (text : String) : Bytes := text.toUTF8.data.toList

theorem utf8_eq (text : String) : utf8 text = text.toList.flatMap String.utf8EncodeChar := by
  obtain ⟨chars, rfl⟩ : ∃ chars, String.ofList chars = text := ⟨text.toList, String.ofList_toList⟩
  rw [String.toList_ofList]
  exact List.toList_data_toByteArray

/-- Somewhere the bytes differ, and where they first do, the first are lower. -/
def Lower : Bytes → Bytes → Prop
  | byte :: bytes, byte' :: bytes' => byte < byte' ∨ byte = byte' ∧ Lower bytes bytes'
  | _, _ => False

/-- Whatever follows, the order is decided. -/
theorem Lower.append_lt {bytes bytes' : Bytes} (h : Lower bytes bytes') (rest rest' : Bytes) :
    bytes ++ rest < bytes' ++ rest' := by
  induction bytes generalizing bytes' with
  | nil => cases h
  | cons byte bytes ih =>
    cases bytes' with
    | nil => cases h
    | cons byte' bytes' =>
      rw [List.cons_append, List.cons_append, List.cons_lt_cons_iff]
      rcases h with lower | ⟨rfl, lower⟩
      · exact .inl lower
      · exact .inr ⟨rfl, ih lower⟩

theorem not_lower_nil (bytes : Bytes) : ¬ Lower bytes [] := by
  cases bytes <;> exact id

theorem not_nil_lower (bytes : Bytes) : ¬ Lower [] bytes := id

theorem lower_cons {n n' : Nat} (small : n < 256) (small' : n' < 256) (bytes bytes' : Bytes) :
    Lower (UInt8.ofNat n :: bytes) (UInt8.ofNat n' :: bytes') ↔
      n < n' ∨ n = n' ∧ Lower bytes bytes' := by
  have toNat : (UInt8.ofNat n).toNat = n := UInt8.toNat_ofNat_of_lt small
  have toNat' : (UInt8.ofNat n').toNat = n' := UInt8.toNat_ofNat_of_lt small'
  rw [Lower, UInt8.lt_iff_toNat_lt, ← UInt8.toNat_inj, toNat, toNat']

/-- **Encodings of characters are ordered like the characters.** -/
theorem lower_encodeChar {c d : Char} (h : c < d) :
    Lower (String.utf8EncodeChar c) (String.utf8EncodeChar d) := by
  have below : c.val.toNat < d.val.toNat := h
  have bound : d.val.toNat < 0x110000 := by
    have valid := d.valid
    simp only [UInt32.isValidChar, Nat.isValidChar] at valid
    omega
  -- Bytes behind the first hold six bits each: digits to the base 64.
  have digits (n : Nat) : n / 4096 = n / 64 / 64 ∧ n / 262144 = n / 64 / 64 / 64 := by omega
  unfold String.utf8EncodeChar
  dsimp only
  split_ifs <;>
    simp (disch := omega) only [digits, lower_cons, not_lower_nil, not_nil_lower, and_false,
      or_false] <;>
    omega

/-- Characters in order have bytes in order. -/
theorem flatMap_encodeChar_lt {chars chars' : List Char} (h : chars < chars') :
    chars.flatMap String.utf8EncodeChar < chars'.flatMap String.utf8EncodeChar := by
  induction chars generalizing chars' with
  | nil =>
    cases chars' with
    | nil => exact absurd h (List.lt_irrefl [])
    | cons d chars' =>
      have filled : String.utf8EncodeChar d ≠ [] := String.utf8EncodeChar_ne_nil
      obtain ⟨byte, bytes, same⟩ := List.exists_cons_of_ne_nil filled
      rw [List.flatMap_nil, List.flatMap_cons, same]
      exact List.nil_lt_cons byte _
  | cons c chars ih =>
    cases chars' with
    | nil => exact absurd h (List.not_lt_nil _)
    | cons d chars' =>
      rw [List.flatMap_cons, List.flatMap_cons]
      rcases List.cons_lt_cons_iff.mp h with earlier | ⟨rfl, later⟩
      · exact (lower_encodeChar earlier).append_lt _ _
      · exact List.append_left_lt (ih later)

/-- **Texts in order have bytes in order.** -/
theorem utf8_lt_utf8 {text text' : String} (h : text < text') : utf8 text < utf8 text' := by
  rw [utf8_eq, utf8_eq]
  exact flatMap_encodeChar_lt (String.lt_iff.mp h)

end JvmAsm.Text
