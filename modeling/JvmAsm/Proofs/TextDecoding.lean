import JvmAsm.Text.ModifiedUtf8

/-! # Reading modified UTF-8

The decoder of the format, in the two stages of its description: bytes are grouped
into UTF-16 units (`units?`), and units into characters, a pair of surrogates being
one character (`chars?`).  Each stage takes what `encodeChar` writes for one
character off the front of anything, so a whole text comes back
(`decode?_encode`). -/

namespace JvmAsm.ModifiedUtf8

/-! ## The decoder -/

/-- The byte continues a group. -/
abbrev Continues (byte : UInt8) : Prop := 0x80 ≤ byte.toNat ∧ byte.toNat < 0xC0

/-- The UTF-16 units that groups of one, two and three bytes stand for. -/
def units? : Bytes → Option (List Nat)
  | [] => some []
  | first :: rest =>
    if 0 < first.toNat ∧ first.toNat < 0x80 then
      (units? rest).map (first.toNat :: ·)
    else if 0xC0 ≤ first.toNat ∧ first.toNat < 0xE0 then
      match rest with
      | second :: rest =>
        if Continues second then
          (units? rest).map ((64 * (first.toNat - 0xC0) + (second.toNat - 0x80)) :: ·)
        else none
      | [] => none
    else if 0xE0 ≤ first.toNat ∧ first.toNat < 0xF0 then
      match rest with
      | second :: third :: rest =>
        if Continues second ∧ Continues third then
          (units? rest).map ((4096 * (first.toNat - 0xE0) + 64 * (second.toNat - 0x80) +
            (third.toNat - 0x80)) :: ·)
        else none
      | _ => none
    else none

/-- The characters that UTF-16 units stand for. A surrogate without its partner stands for
none. -/
def chars? : List Nat → Option (List Char)
  | [] => some []
  | unit :: rest =>
    if unit < 0xD800 ∨ 0xE000 ≤ unit then
      (chars? rest).map (Char.ofNat unit :: ·)
    else if unit < 0xDC00 then
      match rest with
      | low :: rest =>
        if 0xDC00 ≤ low ∧ low < 0xE000 then
          (chars? rest).map
            (Char.ofNat (0x10000 + 0x400 * (unit - 0xD800) + (low - 0xDC00)) :: ·)
        else none
      | [] => none
    else none

/-- The text that bytes in modified UTF-8 stand for. -/
def decode? (bytes : Bytes) : Option String :=
  ((units? bytes).bind chars?).map String.ofList

/-! ## Groups -/

theorem toNat_byte {n : Nat} (h : n < 256) : (UInt8.ofNat n).toNat = n :=
  UInt8.toNat_ofNat_of_lt' h

theorem units?_oneByte {unit : Nat} (pos : 0 < unit) (small : unit < 0x80) (rest : Bytes) :
    units? (UInt8.ofNat unit :: rest) = (units? rest).map (unit :: ·) := by
  have value : (UInt8.ofNat unit).toNat = unit := toNat_byte (by omega)
  rw [units?.eq_def]
  dsimp only
  rw [value, if_pos ⟨pos, small⟩]

/-- Zero takes two bytes as well, so one byte is never zero. -/
theorem units?_twoBytes {unit : Nat} (small : unit < 0x800) (rest : Bytes) :
    units? (twoBytes unit ++ rest) = (units? rest).map (unit :: ·) := by
  have first : (UInt8.ofNat (0xC0 + unit / 64)).toNat = 0xC0 + unit / 64 :=
    toNat_byte (by omega)
  have second : (UInt8.ofNat (0x80 + unit % 64)).toNat = 0x80 + unit % 64 :=
    toNat_byte (by omega)
  have whole : 64 * (0xC0 + unit / 64 - 0xC0) + (0x80 + unit % 64 - 0x80) = unit := by omega
  show units? (UInt8.ofNat _ :: UInt8.ofNat _ :: rest) = _
  rw [units?, first, if_neg (by omega), if_pos (by omega), if_pos (by omega), second, whole]

theorem units?_threeBytes {unit : Nat} (small : unit < 0x10000) (rest : Bytes) :
    units? (threeBytes unit ++ rest) = (units? rest).map (unit :: ·) := by
  have first : (UInt8.ofNat (0xE0 + unit / 4096)).toNat = 0xE0 + unit / 4096 :=
    toNat_byte (by omega)
  have second : (UInt8.ofNat (0x80 + unit / 64 % 64)).toNat = 0x80 + unit / 64 % 64 :=
    toNat_byte (by omega)
  have third : (UInt8.ofNat (0x80 + unit % 64)).toNat = 0x80 + unit % 64 :=
    toNat_byte (by omega)
  have whole : 4096 * (0xE0 + unit / 4096 - 0xE0) + 64 * (0x80 + unit / 64 % 64 - 0x80) +
      (0x80 + unit % 64 - 0x80) = unit := by omega
  show units? (UInt8.ofNat _ :: UInt8.ofNat _ :: UInt8.ofNat _ :: rest) = _
  rw [units?, first, if_neg (by omega), if_neg (by omega), if_pos (by omega)]
  dsimp only
  rw [if_pos (by omega), second, third, whole]

/-! ## Characters -/

/-- The UTF-16 units of a character. -/
def unitsOf (c : Char) : List Nat :=
  if c.toNat < 0x10000 then [c.toNat]
  else [0xD800 + (c.toNat - 0x10000) / 0x400, 0xDC00 + (c.toNat - 0x10000) % 0x400]

/-- The code points of characters leave out the surrogates. -/
theorem toNat_range (c : Char) : c.toNat < 0xD800 ∨ 0xE000 ≤ c.toNat ∧ c.toNat < 0x110000 := by
  rcases c.valid with low | ⟨above, below⟩
  · exact .inl low
  · exact .inr ⟨above, below⟩

/-- A character is read as its code units: one, or a pair of surrogates. -/
theorem units?_encodeChar (c : Char) (rest : Bytes) :
    units? (encodeChar c ++ rest) = (units? rest).map (unitsOf c ++ ·) := by
  have range := toNat_range c
  unfold encodeChar unitsOf
  dsimp only
  by_cases one : c.toNat ≠ 0 ∧ c.toNat < 0x80
  · rw [if_pos one, if_pos (by omega)]
    exact units?_oneByte (by omega) one.2 rest
  · rw [if_neg one]
    by_cases two : c.toNat < 0x800
    · rw [if_pos two, if_pos (by omega)]
      exact units?_twoBytes two rest
    · rw [if_neg two]
      by_cases three : c.toNat < 0x10000
      · rw [if_pos three, if_pos three]
        exact units?_threeBytes three rest
      · rw [if_neg three, if_neg three, List.append_assoc, units?_threeBytes (by omega),
          units?_threeBytes (by omega), Option.map_map]
        rfl

/-- …and these are put together again. -/
theorem chars?_unitsOf (c : Char) (rest : List Nat) :
    chars? (unitsOf c ++ rest) = (chars? rest).map (c :: ·) := by
  have range := toNat_range c
  unfold unitsOf
  by_cases basic : c.toNat < 0x10000
  · rw [if_pos basic]
    show chars? (c.toNat :: rest) = _
    rw [chars?.eq_def]
    dsimp only
    rw [if_pos (by omega), Char.ofNat_toNat]
  · rw [if_neg basic]
    show chars? (_ :: _ :: rest) = _
    have whole : 0x10000 + 0x400 * (0xD800 + (c.toNat - 0x10000) / 0x400 - 0xD800) +
        (0xDC00 + (c.toNat - 0x10000) % 0x400 - 0xDC00) = c.toNat := by omega
    rw [chars?, if_neg (by omega), if_pos (by omega), if_pos (by omega), whole, Char.ofNat_toNat]

/-! ## Texts -/

theorem units?_encode (chars : List Char) :
    units? (chars.flatMap encodeChar) = some (chars.flatMap unitsOf) := by
  induction chars with
  | nil => rfl
  | cons c chars ih =>
    rw [List.flatMap_cons, units?_encodeChar, ih, Option.map_some, List.flatMap_cons]

theorem chars?_units (chars : List Char) : chars? (chars.flatMap unitsOf) = some chars := by
  induction chars with
  | nil => rfl
  | cons c chars ih => rw [List.flatMap_cons, chars?_unitsOf, ih, Option.map_some]

/-- **Encoded text reads back.** -/
theorem decode?_encode (text : String) : decode? (encode text) = some text := by
  rw [decode?, encode, units?_encode, Option.bind_some, chars?_units, Option.map_some,
    String.ofList_toList]

end JvmAsm.ModifiedUtf8
