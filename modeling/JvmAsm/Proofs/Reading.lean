import JvmAsm.Bytes
import Mathlib.Algebra.Ring.Nat

/-! # Reading bytes back

The other direction of `JvmAsm.Bytes`: readers that take what they need from the
front of a sequence of bytes and hand on the rest.  A format is read by a reader
that was written from the format's description, not from the code that writes it;
what ties the two together is `Reader.Reads`.

`reader.Reads bytes value` says that in front of **anything** the reader takes
exactly `bytes` and answers `value`.  Because the rest is arbitrary, such facts
compose: one reader after the other reads one sequence of bytes after the other
(`Reads.bind`), and a counted list is read by as many turns of the reader of its
elements (`Reads.times`).  The numbers of a class file are the leaves
(`reads_unsigned`, `reads_signed`). -/

namespace JvmAsm

namespace Bytes

theorem toNat_digit (width n : Nat) :
    (UInt8.ofNat (n >>> (8 * width))).toNat = n / 256 ^ width % 256 := by
  rw [Nat.shiftRight_eq_div_pow, Nat.pow_mul, UInt8.toNat_ofNat']

/-- One byte more is one digit more, to the base 256. -/
theorem foldl_ofNat (width n value : Nat) :
    (ofNat width n).foldl (fun value byte => 256 * value + byte.toNat) value =
      256 ^ width * value + n % 256 ^ width := by
  induction width generalizing value with
  | zero => simp [ofNat, Nat.mod_one]
  | succ width ih =>
    rw [ofNat, List.foldl_cons, ih, toNat_digit, Nat.mod_pow_succ, Nat.pow_succ, Nat.mul_add,
      Nat.mul_assoc, Nat.add_assoc, Nat.add_comm (n % 256 ^ width)]

/-- The low bytes of a number spell what is left of it modulo their range. -/
theorem toNat_ofNat (width n : Nat) : toNat (ofNat width n) = n % 256 ^ width := by
  rw [toNat, foldl_ofNat, Nat.mul_zero, Nat.zero_add]

/-- Only what is left of a number modulo the range of its bytes is written. -/
theorem ofNat_mod (width n : Nat) : ofNat width (n % 256 ^ width) = ofNat width n := by
  suffices same : ∀ more, ofNat width (n % 256 ^ (width + more)) = ofNat width n from same 0
  induction width with
  | zero => exact fun _ => rfl
  | succ width ih =>
    intro more
    have digit : n % 256 ^ (width + 1 + more) / 256 ^ width % 256 = n / 256 ^ width % 256 := by
      rw [Nat.add_assoc, Nat.pow_add, Nat.mod_mul_right_div_self, Nat.add_comm 1, Nat.pow_succ,
        Nat.mod_mul_left_mod]
    rw [ofNat, ofNat, Nat.add_assoc, ih, ← Nat.add_assoc]
    refine congrArg (· :: _) (UInt8.toNat_inj.mp ?_)
    rw [toNat_digit, toNat_digit, digit]

theorem ofInt_eq (width : Nat) (n : Int) :
    ofInt width n = ofNat width (n % (256 ^ width : Nat)).toNat := by
  rw [ofInt, Nat.one_shiftLeft, Nat.pow_mul]

/-- The integer that a number below `range` stands for in two's complement. -/
def fromTwosComplement (range n : Nat) : Int :=
  if 2 * n < range then (n : Int) else (n : Int) - (range : Int)

/-- The upper half of the range stands for negative numbers. -/
theorem fromTwosComplement_emod {range : Nat} {n : Int} (low : -(range : Int) ≤ 2 * n)
    (high : 2 * n < range) : fromTwosComplement range (n % range).toNat = n := by
  unfold fromTwosComplement
  -- A negative number is stored as itself plus the range of the field.
  rcases Int.lt_or_le n 0 with hneg | hpos
  · have stored : n % (range : Int) = n + range := by
      rw [← Int.add_emod_right, Int.emod_eq_of_lt (by omega) (by omega)]
    rw [stored, if_neg (by omega)]
    omega
  · rw [Int.emod_eq_of_lt hpos (by omega), if_pos (by omega)]
    omega

end Bytes

/-- Takes a value from the front of a sequence of bytes, and hands on the rest. -/
abbrev Reader := StateT Bytes Option

namespace Reader

variable {α β γ : Type}

/-- The next `count` bytes. -/
def take (count : Nat) : Reader Bytes := fun bytes =>
  if count ≤ bytes.length then some (bytes.take count, bytes.drop count) else none

/-- The next byte. -/
def byte : Reader UInt8
  | [] => none
  | byte :: rest => some (byte, rest)

/-- A number in `width` bytes, most significant first. -/
def unsigned (width : Nat) : Reader Nat := Bytes.toNat <$> take width

/-- A number in `width` bytes in two's complement. -/
def signed (width : Nat) : Reader Int := Bytes.fromTwosComplement (256 ^ width) <$> unsigned width

/-- Fails unless a condition holds. -/
def require (condition : Prop) [Decidable condition] : Reader Unit := fun bytes =>
  if condition then some ((), bytes) else none

/-- So many values, one after the other. -/
def times : Nat → Reader α → Reader (List α)
  | 0, _ => pure []
  | count + 1, reader => do
    let value ← reader
    let values ← times count reader
    return value :: values

/-- **Reads a value off these bytes**, whatever follows them. -/
def Reads (reader : Reader α) (bytes : Bytes) (value : α) : Prop :=
  ∀ rest, reader.run (bytes ++ rest) = some (value, rest)

namespace Reads

variable {reader : Reader α} {bytes bytes' : Bytes} {value : α} {value' : β}

protected theorem pure (value : α) : Reads (pure value) [] value := fun _ => rfl

protected theorem bind {next : α → Reader β} (first : reader.Reads bytes value)
    (second : (next value).Reads bytes' value') :
    (reader >>= next).Reads (bytes ++ bytes') value' := by
  intro rest
  have step := first (bytes' ++ rest)
  rw [List.append_assoc, StateT.run_bind, step]
  exact second rest

protected theorem map (f : α → β) (h : reader.Reads bytes value) :
    (f <$> reader).Reads bytes (f value) := by
  intro rest
  rw [StateT.run_map, h rest]
  rfl

/-- A value that is read and then shaped. -/
theorem bind_pure (f : α → β) (h : reader.Reads bytes value) :
    (reader >>= fun value => pure (f value)).Reads bytes (f value) := by
  have read : (reader >>= fun value => pure (f value)).Reads (bytes ++ []) (f value) :=
    h.bind (Reads.pure (f value))
  rwa [List.append_nil] at read

/-- A condition that holds is passed without reading anything. -/
theorem require {condition : Prop} [Decidable condition] (holds : condition) :
    (Reader.require condition).Reads [] () := by
  intro rest
  show (if condition then some ((), rest) else none) = _
  rw [if_pos holds]

theorem byte (value : UInt8) : Reader.byte.Reads [value] value := fun _ => rfl

theorem take (bytes : Bytes) : (Reader.take bytes.length).Reads bytes bytes := by
  intro rest
  show (if bytes.length ≤ (bytes ++ rest).length then
    some ((bytes ++ rest).take bytes.length, (bytes ++ rest).drop bytes.length) else none) = _
  rw [if_pos (by simp), List.take_left, List.drop_left]

/-- As many turns of a reader as there are items read all of them. -/
theorem times {count : Nat} {items : List γ} {write : γ → Bytes} {view : γ → α}
    (hcount : count = items.length)
    (h : ∀ item ∈ items, reader.Reads (write item) (view item)) :
    (Reader.times count reader).Reads (items.flatMap write) (items.map view) := by
  subst hcount
  induction items with
  | nil => exact Reads.pure []
  | cons item items ih =>
    have head := h item List.mem_cons_self
    have tail := ih fun other hother => h other (List.mem_cons_of_mem item hother)
    rw [List.flatMap_cons]
    exact head.bind (tail.bind_pure fun values => view item :: values)

end Reads

/-- A number that fits is read back. -/
theorem reads_unsigned {width n : Nat} (h : n < 256 ^ width) :
    (unsigned width).Reads (Bytes.ofNat width n) n := by
  have taken := Reads.take (Bytes.ofNat width n)
  rw [Bytes.length_ofNat] at taken
  have read := taken.map Bytes.toNat
  rwa [Bytes.toNat_ofNat, Nat.mod_eq_of_lt h] at read

theorem reads_unsigned_ofInt {width : Nat} {n : Int} (low : 0 ≤ n)
    (high : n < (256 ^ width : Nat)) :
    (unsigned width).Reads (Bytes.ofInt width n) n.toNat := by
  rw [Bytes.ofInt_eq, Int.emod_eq_of_lt low high]
  exact reads_unsigned (by omega)

/-- …and so is a signed one. -/
theorem reads_signed {width : Nat} {n : Int} (low : -((256 ^ width : Nat) : Int) ≤ 2 * n)
    (high : 2 * n < (256 ^ width : Nat)) : (signed width).Reads (Bytes.ofInt width n) n := by
  have pos : 0 < ((256 ^ width : Nat) : Int) := Int.natCast_pos.mpr (Nat.pow_pos (by omega))
  have small : (n % (256 ^ width : Nat)).toNat < 256 ^ width := by
    have below := Int.emod_lt_of_pos n pos
    have nonneg := Int.emod_nonneg n (Int.ne_of_gt pos)
    omega
  have read := (reads_unsigned small).map (Bytes.fromTwosComplement (256 ^ width))
  rwa [Bytes.fromTwosComplement_emod low high, ← Bytes.ofInt_eq] at read

/-- A number in the lower half of its range reads the same with and without a sign. -/
theorem reads_signed_ofNat {width n : Nat} (h : 2 * n < 256 ^ width) :
    (signed width).Reads (Bytes.ofNat width n) n := by
  have read := (reads_unsigned (show n < 256 ^ width by omega)).map
    (Bytes.fromTwosComplement (256 ^ width))
  have value : Bytes.fromTwosComplement (256 ^ width) n = n := if_pos h
  rwa [value] at read

/-! ## Numbers of fixed width -/

theorem reads_uint16 (value : UInt16) : (unsigned 2).Reads (encode value) value.toNat :=
  reads_unsigned value.toNat_lt

theorem reads_uint32 (value : UInt32) : (unsigned 4).Reads (encode value) value.toNat :=
  reads_unsigned value.toNat_lt

theorem reads_uint64 (value : UInt64) : (unsigned 8).Reads (encode value) value.toNat :=
  reads_unsigned value.toNat_lt

theorem reads_int32 (value : Int32) : (signed 4).Reads (encode value) value.toInt := by
  have low := value.le_toInt
  have high := value.toInt_lt
  exact reads_signed (by omega) (by omega)

theorem reads_int64 (value : Int64) : (signed 8).Reads (encode value) value.toInt := by
  have low := value.le_toInt
  have high := value.toInt_lt
  exact reads_signed (by omega) (by omega)

end Reader

end JvmAsm
