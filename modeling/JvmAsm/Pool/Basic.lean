import JvmAsm.Attempt
import JvmAsm.Error
import JvmAsm.OffsetTable
import JvmAsm.Text.ModifiedUtf8
import Std.Data.HashMap

/-! # The constant pool

A pool collects constants, each of them once, and hands out an entry for each. It
goes through three states. While it is *growing*, entries have no index yet and
the pool counts how often each constant is asked for. Fixing the indices, in the
order of insertion or by descending count, makes it *stable*; from then on a new
constant takes the next free index at once. A *sealed* pool takes no more
constants, and only a sealed pool can be written.

Index 0 is never used and wide constants take two indices, so the next free index
is one more than the sum of the widths; it is at most 65535, since it is written
in two bytes as the size of the pool.

Adding a composite constant adds its constituents first. Constituents nest at
most two deep, and `addWithin` follows that nesting: it is one step, `intern`,
with the step for the constituents as an argument. Each step looks the constant
up before anything else, so a constant that is present costs one look-up and
never touches its constituents. -/

namespace JvmAsm

/-- The states of a pool. -/
inductive PoolState where
  /-- Constants can be added; indices are not fixed yet. -/
  | growing
  /-- Indices are fixed; new constants take the next one. -/
  | stable
  /-- Nothing can be added. -/
  | sealed
  deriving DecidableEq, Repr

namespace PoolState

/-- The name of a state. -/
def word : PoolState → String
  | growing => "Open"
  | stable => "Stable"
  | sealed => "Sealed"

end PoolState

/-- What a pool knows about one of its constants. -/
structure PoolSlot where
  constant : Constant
  /-- The entries of the constituents, in order. -/
  children : List Entry
  /-- How often the constant was asked for while the pool was growing, as a
  constituent included. It is a 32-bit count: the one after the last is zero. -/
  references : UInt32
  /-- The index, once it is fixed. -/
  index : Option UInt16
  deriving DecidableEq

/-- A constant pool. -/
structure Pool where
  /-- The constants in the order of insertion. -/
  slots : Array PoolSlot
  /-- The entry of each constant. -/
  lookup : Std.HashMap Constant Entry
  /-- The entries by index, once indices are fixed. -/
  layout : OffsetTable Entry
  state : PoolState
  /-- The next free index. -/
  nextSlot : Nat

/-- The largest size of a pool, and the largest count and length that two bytes
can hold. -/
def maxCount : Nat := 65535

namespace Pool

/-- A pool without constants. -/
def empty : Pool := ⟨#[], ∅, .startingAt 1, .growing, 1⟩

instance : Inhabited Pool := ⟨empty⟩

/-- Changes of a pool. -/
abbrev Action := Attempt Error Pool

/-! ## Looking things up -/

/-- Number of constants. -/
def length (pool : Pool) : Nat := pool.slots.size

/-- The size that is written in front of the constants: the next free index. -/
def size (pool : Pool) : UInt16 := UInt16.ofNat pool.nextSlot

/-- The entry of a constant. -/
def get? (pool : Pool) (constant : Constant) : Option Entry := pool.lookup[constant]?

/-- The constant of an entry. -/
def constant? (pool : Pool) (entry : Entry) : Option Constant :=
  pool.slots[entry.rank]?.map PoolSlot.constant

/-- How often the constant of an entry was asked for. -/
def references? (pool : Pool) (entry : Entry) : Option UInt32 :=
  pool.slots[entry.rank]?.map PoolSlot.references

/-- The index of an entry. -/
def index (pool : Pool) (entry : Entry) : Except Error UInt16 :=
  if pool.state = .growing then
    .error .poolNotStable
  else match pool.slots[entry.rank]? with
    | none => .error (.missingEntry entry)
    | some slot =>
      match slot.index with
      | none => .error .poolNotStable
      | some index => .ok index

/-- The index of a constant. -/
def indexOf (pool : Pool) (constant : Constant) : Except Error UInt16 :=
  if pool.state = .growing then
    .error .poolNotStable
  else match pool.get? constant with
    | none => .error (.missingConstant constant)
    | some entry => pool.index entry

/-- The constant at an index. The second index of a wide constant has none. -/
def constantAt? (pool : Pool) (index : UInt16) : Option Constant :=
  (pool.layout.get? index.toUInt64).bind pool.constant?

/-! ## Adding constants -/

/-- Counts one more use of an entry, as long as the pool is growing. -/
def bump (entry : Entry) (pool : Pool) : Pool :=
  match pool with
  | ⟨slots, lookup, layout, .growing, nextSlot⟩ =>
    ⟨slots.modify entry.rank fun slot => { slot with references := slot.references + 1 },
      lookup, layout, .growing, nextSlot⟩
  | pool => pool

/-- A new slot for a constant whose constituents are present. -/
def push (constant : Constant) (children : List Entry) : Action Entry := fun pool =>
  match pool with
  | ⟨slots, lookup, layout, state, nextSlot⟩ =>
    if maxCount < nextSlot + constant.width then
      .error (.poolOverflow constant nextSlot) ⟨slots, lookup, layout, state, nextSlot⟩
    else
      let entry : Entry := ⟨slots.size⟩
      let nextSlot := nextSlot + constant.width
      match state with
      | .stable =>
        .ok entry ⟨slots.push ⟨constant, children, 1, some layout.stop.toUInt16⟩,
          lookup.insert constant entry, layout.push (.ofNat constant.width) entry,
          .stable, nextSlot⟩
      | state =>
        .ok entry ⟨slots.push ⟨constant, children, 1, none⟩,
          lookup.insert constant entry, layout, state, nextSlot⟩

/-- The encoded length of a text constant that is too long for its length field. -/
def excess? : Constant → Option Nat
  | .utf8 text =>
    let length := (ModifiedUtf8.encode text).length
    if maxCount < length then some length else none
  | _ => none

/-- Gets or adds a constant, given how to add its constituents. -/
def intern (parts : List Constant → Action (List Entry)) (constant : Constant) :
    Action Entry := fun pool =>
  if pool.state = .sealed then
    .error .poolSealed pool
  else match pool.lookup[constant]? with
    | some entry => .ok entry (pool.bump entry)
    | none =>
      match excess? constant with
      | some length => .error (.utf8TooLong length) pool
      | none => (parts constant.constituents >>= push constant) pool

/-- Gets or adds a constant whose constituents nest at most so deep. -/
def addWithin : Nat → Constant → Action Entry
  | 0 => intern fun _ => pure []
  | depth + 1 => intern fun parts => parts.mapM (addWithin depth)

/-- Gets or adds a constant. What a failing addition added before it failed stays
in the pool. -/
def add (constant : Constant) : Action Entry := addWithin constant.height constant

/-- Gets or adds a text. -/
def addUtf8 (text : String) : Action Entry := add (.utf8 text)

/-- Gets or adds a class by its name. -/
def addClass (name : BinaryName) : Action Entry := add (.refType (.object name))

/-! ## Fixing indices -/

/-- Gives an entry the next index. -/
def place (pool : Pool) (entry : Entry) : Pool :=
  match pool with
  | ⟨slots, lookup, layout, state, nextSlot⟩ =>
    match slots[entry.rank]? with
    | none => ⟨slots, lookup, layout, state, nextSlot⟩
    | some slot =>
      ⟨slots.setIfInBounds entry.rank { slot with index := some layout.stop.toUInt16 },
        lookup, layout.push (.ofNat slot.constant.width) entry, state, nextSlot⟩

/-- Gives all entries their indices, in the given order. -/
def layOut (order : List Entry) (pool : Pool) : Pool :=
  { order.foldl place pool with state := .stable }

/-- All entries in the order of insertion. -/
def entries (pool : Pool) : List Entry := (List.range pool.slots.size).map Entry.mk

/-- All entries by descending number of references; those with equal numbers stay
in the order of insertion. -/
def entriesByUse (pool : Pool) : List Entry :=
  pool.entries.mergeSort fun a b =>
    decide (((pool.references? b).getD 0).toNat ≤ ((pool.references? a).getD 0).toNat)

/-- Fixes the indices in the order of insertion, unless they are fixed. -/
def stabilize (pool : Pool) : Pool :=
  if pool.state = .growing then
    let order := pool.entries
    pool.layOut order
  else
    pool

/-- Fixes the indices so that the constants used most come first. -/
def optimize : Action Unit := fun pool =>
  if pool.state = .growing then
    let order := pool.entriesByUse
    .ok () (pool.layOut order)
  else
    .error .poolAlreadyStable pool

/-- Seals a stable pool. -/
def close : Action Unit := fun pool =>
  match pool.state with
  | .growing => .error .poolNotStable pool
  | .sealed => .error .poolSealed pool
  | .stable => .ok () { pool with state := .sealed }

end Pool

end JvmAsm
