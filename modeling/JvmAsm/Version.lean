import JvmAsm.Writer

/-! # Class file versions -/

namespace JvmAsm

/-- The version a class file declares. Versions are ordered by minor version
first, which is also the order they are written in. -/
structure Version where
  minor : UInt16
  major : UInt16
  deriving DecidableEq, Ord, Repr

namespace Version

/-- Accepted by every virtual machine, and the last one that never needs stack
maps. -/
def java1_1 : Version := ⟨3, 45⟩

/-- Java SE 6. -/
def java6 : Version := ⟨0, 50⟩

/-- Java SE 8. -/
def java8 : Version := ⟨0, 52⟩

instance : Inhabited Version := ⟨java1_1⟩

instance : Serialize Version where
  serialize version := do
    serialize version.minor
    serialize version.major

end Version

end JvmAsm
