import JvmAsm.Bytes

/-! # Access flags

Classes, methods and fields each carry sixteen bits of flags. The same bit has
different names on different declarations, so flags are typed by the kind of
declaration they belong to. Of the flags that exist, only some are allowed here:
synthetic members, enumerations, bridges and the like belong to versions of the
format newer than the one this library writes. -/

namespace JvmAsm

/-- The kinds of declarations that carry flags. -/
inductive Declaration where
  | type
  | method
  | field
  deriving DecidableEq, Repr

/-- Sixteen bits of flags on a kind of declaration. -/
structure AccessFlags (kind : Declaration) where
  bits : UInt16
  deriving DecidableEq, Repr

/-- Flags with bits outside the allowed set. -/
structure IllegalFlags where
  kind : Declaration
  flags : UInt16
  illegal : UInt16
  deriving DecidableEq, Repr

namespace Declaration

/-- The word for the kind of declaration. -/
def word : Declaration → String
  | type => "class"
  | method => "method"
  | field => "field"

/-- The flags that exist, by name and bit, from the lowest bit up. -/
def flags : Declaration → List (String × UInt16)
  | type =>
    [("PUBLIC", 0x0001), ("FINAL", 0x0010), ("SUPER", 0x0020), ("INTERFACE", 0x0200),
      ("ABSTRACT", 0x0400), ("SYNTHETIC", 0x1000), ("ANNOTATION", 0x2000), ("ENUM", 0x4000),
      ("MODULE", 0x8000)]
  | method =>
    [("PUBLIC", 0x0001), ("PRIVATE", 0x0002), ("PROTECTED", 0x0004), ("STATIC", 0x0008),
      ("FINAL", 0x0010), ("SYNCHRONIZED", 0x0020), ("BRIDGE", 0x0040), ("VARARGS", 0x0080),
      ("NATIVE", 0x0100), ("ABSTRACT", 0x0400), ("STRICT", 0x0800), ("SYNTHETIC", 0x1000)]
  | field =>
    [("PUBLIC", 0x0001), ("PRIVATE", 0x0002), ("PROTECTED", 0x0004), ("STATIC", 0x0008),
      ("FINAL", 0x0010), ("VOLATILE", 0x0040), ("TRANSIENT", 0x0080), ("SYNTHETIC", 0x1000),
      ("ENUM", 0x4000)]

/-- The bits that have a name. -/
def known (kind : Declaration) : UInt16 :=
  (kind.flags.map Prod.snd).foldl (· ||| ·) 0

/-- The bits that may be set. -/
def legal : Declaration → UInt16
  | type => 0x0631
  | method => 0x0D3F
  | field => 0x00DF

end Declaration

namespace Flag

/-- Usable everywhere. -/
def pub : UInt16 := 0x0001

/-- Belongs to the class and not to its instances. -/
def static : UInt16 := 0x0008

/-- Not to be overridden, extended or assigned again. -/
def final : UInt16 := 0x0010

/-- Calls of inherited methods look at the direct parent first. -/
def super : UInt16 := 0x0020

/-- Implemented outside the class file. -/
def native : UInt16 := 0x0100

/-- An interface and not a class. -/
def interface : UInt16 := 0x0200

/-- Left to be implemented elsewhere. -/
def abstract : UInt16 := 0x0400

end Flag

namespace AccessFlags

variable {kind : Declaration}

/-- The named bits among any sixteen. -/
def truncate (kind : Declaration) (bits : UInt16) : AccessFlags kind :=
  ⟨bits &&& kind.known⟩

/-- Some of the given bits are set. -/
def intersects (flags : AccessFlags kind) (bits : UInt16) : Bool :=
  flags.bits &&& bits != 0

/-- The bits that are set and may not be. -/
def illegal (flags : AccessFlags kind) : UInt16 :=
  flags.bits &&& ~~~kind.legal

/-- The same flags, provided all of them are allowed. -/
def check (flags : AccessFlags kind) : Except IllegalFlags (AccessFlags kind) :=
  if flags.illegal = 0 then .ok flags else .error ⟨kind, flags.bits, flags.illegal⟩

/-- The names of the flags that are set. -/
def describe (flags : AccessFlags kind) : String :=
  match kind.flags.filter (fun (_, bit) => flags.intersects bit) with
  | [] => "(empty)"
  | set => " | ".intercalate (set.map Prod.fst)

end AccessFlags

end JvmAsm
