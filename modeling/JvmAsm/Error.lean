import JvmAsm.AccessFlags
import JvmAsm.Constant
import JvmAsm.Descriptor.Cursor

/-! # Causes of failure

One type for everything that can go wrong while a class file is built, and one
function for the wording of each cause. Positions, counts and offending values
are kept as values; text is made of them only here. -/

namespace JvmAsm

/-- A placeholder for an instruction position that may not exist yet. -/
structure Label where
  id : Nat
  deriving DecidableEq, Repr

namespace Label

/-- How reports spell the label. -/
def describe (label : Label) : String :=
  "l" ++ toString label.id

end Label

/-- What there can be too many of. -/
inductive Plural where
  | exceptionHandlers
  | interfaces
  | fields
  | methods
  | attributes
  deriving DecidableEq, Repr

namespace Plural

/-- The words for the members counted. -/
def words : Plural → String
  | exceptionHandlers => "exception handlers"
  | interfaces => "interfaces"
  | fields => "fields"
  | methods => "methods"
  | attributes => "attributes"

end Plural

/-- Why bytes could not be put where they should go. -/
inductive StorageError where
  /-- The destination takes no more bytes. -/
  | full
  | notFound
  | notADirectory
  | isADirectory
  | nameTooLong
  | nulInPath
  deriving DecidableEq, Repr

namespace StorageError

/-- An operating system's error with its number, kind and text. -/
def system (code : Nat) (kind text : String) : String :=
  Text.record "Os" [("code", toString code), ("kind", kind), ("message", Text.quote text)]

/-- The wording of the cause. -/
def message : StorageError → String
  | full => "failed to write whole buffer"
  | notFound => "No such file or directory (os error 2)"
  | notADirectory => "Not a directory (os error 20)"
  | isADirectory => "Is a directory (os error 21)"
  | nameTooLong => "File name too long (os error 36)"
  | nulInPath => "file name contained an unexpected NUL byte"

/-- How reports spell the cause. -/
def describe : StorageError → String
  | full => Text.record "Error" [("kind", "WriteZero"), ("message", Text.quote (message full))]
  | notFound => system 2 "NotFound" "No such file or directory"
  | notADirectory => system 20 "NotADirectory" "Not a directory"
  | isADirectory => system 21 "IsADirectory" "Is a directory"
  | nameTooLong => system 36 "InvalidFilename" "File name too long"
  | nulInPath =>
    Text.record "Error" [("kind", "InvalidInput"), ("message", Text.quote (message nulInPath))]

end StorageError

/-- Why an operation failed. Instructions are named by their position. -/
inductive Error where
  /-- The constant would end beyond the last pool index. -/
  | poolOverflow (constant : Constant) (slot : Nat)
  /-- The text is longer, once encoded, than its length field can say. -/
  | utf8TooLong (length : Nat)
  | poolSealed
  | poolNotStable
  | poolNotSealed
  | poolAlreadyStable
  | missingEntry (entry : Entry)
  | missingConstant (constant : Constant)
  | storage (cause : StorageError)
  | methodHasNoCode
  | memberFinalized
  | invalidPosition (position : Nat)
  | unplacedLabel (label : Label)
  | duplicateLabel (label : Label)
  | invalidBranchTarget (instruction target : Nat)
  /-- A branch without a wide form reaches too far. -/
  | branchOverflow (instruction : Nat) (displacement : Int)
  | operandOverflow (instruction : Nat) (value : Int)
  | incrementOverflow (instruction : Nat)
  | unsortedLookup (instruction : Nat)
  | emptyTable (instruction : Nat)
  | invalidExceptionRange (start stop : Nat)
  | unsupportedOpcode (instruction : Nat) (opcode : UInt8)
  | invalidOperand (instruction : Nat) (mnemonic : String)
  | codeOverflow (length : Nat)
  | tooMany (members : Plural)
  | illegalAccessFlags (cause : IllegalFlags)
  | invalidName (cause : NameError)
  | invalidDescriptor (cause : DescriptorError)
  deriving DecidableEq

namespace Error

/-- The wording of a cause. -/
def message : Error → String
  | poolOverflow constant slot =>
    "constant pool is full at slot " ++ toString slot ++
      " (while adding " ++ constant.describe ++ ")"
  | utf8TooLong length => "UTF-8 constant is " ++ toString length ++ " bytes long when encoded"
  | poolSealed => "constant pool is sealed"
  | poolNotStable => "constant pool indices are not yet fixed"
  | poolNotSealed => "constant pool must be sealed first"
  | poolAlreadyStable => "constant pool indices are already fixed"
  | missingEntry entry => "constant " ++ entry.describe ++ " is not in the pool"
  | missingConstant constant => "constant " ++ constant.describe ++ " is not in the pool"
  | storage cause => "I/O error: " ++ cause.message
  | methodHasNoCode => "method cannot have code"
  | memberFinalized => "member is already finalized"
  | invalidPosition position => "no instruction at position " ++ toString position
  | unplacedLabel label => "label " ++ label.describe ++ " was never placed"
  | duplicateLabel label => "label " ++ label.describe ++ " was placed twice"
  | invalidBranchTarget instruction target =>
    "instruction " ++ toString instruction ++ " targets nonexistent position " ++ toString target
  | branchOverflow instruction displacement =>
    "instruction " ++ toString instruction ++ " branches " ++ toString displacement ++
      " bytes away, which needs a wide form"
  | operandOverflow instruction value =>
    "instruction " ++ toString instruction ++ " has operand " ++ toString value ++
      " which is out of range"
  | incrementOverflow instruction =>
    "instruction " ++ toString instruction ++ " has an iinc operand out of range"
  | unsortedLookup instruction =>
    "instruction " ++ toString instruction ++
      " has lookupswitch keys that are not strictly ascending"
  | emptyTable instruction =>
    "instruction " ++ toString instruction ++ " is a tableswitch with no targets"
  | invalidExceptionRange start stop =>
    "exception handler range " ++ toString start ++ ".." ++ toString stop ++
      " is empty or backwards"
  | unsupportedOpcode instruction opcode =>
    "instruction " ++ toString instruction ++ " uses unsupported opcode 0x" ++
      Text.hexPadded 2 opcode.toNat
  | invalidOperand instruction mnemonic =>
    "instruction " ++ toString instruction ++ " has an invalid operand for " ++ mnemonic
  | codeOverflow length => "method code is " ++ toString length ++ " bytes long"
  | tooMany members => "too many " ++ members.words
  | illegalAccessFlags cause =>
    cause.kind.word ++ " access flags 0x" ++ Text.hexPadded 4 cause.flags.toNat ++
      " include illegal bits 0x" ++ Text.hexPadded 4 cause.illegal.toNat
  | invalidName cause => "invalid name: " ++ cause.message
  | invalidDescriptor cause => "invalid descriptor: " ++ cause.message

/-- The name reports give to a cause. -/
def word : Error → String
  | poolOverflow .. => "ConstantPoolOverflow"
  | utf8TooLong _ => "Utf8ConstantTooLong"
  | poolSealed => "ConstantPoolSealed"
  | poolNotStable => "ConstantPoolNotStable"
  | poolNotSealed => "ConstantPoolNotSealed"
  | poolAlreadyStable => "ConstantPoolAlreadyStable"
  | missingEntry _ | missingConstant _ => "MissingConstant"
  | storage _ => "IoError"
  | methodHasNoCode => "MethodHasNoCode"
  | memberFinalized => "MemberFinalized"
  | invalidPosition _ => "InvalidPosition"
  | unplacedLabel _ => "UnplacedLabel"
  | duplicateLabel _ => "DuplicateLabel"
  | invalidBranchTarget .. => "InvalidBranchTarget"
  | branchOverflow .. => "BranchOverflow"
  | operandOverflow .. => "OperandOverflow"
  | incrementOverflow _ => "IIncOverflow"
  | unsortedLookup _ => "UnsortedLookupSwitch"
  | emptyTable _ => "EmptyTableSwitch"
  | invalidExceptionRange .. => "InvalidExceptionRange"
  | unsupportedOpcode .. => "UnsupportedOpcode"
  | invalidOperand .. => "InvalidOperand"
  | codeOverflow _ => "MethodCodeOverflow"
  | tooMany _ => "TooManyMembers"
  | illegalAccessFlags _ => "IllegalAccessFlags"
  | invalidName _ => "InvalidName"
  | invalidDescriptor _ => "InvalidDescriptor"

/-- How reports spell a cause with everything it carries. -/
def describe (error : Error) : String :=
  match error with
  | poolOverflow constant slot =>
    Text.record error.word [("constant", constant.describe), ("offset", toString slot)]
  | utf8TooLong length => Text.case error.word [toString length]
  | poolSealed | poolNotStable | poolNotSealed | poolAlreadyStable => error.word
  | missingEntry entry => Text.case error.word [Text.quote entry.describe]
  | missingConstant constant => Text.case error.word [Text.quote constant.describe]
  | storage cause => Text.case error.word [cause.describe]
  | methodHasNoCode | memberFinalized => error.word
  | invalidPosition position => Text.case error.word [toString position]
  | unplacedLabel label | duplicateLabel label => Text.case error.word [label.describe]
  | invalidBranchTarget instruction target =>
    Text.record error.word [("instruction", toString instruction), ("target", toString target)]
  | branchOverflow instruction displacement =>
    Text.record error.word
      [("instruction", toString instruction), ("displacement", toString displacement)]
  | operandOverflow instruction value =>
    Text.record error.word [("instruction", toString instruction), ("value", toString value)]
  | incrementOverflow instruction | unsortedLookup instruction | emptyTable instruction =>
    Text.record error.word [("instruction", toString instruction)]
  | invalidExceptionRange start stop =>
    Text.record error.word [("start", toString start), ("end", toString stop)]
  | unsupportedOpcode instruction opcode =>
    Text.record error.word
      [("instruction", toString instruction), ("opcode", toString opcode.toNat)]
  | invalidOperand instruction mnemonic =>
    Text.record error.word
      [("instruction", toString instruction), ("opcode", Text.quote mnemonic)]
  | codeOverflow length => Text.case error.word [toString length]
  | tooMany members => Text.case error.word [Text.quote members.words]
  | illegalAccessFlags cause =>
    Text.record error.word
      [("kind", Text.quote cause.kind.word), ("flags", toString cause.flags.toNat),
        ("illegal", toString cause.illegal.toNat)]
  | invalidName cause => Text.case error.word [Text.quote cause.message]
  | invalidDescriptor cause => Text.case error.word [Text.quote cause.message]

end Error

end JvmAsm
