import JvmAsm.AccessFlags
import JvmAsm.Attempt
import JvmAsm.Attribute.Basic
import JvmAsm.Attribute.Code
import JvmAsm.Bytes
import JvmAsm.Class.Basic
import JvmAsm.Class.Edit
import JvmAsm.Class.Saving
import JvmAsm.Code.Assembly
import JvmAsm.Code.Basic
import JvmAsm.Code.Edit
import JvmAsm.Code.Layout
import JvmAsm.Code.Link
import JvmAsm.CommandLine
import JvmAsm.Constant
import JvmAsm.Counter
import JvmAsm.Descriptor.Basic
import JvmAsm.Descriptor.Cursor
import JvmAsm.Descriptor.Reader
import JvmAsm.Error
import JvmAsm.Field
import JvmAsm.FileTree
import JvmAsm.Instruction.Basic
import JvmAsm.Instruction.Push
import JvmAsm.Journal
import JvmAsm.Main
import JvmAsm.Member
import JvmAsm.Method
import JvmAsm.Name
import JvmAsm.OffsetTable
import JvmAsm.Opcode
import JvmAsm.Writer
import JvmAsm.Pool.Basic
import JvmAsm.Pool.Edit
import JvmAsm.Pool.Encoding
import JvmAsm.Registry
import JvmAsm.Reply
import JvmAsm.Text.ModifiedUtf8
import JvmAsm.Text.Printable
import JvmAsm.Text.Report
import JvmAsm.Version
import JvmAsm.Proofs.Linking
import JvmAsm.Proofs.Reading
import JvmAsm.Proofs.Starts
import JvmAsm.Proofs.JumpReach
import JvmAsm.Proofs.CodeReader
import JvmAsm.Proofs.AssemblyRoundTrip
import JvmAsm.Proofs.OffsetSearch
import JvmAsm.Proofs.PoolInvariant
import JvmAsm.Proofs.PoolGrowth
import JvmAsm.Proofs.PoolReader
import JvmAsm.Proofs.Writers
import JvmAsm.Proofs.Outputs
import JvmAsm.Proofs.PoolRoundTrip
import JvmAsm.Proofs.PoolExtension
import JvmAsm.Proofs.AttributeContainer
import JvmAsm.Proofs.FieldHistory
import JvmAsm.Proofs.MethodHistory
import JvmAsm.Proofs.ClassHistory
import JvmAsm.Proofs.Preparation
import JvmAsm.Proofs.ClassReader
import JvmAsm.Proofs.ClassFraming
import JvmAsm.Proofs.ClassRoundTrip
import JvmAsm.Proofs.ClassLinks
import JvmAsm.Proofs.ExceptionTable
import JvmAsm.Proofs.Sealing
import JvmAsm.Proofs.ClassLifecycle
import JvmAsm.Proofs.FrozenClasses
import JvmAsm.Proofs.PoolPermanence
import JvmAsm.Proofs.PoolClosure
import JvmAsm.Proofs.AssemblyAcceptance
import JvmAsm.Proofs.LabelPositions
import JvmAsm.Proofs.PoolLockstep
import JvmAsm.Proofs.CodeMeaning
import JvmAsm.Proofs.PushedConstants
import JvmAsm.Proofs.ClassMeaning
import JvmAsm.Proofs.PoolOrder
import JvmAsm.Proofs.CursorPlaces
import JvmAsm.Proofs.Descriptors
import JvmAsm.Proofs.TextEncoding
import JvmAsm.Proofs.PoolDistinctness
import JvmAsm.Proofs.Execution
import JvmAsm.Proofs.LimitedDestinations
import JvmAsm.Proofs.ExecutableCode
import JvmAsm.Proofs.ExecutableClass
import JvmAsm.Proofs.CounterConstruction
import JvmAsm.Proofs.CounterRun
import JvmAsm.Proofs.FailedAdditions
import JvmAsm.Proofs.ReferenceCounts
import JvmAsm.Proofs.OrderOfUse
import JvmAsm.Proofs.Attempts
import JvmAsm.Proofs.MemberFailures
import JvmAsm.Proofs.FailedEdits
import JvmAsm.Proofs.IndexLookup
import JvmAsm.Proofs.LabelPlacement
import JvmAsm.Proofs.WriteLog
import JvmAsm.Proofs.MethodSteps
import JvmAsm.Proofs.AttributeHistory
import JvmAsm.Proofs.TextOrder
import JvmAsm.Proofs.RegistryHistory
import JvmAsm.Proofs.OffsetHistory
import JvmAsm.Proofs.DescriptorSessions
import JvmAsm.Proofs.ClassFilePaths
import JvmAsm.Proofs.FileStorage
import JvmAsm.Proofs.SavedClasses
