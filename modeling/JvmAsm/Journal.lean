import JvmAsm.Class.Edit
import JvmAsm.Registry

/-! # The journal

What the library reports about its work, at two levels of detail: pools, code and
classes report when they reach a new state, and assembly reports every
instruction it is about to encode. Reports are values, computed from the state an
operation starts in; the operations themselves know nothing of them. -/

namespace JvmAsm

/-- How detailed a report is. -/
inductive Level where
  | debug
  | trace
  deriving DecidableEq, Repr

/-- Something worth reporting. -/
inductive Event where
  | stabilized (constants slots : Nat)
  | optimized (constants slots : Nat)
  | sealed (size : Nat)
  /-- An instruction is about to be encoded. -/
  | encoding (start : Nat) (opcode : Opcode) (operand : Operand Target Entry)
  | assembled (instructions bytes widened handlers : Nat)
  | prepared (name : BinaryName) (constants fields methods : Nat)
  | registered (name : BinaryName) (bytes : Nat)
  deriving DecidableEq

namespace Event

/-- The level of a report. -/
def level : Event → Level
  | encoding .. => .trace
  | _ => .debug

/-- The wording of a report. -/
def message : Event → String
  | stabilized constants slots =>
    "Stabilized constant pool with " ++ toString constants ++ " entries (" ++ toString slots ++
      " slots)"
  | optimized constants slots =>
    "Optimized constant pool with " ++ toString constants ++ " entries (" ++ toString slots ++
      " slots)"
  | sealed size => "Sealed constant pool at size " ++ toString size
  | encoding start opcode operand =>
    Text.alignRight 5 (toString start) ++ ": " ++ opcode.mnemonic ++ " " ++ operand.describe
  | assembled instructions bytes widened handlers =>
    "Assembled " ++ toString instructions ++ " instructions into " ++ toString bytes ++
      " bytes (" ++ toString widened ++ " jumps widened, " ++ toString handlers ++ " handlers)"
  | prepared name constants fields methods =>
    "Prepared class " ++ name.text ++ " with " ++ toString constants ++ " constants, " ++
      toString fields ++ " fields, and " ++ toString methods ++ " methods"
  | registered name bytes => "Registered " ++ name.text ++ " (" ++ toString bytes ++ " bytes)"

/-- The line of a report. -/
def line (event : Event) : String :=
  match event.level with
  | .debug => "DEBUG " ++ event.message
  | .trace => "TRACE " ++ event.message

/-- The report shows up at a level of detail. -/
def shownAt (event : Event) : Level → Bool
  | .trace => true
  | .debug => event.level = .debug

end Event

namespace Pool

/-- What an edit of a pool reports. -/
def events (pool : Pool) : Edit → List Event
  | .add _ => []
  | .stabilize => if pool.state = .growing then [.stabilized pool.length pool.nextSlot] else []
  | .optimize => if pool.state = .growing then [.optimized pool.length pool.nextSlot] else []
  | .close => if pool.state = .stable then [.sealed pool.nextSlot] else []

end Pool

namespace Code

/-- The reports on single instructions, the first that cannot be encoded included. -/
def encodingEvents (code : Code) (layout : Layout) : List Event :=
  let rows := (code.instructions.toList.zip layout.instructions).zipIdx
  let good := (rows.takeWhile fun ((_, instruction), position) =>
    (layout.encodeAt position instruction).isOk).length
  (rows.take (good + 1)).map fun ((source, instruction), position) =>
    .encoding (layout.start position) instruction.opcode source.operand

/-- How many jumps took their wide form. -/
def widenedCount (code : Code) (layout : Layout) : Nat :=
  (code.instructions.toList.zip layout.instructions).countP fun (source, instruction) =>
    source.opcode.widened? == some instruction.opcode

/-- What assembling code reports. -/
def assemblyEvents (code : Code) (pool : Pool) : List Event :=
  match code.layout pool with
  | .error _ => []
  | .ok layout =>
    code.encodingEvents layout ++
      match code.assemble pool with
      | .error _ => []
      | .ok payload =>
        [.assembled code.length payload.code.bytes.length (code.widenedCount layout)
          payload.exceptionTable.length]

end Code

namespace Method

/-- What finalizing a method reports. -/
def finalizeEvents (method : Method) (pool : Pool) : List Event :=
  match method.finalized, method.code with
  | false, some code => code.assemblyEvents pool
  | _, _ => []

/-- What finalizing methods in order reports, up to the first that fails. -/
def finalizeAllEvents : List Method → Pool → List Event
  | [], _ => []
  | method :: methods, pool =>
    method.finalizeEvents pool ++
      match finalize (method, pool) with
      | .error .. => []
      | .ok _ (_, pool) => finalizeAllEvents methods pool

end Method

namespace Class

/-- What preparing a class reports. -/
def prepareEvents (cls : Class) : List Event :=
  match (do internNames; recordSource : Action Unit) cls with
  | .error .. => []
  | .ok _ named =>
    named.pool.events .stabilize ++
      Method.finalizeAllEvents named.methods.toList named.pool.stabilize ++
        match prepare cls with
        | .error .. => []
        | .ok _ ready =>
          [.sealed ready.pool.nextSlot,
            .prepared ready.name ready.pool.length ready.fields.size ready.methods.size]

/-- What writing a class reports. -/
def serializeEvents (cls : Class) : List Event :=
  if cls.prepared then [] else cls.prepareEvents

/-- What an edit of a class reports. -/
def events (cls : Class) : Edit → List Event
  | .pool edit => cls.pool.events edit
  | .serialize _ => cls.serializeEvents
  | _ => []

end Class

namespace Registry

/-- What adding a class to a registry reports. -/
def addEvents (cls : Class) : List Event :=
  cls.serializeEvents ++
    match cls.toBytes with
    | .error .. => []
    | .ok bytes _ => [.registered cls.name bytes.length]

end Registry

end JvmAsm
