import JvmAsm.Counter
import JvmAsm.FileTree

/-! # The command line

The program writes the counting class below a directory. Options are long, take
their value after an equals sign or as the next argument, and may be given once
each. A value that is the next argument cannot look like an option. Arguments are
looked at from left to right, and the first that is wrong, or asks for help or the
version, decides.

A list of arguments makes a `Plan`: everything but storing the file is settled by
then. `run` carries a plan out on a tree of files. -/

namespace JvmAsm.CommandLine

/-- The options that take a value. -/
inductive Key where
  | outputDir
  | className
  | limit
  | sourceFile
  deriving DecidableEq, Repr

/-- What the options were given as. -/
structure Options where
  outputDir : Option String := none
  className : Option String := none
  limit : Option Int32 := none
  sourceFile : Option String := none
  optimizePool : Bool := false
  deriving DecidableEq

/-- How the arguments were understood. -/
inductive Request where
  | generate (options : Options)
  | help
  | version
  | misuse
  deriving DecidableEq

/-- The option of a name. -/
def key? : String → Option Key
  | "output-dir" => some .outputDir
  | "class" => some .className
  | "limit" => some .limit
  | "source-file" => some .sourceFile
  | _ => none

/-- A decimal number with an optional sign. -/
def parseInt (text : String) : Option Int :=
  let digits (chars : List Char) : Option Int :=
    if chars.isEmpty || !chars.all Char.isDigit then none
    else some (Int.ofNat (chars.foldl (fun value c => 10 * value + (c.toNat - '0'.toNat)) 0))
  match text.toList with
  | '+' :: rest => digits rest
  | '-' :: rest => (digits rest).map (- ·)
  | chars => digits chars

/-- A number that fits 32 bits. -/
def parseInt32 (text : String) : Option Int32 :=
  match parseInt text with
  | some value =>
    if -0x80000000 ≤ value ∧ value < 0x80000000 then some (Int32.ofInt value) else none
  | none => none

/-- Sets an option that was not set before. -/
def Options.set (options : Options) (key : Key) (value : String) : Option Options :=
  match key with
  | .outputDir =>
    if options.outputDir.isSome then none else some { options with outputDir := value }
  | .className =>
    if options.className.isSome then none else some { options with className := value }
  | .sourceFile =>
    if options.sourceFile.isSome then none else some { options with sourceFile := value }
  | .limit =>
    if options.limit.isSome then none
    else (parseInt32 value).map fun limit => { options with limit := some limit }

/-- A long option's name, and its value if an equals sign attaches one. -/
def splitLong (text : List Char) : String × Option String :=
  let name := text.takeWhile (· != '=')
  match text.drop name.length with
  | _ :: value => (String.ofList name, some (String.ofList value))
  | [] => (String.ofList name, none)

/-- The argument can be the value of the option before it. -/
def isValue (argument : String) : Bool :=
  match argument.toList with
  | '-' :: _ :: _ => false
  | _ => true

/-- Reads the arguments. -/
def read (options : Options) : List String → Request
  | [] => .generate options
  | argument :: rest =>
    match argument.toList with
    | ['-', '-'] => if rest.isEmpty then .generate options else .misuse
    | '-' :: '-' :: text =>
      match splitLong text with
      | ("help", none) => .help
      | ("version", none) => .version
      | ("optimize-pool", none) =>
        if options.optimizePool then .misuse else read { options with optimizePool := true } rest
      | (name, attached) =>
        match key? name, attached, rest with
        | some key, some value, rest =>
          match options.set key value with
          | some options => read options rest
          | none => .misuse
        | some key, none, value :: rest =>
          if isValue value then
            match options.set key value with
            | some options => read options rest
            | none => .misuse
          else
            .misuse
        | _, _, _ => .misuse
    | '-' :: 'h' :: _ => .help
    | '-' :: 'V' :: _ => .version
    | _ => .misuse

/-- The class the options ask for, before it is written. -/
def generate (options : Options) : Except Error Class := do
  let name ← match BinaryName.ofDotted (options.className.getD "Counter") with
    | .ok name => .ok name
    | .error cause => .error (.invalidName cause)
  let cls ← Counter.counterClass name (options.limit.getD 10)
  let cls := { cls with sourceFile := options.sourceFile }
  if options.optimizePool then
    match Class.onPool Pool.optimize cls with
    | .ok _ cls => .ok cls
    | .error e _ => .error e
  else
    .ok cls

/-- What is left to do once the arguments are read and the class is made. -/
inductive Plan where
  | help
  | version
  | misuse
  | fail (error : Error)
  /-- Storing the class file, with the directories it needs. -/
  | store (path : String) (bytes : Bytes)
  deriving DecidableEq

/-- The plan for a list of arguments. -/
def plan (arguments : List String) : Plan :=
  match read {} arguments with
  | .help => .help
  | .version => .version
  | .misuse => .misuse
  | .generate options =>
    match generate options with
    | .error e => .fail e
    | .ok cls =>
      match cls.toBytes with
      | .error e _ => .fail e
      | .ok bytes cls => .store (cls.name.pathIn (options.outputDir.getD ".")) bytes

/-- How a run of the program ends. -/
structure Outcome where
  exitCode : Nat
  /-- The program's own failure, if that ended it. -/
  failure : Option Error
  deriving DecidableEq

/-- What the program says about a failure. -/
def complaint (error : Error) : String := "Error: " ++ error.describe ++ "\n"

/-- Runs the program on a tree of files. -/
def run (arguments : List String) (tree : FileTree) : Outcome × FileTree :=
  match plan arguments with
  | .help | .version => (⟨0, none⟩, tree)
  | .misuse => (⟨2, none⟩, tree)
  | .fail e => (⟨1, some e⟩, tree)
  | .store path bytes =>
    match tree.store path bytes true with
    | .ok _ tree => (⟨0, none⟩, tree)
    | .error cause tree => (⟨1, some (.storage cause)⟩, tree)

end JvmAsm.CommandLine
