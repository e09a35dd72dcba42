import JvmAsm.Class.Saving

/-! # Finished classes by name

A registry keeps the bytes of classes, sorted by name. A class under a name that is
present takes the place of the earlier one; a class that cannot be written leaves
the registry as it was. -/

namespace JvmAsm

/-- Class files by name, in ascending order of names. -/
structure Registry where
  classes : List (BinaryName × Bytes)
  deriving DecidableEq

namespace Registry

/-- No classes. -/
def empty : Registry := ⟨[]⟩

/-- Puts bytes under a name, in order. -/
def put (name : BinaryName) (bytes : Bytes) :
    List (BinaryName × Bytes) → List (BinaryName × Bytes)
  | [] => [(name, bytes)]
  | (other, old) :: rest =>
    match compare name other with
    | .lt => (name, bytes) :: (other, old) :: rest
    | .eq => (name, bytes) :: rest
    | .gt => (other, old) :: put name bytes rest

/-- Writes a class and keeps its bytes. -/
def add : Attempt Error (Registry × Class) Unit := fun (registry, cls) =>
  match cls.toBytes with
  | .error e cls => .error e (registry, cls)
  | .ok bytes cls => .ok () (⟨put cls.name bytes registry.classes⟩, cls)

/-- The bytes of a class. -/
def resolve (registry : Registry) (name : BinaryName) : Option Bytes :=
  (registry.classes.find? fun (other, _) => other == name).map Prod.snd

/-- Number of classes. -/
def size (registry : Registry) : Nat := registry.classes.length

/-- The names of the classes. -/
def names (registry : Registry) : List BinaryName := registry.classes.map Prod.fst

/-- Stores every class below a directory, in order and up to the first that cannot
be stored, and answers the paths. -/
def saveAll (registry : Registry) (directory : String) :
    Attempt Error FileTree (List String) :=
  registry.classes.mapM fun (name, bytes) => fun tree =>
    let path := name.pathIn directory
    match tree.store path bytes true with
    | .ok _ tree => .ok path tree
    | .error cause tree => .error (.storage cause) tree

end Registry

end JvmAsm
