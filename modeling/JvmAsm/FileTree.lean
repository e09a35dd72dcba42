import JvmAsm.Attempt
import JvmAsm.Bytes
import JvmAsm.Error
import JvmAsm.Path

/-! # Trees of files

Where class files are stored: a tree of directories seen from one of them, the
working directory. A place is the route to it from there. Routes may climb above
the working directory, where only directories are known, and an absolute route
starts anew.

Storing a file follows its path name by name. Each name but the last has to be a
directory; with `parents` set, directories that do not exist are made on the way,
and they stay even if the file itself cannot be stored. -/

namespace JvmAsm

/-- The names on the way to a place. -/
abbrev Route := List String

/-- The longest name of a file or directory, in bytes. -/
def maxNameBytes : Nat := 255

/-- The longest path, in bytes. -/
def maxPathBytes : Nat := 4095

/-- Directories and files below the working directory. -/
structure FileTree where
  directories : List Route
  files : List (Route × Bytes)
  deriving DecidableEq, Repr

namespace FileTree

/-- An empty working directory. -/
def empty : FileTree := ⟨[], []⟩

/-- The places a path passes on the way to its last name: the parts between slashes,
without those that stay where they are. -/
def parts (path : String) : List String :=
  (Path.names path).filter fun part => part != "" && part != "."

/-- The path ends in a way that only a directory can have. -/
def endsAsDirectory (path : String) : Bool :=
  let last := (Path.names path).getLastD ""
  last == "" || last == "." || last == ".."

/-- Where a path starts. -/
def origin (path : String) : Route := if Path.isAbsolute path then ["/"] else []

/-- The working directory and everything above it. -/
def isAbove (route : Route) : Bool := route.all fun name => name == ".." || name == "/"

/-- A place holds a directory. -/
def isDirectory (tree : FileTree) (route : Route) : Bool :=
  isAbove route || tree.directories.contains route

/-- A place holds a file. -/
def isFile (tree : FileTree) (route : Route) : Bool :=
  tree.files.any fun (place, _) => place == route

/-- One name further, or one up. -/
def step (route : Route) (name : String) : Route :=
  if name != ".." then route ++ [name]
  else if isAbove route then (if route.contains "/" then route else route ++ [".."])
  else route.dropLast

/-- Enters a directory; a missing one is made if `parents` is set. -/
def enter (parents : Bool) (route : Route) (name : String) :
    Attempt StorageError FileTree Route := fun tree =>
  let next := step route name
  if maxNameBytes < name.utf8ByteSize then
    .error .nameTooLong tree
  else if tree.isDirectory next then
    .ok next tree
  else if tree.isFile next then
    .error .notADirectory tree
  else if parents then
    .ok next { tree with directories := next :: tree.directories }
  else
    .error .notFound tree

/-- Writes a file in a directory, over one that is there. -/
def write (directory : Route) (name : String) (bytes : Bytes) :
    Attempt StorageError FileTree Unit := fun tree =>
  let place := step directory name
  if maxNameBytes < name.utf8ByteSize then
    .error .nameTooLong tree
  else if tree.isDirectory place then
    .error .isADirectory tree
  else
    .ok () { tree with
      files := (place, bytes) :: tree.files.filter fun (other, _) => other != place }

/-- Stores a file under a path. -/
def store (path : String) (bytes : Bytes) (parents : Bool) :
    Attempt StorageError FileTree Unit := do
  if path.toList.contains '\x00' then
    Attempt.fail .nulInPath
  else if maxPathBytes < path.utf8ByteSize then
    Attempt.fail .nameTooLong
  else
    let names := parts path
    let directory ← names.dropLast.foldlM (enter parents) (origin path)
    if endsAsDirectory path then
      Attempt.fail .isADirectory
    else
      write directory (names.getLastD "") bytes

/-- The files below the working directory by path, in ascending order of paths. -/
def listing (tree : FileTree) : List (String × Bytes) :=
  let below := tree.files.filter fun (route, _) =>
    match route with
    | first :: _ => first != ".." && first != "/"
    | [] => false
  (below.map fun (route, bytes) => ("/".intercalate route, bytes)).mergeSort
    fun a b => decide (a.1 ≤ b.1)

end FileTree

end JvmAsm
