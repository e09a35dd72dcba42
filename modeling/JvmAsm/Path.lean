import JvmAsm.Name

/-! # Paths

A path is a text: names with slashes between them, seen from the working directory,
or from the root if the text starts with a slash. Nothing keeps such a text in
order: names may be missing between two slashes, and `.` and `..` are no names but
say where to stay and where to go up.

The path of a class file is put together by the general operations on paths, with no
regard to what they do in cases that a valid name excludes: an absolute name would
start anew, and a dot in a name would be taken for the start of its extension. -/

namespace JvmAsm

namespace Path

/-- The texts between the slashes, in order. -/
def names (path : String) : List String :=
  (BinaryName.segments path.toList).map String.ofList

/-- The path starts at the root. -/
def isAbsolute (path : String) : Bool := path.front? == some '/'

/-- A path seen from a directory; an absolute one is the same from everywhere. -/
def join (directory path : String) : String :=
  if isAbsolute path || directory == "" then path
  else if directory.back? == some '/' then directory ++ path
  else directory ++ "/" ++ path

/-- Each name seen from the one before it. -/
def ofNames (names : List String) : String := names.foldl join ""

/-- A name without its extension: what stands before its last dot, if anything does. -/
def stem (name : String) : String :=
  match name.toList.reverse.dropWhile (· != '.') with
  | _ :: last :: before => String.ofList (last :: before).reverse
  | _ => name

/-- The path with an extension on its last name, in place of the one it has. What
stands behind the last name and is none is left out; a path that ends by going up, or
has no name at all, stays as it is. -/
def withExtension (extension path : String) : String :=
  match (names path).reverse.dropWhile fun name => name == "" || name == "." with
  | [] => path
  | last :: before =>
    if last = ".." then path
    else "/".intercalate (before.reverse ++ [stem last ++ "." ++ extension])

end Path

namespace BinaryName

/-- The path of the class file inside a tree of packages. -/
def filePath (name : BinaryName) : String :=
  Path.withExtension "class" (Path.ofNames name.components)

/-- The path of the class file seen from a directory. -/
def pathIn (name : BinaryName) (directory : String) : String :=
  Path.join directory name.filePath

end BinaryName

end JvmAsm
