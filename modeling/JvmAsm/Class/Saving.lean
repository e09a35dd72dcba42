import JvmAsm.Class.Basic
import JvmAsm.FileTree

/-! # Saving classes

A class is written completely before its file is touched, so a failure never
leaves part of a class file behind. -/

namespace JvmAsm.Class

/-- Stores the class file under a path. -/
def saveTo (path : String) (parents : Bool) : Attempt Error (Class × FileTree) Unit :=
  fun (cls, tree) =>
    match toBytes cls with
    | .error e cls => .error e (cls, tree)
    | .ok bytes cls =>
      match tree.store path bytes parents with
      | .ok _ tree => .ok () (cls, tree)
      | .error cause tree => .error (.storage cause) (cls, tree)

/-- Stores the class file in a directory, below the directories of its package, and
answers its path. -/
def saveIn (directory : String) : Attempt Error (Class × FileTree) String := fun (cls, tree) =>
  let path := cls.name.pathIn directory
  (do saveTo path true; return path) (cls, tree)

end JvmAsm.Class
