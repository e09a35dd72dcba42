import JvmAsm.CommandLine

/-! # The program

Reads the command line and carries out its plan on the files of the machine. -/

namespace JvmAsm

/-- What is said about the options. -/
def usage : String :=
  "Usage: counter [--output-dir DIRECTORY] [--class CLASS_NAME] [--limit COUNT] " ++
    "[--source-file FILE_NAME] [--optimize-pool]"

/-- Writes a file and the directories it needs. -/
def writeFile (path : String) (bytes : Bytes) : IO Unit := do
  let directory := "/".intercalate ((path.splitOn "/").dropLast)
  if directory != "" then
    IO.FS.createDirAll directory
  IO.FS.writeBinFile path (ByteArray.mk bytes.toArray)

end JvmAsm

open JvmAsm in
/-- Runs the program. -/
def main (arguments : List String) : IO UInt32 := do
  match CommandLine.plan arguments with
  | .help => IO.println usage; return 0
  | .version => IO.println "0.1.0"; return 0
  | .misuse => IO.eprintln usage; return 2
  | .fail e => IO.eprint (CommandLine.complaint e); return 1
  | .store path bytes =>
    try
      writeFile path bytes
      return 0
    catch cause =>
      IO.eprintln ("Error: " ++ toString cause)
      return 1
