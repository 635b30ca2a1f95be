import JaneCheck.Command

/-!
# The program

Reads the files of a command and prints what the command leaves.
-/

namespace JaneCheck.Command

/-- Why a file could not be read. -/
def readFailure : IO.Error → String
  | .noFileOrDirectory .. => "No such file or directory (os error 2)"
  | e => toString e

/-- The contents of the files that a command names. -/
def readFiles (paths : List String) : IO (List (String × Except String String)) :=
  paths.mapM fun (path : String) => do
    match ← (IO.FS.readFile path).toBaseIO with
    | .ok text => return (path, .ok text)
    | .error e => return (path, .error (readFailure e))

/-- The files that a command needs. -/
def paths : Command → List String
  | .version => []
  | .check paths _ _ => paths

end JaneCheck.Command

open JaneCheck

def main (args : List String) : IO UInt32 := do
  match Command.ofWords? args with
  | none =>
    IO.eprintln "Usage: janec check <FILES>... | janec version"
    return 2
  | some command =>
    let files ← Command.readFiles command.paths
    let read (path : String) := (files.lookup path).getD (.error "not read")
    let result := command.run read
    IO.print result.stdout
    IO.eprint result.stderr
    return result.code.toUInt32
