import JaneCheck.Report.Feedback

/-!
# The command line

`check FILES` checks the files as one package and `version` names the program.
A command is a function of what the files hold, so only reading them and
printing are left to do.
-/

namespace JaneCheck

inductive Command where
  | version
  | check (paths : List String) (json : Bool) (options : Options)

/-- What a run of the program leaves. -/
structure Outcome where
  code : Nat
  stdout : String := ""
  stderr : String := ""

namespace Command

/-- The words after `check` so far. -/
structure Words where
  paths : List String := []
  json : Bool := false
  options : Options := {}

def setWordSize (w : Words) (value : String) : Option Words :=
  if value == "32" then some { w with options := { w.options with wordSize := .w32 } }
  else if value == "64" then some { w with options := { w.options with wordSize := .w64 } }
  else none

def setMaxDepth (w : Words) (value : String) : Option Words :=
  if value.isEmpty || !value.all Char.isDigit then none
  else value.toNat?.map fun n => { w with options := { w.options with maxDepth := n } }

/-- Reads the words after `check`; options may stand anywhere. -/
def readWords : List String → Words → Option Words
  | [], w => some w
  | "--json" :: rest, w => readWords rest { w with json := true }
  | "--no-unused" :: rest, w =>
    readWords rest { w with options := { w.options with reportUnused := false } }
  | "--word-size" :: value :: rest, w => do readWords rest (← setWordSize w value)
  | "--max-depth" :: value :: rest, w => do readWords rest (← setMaxDepth w value)
  | word :: rest, w =>
    if word.startsWith "--" then none else readWords rest { w with paths := w.paths ++ [word] }

/-- The command that the words of a command line give. -/
def ofWords? : List String → Option Command
  | ["version"] => some .version
  | "check" :: rest => do
    let w ← readWords rest {}
    if w.paths.isEmpty then none else some (.check w.paths w.json w.options)
  | _ => none

def unlines (lines : List String) : String := String.join (lines.map (· ++ "\n"))

/-- Reads the files in order; the first that cannot be read decides. -/
def readSources (read : String → Except String String) : List String → Except String (List Source)
  | [] => .ok []
  | path :: paths =>
    match read path with
    | .error reason => .error ("failed to read " ++ path ++ ": " ++ reason)
    | .ok text => do return ⟨path, text⟩ :: (← readSources read paths)

/-- The code of a report: 0 without errors, 1 with errors, 2 when a file cannot be
parsed. -/
def exitCode (r : Report) : Nat :=
  if r.files.any (·.fatal.isSome) then 2 else if r.hasErrors then 1 else 0

def outcome (json : Bool) (r : Report) : Outcome :=
  { code := exitCode r
    stdout := if json then r.json.pretty ++ "\n" else unlines r.render }

def failed (message : String) : Outcome := { code := 2, stderr := "Error: " ++ message ++ "\n" }

/-- Runs a command, given how to read a file. -/
def run (read : String → Except String String) : Command → Outcome
  | .version => { code := 0, stdout := "janec 0.1.0\nJane semantic checker\n" }
  | .check paths json options =>
    match readSources read paths with
    | .error message => failed message
    | .ok sources =>
      match Report.check options sources with
      | some r => outcome json r
      | none => failed "definitions nest without end"

end Command

end JaneCheck
