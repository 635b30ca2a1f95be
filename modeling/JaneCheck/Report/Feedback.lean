import JaneCheck.Report
import JaneCheck.Text.Json

/-!
# Feedback for programs

A report as a JSON value: every problem with its position, the instances, and
counts.
-/

namespace JaneCheck.Report

open Text (Json)

/-- A problem at a position. -/
structure Entry where
  path : String
  row : Nat
  column : Nat
  severity : Severity
  key : String
  message : String

namespace Entry

def ofDiagnostic (f : FileReport) (d : Diagnostic) : Entry :=
  let (row, column) := f.lines.position d.span.start
  ⟨f.path, row, column, d.problem.severity, d.problem.key, d.problem.message⟩

def ofFatal (f : FileReport) (e : SyntaxError) : Entry :=
  let (row, column) := f.lines.position e.span.start
  ⟨f.path, row, column, .error, "syntax_error", e.message⟩

def json (e : Entry) : Json :=
  .object [("path", .text e.path), ("row", .nat e.row), ("column", .nat e.column),
    ("severity", .text e.severity.name), ("key", .text e.key), ("message", .text e.message)]

end Entry

def fatalEntries (f : FileReport) : List Entry := (f.fatal.map (Entry.ofFatal f)).toList

def entries (f : FileReport) : List Entry := f.diags.map (.ofDiagnostic f)

def fatalJson (f : FileReport) : Json :=
  match f.fatal with
  | some e => (Entry.ofFatal f e).json
  | none => .null

def fileJson (f : FileReport) : Json :=
  .object [("path", .text f.path), ("fatal", fatalJson f),
    ("diagnostics", .array ((entries f).map Entry.json))]

/-- A type is written as its kind. -/
def typesJson (ts : List Ty) : Json := .array (ts.map fun t => .text t.kind)

def instanceJson (i : StructInstance) : Json :=
  .object [("name", .text i.name), ("generics", typesJson i.generics),
    ("fields", .array (i.fields.map fun (name, t) => .array [.text name, .text t.kind]))]

/-- How many problems of a severity the files have. -/
def count (r : Report) (s : Severity) : Nat :=
  (r.files.flatMap fun f => fatalEntries f ++ entries f).countP (·.severity = s)

def statsJson (r : Report) : Json :=
  .object [("file_count", .nat r.files.length), ("error_count", .nat (r.count .error)),
    ("info_count", .nat (r.count .info)), ("instance_count", .nat r.instances.length)]

/-- The whole feedback. -/
def json (r : Report) : Json :=
  .object [("success", .bool (r.count .error == 0)),
    ("files", .array (r.files.map fileJson)),
    ("combines", .object (r.combinations.map fun (name, list) =>
      (name, .array (list.map typesJson)))),
    ("struct_order", .array (r.structOrder.map .text)),
    ("instances", .array (r.instances.map instanceJson)),
    ("stats", statsJson r)]

end JaneCheck.Report
