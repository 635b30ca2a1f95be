import JaneCheck.Package.Collect
import JaneCheck.Package.Instances
import JaneCheck.Package.Order
import JaneCheck.Package.Traits
import JaneCheck.Syntax.Item

/-!
# Reports

The check of a package: its files are parsed, their declarations collected, the
phases run, and all that was found is sorted by file and place. A file that
cannot be parsed counts as empty.
-/

namespace JaneCheck

/-- A source file. -/
structure Source where
  path : String
  text : String

structure FileReport where
  path : String
  lines : Lines
  /-- What kept the file out of the check. -/
  fatal : Option SyntaxError
  diags : List Diagnostic
  typings : List Typing

namespace FileReport

def hasErrors (f : FileReport) : Bool := f.fatal.isSome || f.diags.any (·.isError)

/-- A line for each problem. -/
def render (f : FileReport) : List String :=
  (f.fatal.map fun e => positioned f.path f.lines e.span.start e.message).toList ++
    f.diags.map fun d => positioned f.path f.lines d.span.start d.problem.message

end FileReport

structure Report where
  files : List FileReport
  /-- The combinations of each template in the order of discovery, by name. -/
  combinations : List (String × List (List Ty))
  /-- The non-generic structs, each after those that it contains. -/
  structOrder : List String
  instances : List StructInstance

namespace Report

def hasErrors (r : Report) : Bool := r.files.any (·.hasErrors)

def render (r : Report) : List String := r.files.flatMap (·.render)

/-- Drops each element that equals the one kept before it. -/
def dropRepeats (same : α → α → Bool) : List α → List α
  | [] => []
  | a :: as => a :: go a as
where
  go (last : α) : List α → List α
    | [] => []
    | a :: as => if same last a then go last as else a :: go a as

def sameTyping (a b : Typing) : Bool :=
  a.span == b.span && a.type == b.type && a.constant == b.constant

/-- The diagnostics of a file in order, each once. -/
def diagsOf (file : Nat) (ds : List Diagnostic) : List Diagnostic :=
  dropRepeats (· == ·) ((ds.filter (·.span.file == file)).mergeSort Diagnostic.le)

/-- The typings of a file in order of their spans. -/
def typingsOf (file : Nat) (ts : List Typing) : List Typing :=
  dropRepeats sameTyping ((ts.filter (·.span.file == file)).mergeSort (·.span.le ·.span))

def parseAll (sources : List Source) : List (Except SyntaxError Syntax.Program) :=
  sources.zipIdx.map fun (s, file) => Syntax.parse file s.text

def fileReport (found : Findings) (source : Source) (file : Nat)
    (parsed : Except SyntaxError Syntax.Program) : FileReport where
  path := source.path
  lines := .ofText source.text
  fatal := match parsed with
    | .error e => some e
    | .ok _ => none
  diags := diagsOf file found.diags.toList
  typings := typingsOf file found.typings.toList

/-- The templates of a package that may have combinations. -/
def templates (p : Package) : List Template :=
  (List.range p.funcs.size).map .func ++ (List.range p.structs.size).map .struct

/-- The combinations on record by the name of their template. -/
def combinationsOf (p : Package) (l : Ledger) : List (String × List (List Ty)) :=
  let named := (templates p).map fun t => (p.templateName t, (l.combinations t).list)
  (named.filter fun (_, list) => !list.isEmpty).mergeSort fun a b => !(b.1 < a.1)

/-- The declarations of a file; one that cannot be parsed has none. -/
def programOf : Except SyntaxError Syntax.Program → Syntax.Program
  | .ok p => p
  | .error _ => []

theorem merge_parsed (parsed : List (Except SyntaxError Syntax.Program)) :
    Package.merge (parsed.map (·.toOption)) = Package.collect (parsed.map programOf) := by
  rw [Package.merge_eq_collect, List.map_map]
  congr 2
  funext p
  cases p <;> rfl

/-- Checks the declarations of a package. -/
def checkCollected (setup : Package.Setup) (files : Nat) (c : Package.Collected) :
    Option (Package × List StructId × Package.Instances) := do
  let (p, aliases) ← c.package.resolveAliases setup
  let (p, enums) ← p.resolveEnums setup
  let (p, types) ← p.resolveTypes setup files
  let (p, globals) ← p.computeGlobals setup
  let (order, cycles) := p.orderStructs
  let bodies ← p.checkBodies setup files
  let found := Findings.ofDiags c.diags.toList ++ aliases ++ enums ++ types ++ globals ++
    .ofDiags p.traitProblems ++ .ofDiags cycles ++ bodies
  return (p, order, ← p.instantiate setup found)

/-- Levels of nesting for texts of the given total length. Nesting in the text
takes a level for each character at most, and templates start over. -/
def depthFor (length : Nat) : Nat := (length + 64) * (length + 64)

/-- The length of the text of a file; one that cannot be parsed counts as empty. -/
def parsedLength (source : Source) : Except SyntaxError Syntax.Program → Nat
  | .ok _ => source.text.length
  | .error _ => 0

/-- The setup for the texts of some files. -/
def setupFor (options : Options) (files : List (Source × Except SyntaxError Syntax.Program)) :
    Package.Setup :=
  let lengths := files.map fun (source, parsed) => parsedLength source parsed
  ⟨options, depthFor (lengths.foldl (· + ·) 0)⟩

/-- Checks a package. There is no report when its definitions nest without end. -/
def check (options : Options) (sources : List Source) : Option Report := do
  let parsed := parseAll sources
  let setup := setupFor options (sources.zip parsed)
  let (p, order, instances) ←
    checkCollected setup sources.length (Package.merge (parsed.map (·.toOption)))
  return {
    files := (sources.zip parsed).zipIdx.map fun ((source, parsed), file) =>
      fileReport instances.findings source file parsed
    combinations := combinationsOf p instances.ledger
    structOrder := order.map fun id => (p.struct id).name
    instances := instances.layouts.toList }

end Report

end JaneCheck
