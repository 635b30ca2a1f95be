import JaneCheck.Package.Phases

/-!
# Instances

Every combination of a template and type arguments that is asked for is checked
once. Checking one may ask for more, which are one level deeper; the levels are
bounded, and what is asked for beyond the last is reported.
-/

namespace JaneCheck

/-- The layout of a generic struct under type arguments. -/
structure StructInstance where
  id : StructId
  name : String
  generics : List Ty
  fields : List (String × Ty)

/-- The combinations on record, in the order of discovery. -/
structure Ledger where
  entries : List (Template × List Ty) := []

namespace Ledger

/-- The combinations of a template. -/
def combinations (l : Ledger) (t : Template) : Combinations :=
  ⟨(l.entries.filter (·.1 == t)).map (·.2)⟩

def contains (l : Ledger) (t : Template) (types : List Ty) : Bool :=
  (l.combinations t).contains types

def insert (l : Ledger) (t : Template) (types : List Ty) : Ledger := ⟨l.entries ++ [(t, types)]⟩

end Ledger

namespace Package

/-- What the check of one combination gives; a function has no fields to lay out. -/
structure Checked where
  layout : List (String × Ty) := []
  findings : Findings

/-- The name under which a template is reported. -/
def templateName (p : Package) : Template → String
  | .func id => p.qualifiedName (p.func id)
  | .struct id => (p.struct id).name

/-- Checks an instance of a function. Those of methods of a generic struct are
checked with the struct. -/
def checkFuncInstance (id : FuncId) (types : List Ty) : Check Unit := do
  let p ← Check.package
  if p.ownerIsGeneric (p.func id) then return
  Check.checkBody id [] types

/-- Checks an instance of a struct: its defaults and the bodies of its methods,
in the order of their declaration. -/
def checkStructInstance (id : StructId) (types : List Ty) : Check (List (String × Ty)) := do
  let p ← Check.package
  let layout ← Check.checkStruct id types
  (p.struct id).methods.reverse.forM fun (_, method) =>
    if (p.func method).isGeneric then pure () else Check.checkBody method types []
  return layout

/-- Checks one combination from a fresh state. -/
def checkInstance (setup : Setup) (p : Package) (t : Template) (types : List Ty) :
    Option Checked := do
  match t with
  | .func id =>
    let (_, findings) ← p.find setup {} (checkFuncInstance id types)
    return { findings }
  | .struct id =>
    let (layout, findings) ← p.find setup {} (checkStructInstance id types)
    return { layout, findings }

/-- How far the instances have come. `requests` of the findings are those of the
next level. -/
structure Instances where
  ledger : Ledger := {}
  layouts : Array StructInstance := #[]
  findings : Findings := {}

namespace Instances

/-- Enters a combination and what its check gave; structs enter with their layout. -/
def enter (p : Package) (i : Instances) (r : Request) (c : Checked) : Instances :=
  { ledger := i.ledger.insert r.template r.types
    layouts := match r.template with
      | .struct id => i.layouts.push ⟨id, p.templateName r.template, r.types, c.layout⟩
      | .func _ => i.layouts
    findings := i.findings ++ c.findings }

/-- Reports a request beyond the last level. -/
def refuse (p : Package) (i : Instances) (r : Request) : Instances :=
  let problem := Problem.instantiationLimit (p.templateName r.template)
  { i with findings := { i.findings with diags := i.findings.diags.push ⟨problem, r.span⟩ } }

/-- Serves a request: a combination on record needs nothing. -/
def serve (p : Package) (check : Template → List Ty → Option Checked) (last : Bool)
    (i : Instances) (r : Request) : Option Instances := do
  if i.ledger.contains r.template r.types then return i
  else if last then return i.refuse p r
  else return i.enter p r (← check r.template r.types)

/-- Serves the requests of a level; those of the next are left in the findings. -/
def serveLevel (p : Package) (check : Template → List Ty → Option Checked) (last : Bool)
    (i : Instances) : Option Instances :=
  i.findings.requests.toList.foldlM (serve p check last)
    { i with findings := { i.findings with requests := #[] } }

/-- Serves level after level; none is checked below the given number. -/
def serveLevels (p : Package) (check : Template → List Ty → Option Checked) :
    Nat → Instances → Option Instances
  | 0, i => serveLevel p check true i
  | n + 1, i => do
    if i.findings.requests.isEmpty then return i
    serveLevels p check n (← serveLevel p check false i)

end Instances

/-- Checks every combination that the findings ask for. -/
def instantiate (setup : Setup) (p : Package) (found : Findings) : Option Instances :=
  Instances.serveLevels p (p.checkInstance setup) setup.options.maxDepth { findings := found }

end Package

end JaneCheck
