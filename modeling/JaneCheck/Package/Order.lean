import JaneCheck.Diagnostic
import JaneCheck.Package

/-!
# Order of structs

A struct stores its fields inline, so it comes after the structs that it
contains. A depth-first visit puts each struct behind those; meeting a struct
again that is still being visited is a cycle, which is reported there. Generic
structs are visited and not listed.
-/

namespace JaneCheck.Package

/-- The structs that a type stores inline. -/
def contained : Ty → List StructId
  | .array t _ => contained t
  | .struct id _ _ => [id]
  | _ => []

/-- The structs that the fields of a struct store inline. -/
def fieldStructs (p : Package) (id : StructId) : List StructId :=
  (p.struct id).fields.flatMap fun f => contained f.type

inductive Mark where
  | new | active | done
  deriving DecidableEq, Repr

structure Visit where
  marks : Array Mark
  order : List StructId := []
  diags : List Diagnostic := []

namespace Visit

def setMark (v : Visit) (id : StructId) (m : Mark) : Visit := { v with marks := v.marks.set! id m }

/-- The struct after its visit. -/
def finish (p : Package) (v : Visit) (id : StructId) : Visit :=
  let v := v.setMark id .done
  if (p.struct id).isGeneric then v else { v with order := v.order ++ [id] }

def closeCycle (p : Package) (v : Visit) (id : StructId) : Visit :=
  let info := p.struct id
  { v with diags := v.diags ++ [⟨.cycle info.name, info.decl.name.span⟩] }

/-- Visits a struct after the structs that it contains. Active structs are
distinct, so the visit is never deeper than their number. -/
def visit (p : Package) : Nat → Visit → StructId → Visit
  | 0, v, _ => v
  | n + 1, v, id =>
    match v.marks[id]? with
    | some .new => ((p.fieldStructs id).foldl (visit p n) (v.setMark id .active)).finish p id
    | some .active => v.closeCycle p id
    | _ => v

end Visit

/-- The non-generic structs, each after those that it contains, with the cycles
found. -/
def orderStructs (p : Package) : List StructId × List Diagnostic :=
  let n := p.structs.size
  let v := (List.range n).foldl (Visit.visit p (n + 1)) { marks := Array.replicate n .new }
  (v.order, v.diags)

end JaneCheck.Package
