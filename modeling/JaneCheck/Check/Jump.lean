import JaneCheck.Check.Monad

/-!
# Jumps

`break`, `continue` and `fallthrough` need a suitable statement around them. A
`goto` needs its label in the same function, and may not skip a declaration
that is in force at the label.
-/

namespace JaneCheck

open Check (Place)

namespace Scopes

/-- The position in each block around a place, from the innermost outward. -/
def path (s : Scopes) (b : BlockId) (index : Nat) : List Place :=
  match s.blocks[b]? with
  | some ⟨some p, i, _, _, _, _⟩ => if p < b then ⟨b, index⟩ :: s.path p i else [⟨b, index⟩]
  | _ => [⟨b, index⟩]
termination_by b

/-- The position of a place in one of the blocks around it. -/
def positionIn (s : Scopes) (at_ : Place) (ancestor : BlockId) : Nat :=
  (((s.path at_.block at_.index).find? (·.block == ancestor)).map (·.index)).getD 0

/-- Some declaring statement of a block satisfies a condition. -/
def declares (s : Scopes) (b : BlockId) (p : Nat → Bool) : Bool := s.blocks[b]?.any (·.decls.any p)

/-- A jump skips a declaration when one stands between the two positions in the
innermost common block, or before the label in a block that the jump enters. -/
def jumpsDeclarations (s : Scopes) (source label : Place) : Bool :=
  match (s.ancestors label.block).find? (s.isAncestor · source.block) with
  | none => false
  | some common =>
    let start := s.positionIn source common
    let stop := s.positionIn label common
    let entered := (s.path label.block label.index).takeWhile (·.block != common)
    s.declares common (fun d => start < d && d < stop) ||
      entered.any fun place => s.declares place.block (· < place.index)

end Scopes

namespace Check

open Syntax (Ident)

def place? : Check (Option Place) := do
  let c ← context
  return c.block.map (⟨·, c.index⟩)

/-- Records a label of the function; a second one of the name is reported. -/
def checkLabel (name : Ident) (span : Span) : Check Unit := do
  if let some place ← place? then
    if (← state).labels.any (·.name == name.name) then report (.labelTaken name.name) span
    else update fun s => { s with labels := s.labels ++ [{ name := name.name, place, span }] }

/-- Records a `goto`, which is checked when all labels are known. -/
def checkGoto (label : Ident) (span : Span) : Check Unit := do
  if let some place ← place? then
    update fun s => { s with gotos := s.gotos ++ [⟨label.name, place, span⟩] }

def findLabel? (name : String) : Check (Option Label) := do
  return (← state).labels.find? (·.name == name)

def useLabel (name : String) : Check Unit :=
  update fun s => { s with
    labels := s.labels.map fun l => if l.name == name then { l with used := true } else l }

def resolveGoto (g : Goto) : Check Unit := do
  match ← findLabel? g.label with
  | none => report (.unknownLabel g.label) g.span
  | some label =>
    useLabel g.label
    if (← state).scopes.jumpsDeclarations g.place label.place then
      report (.gotoSkipsDeclaration g.label) g.span

/-- Checks every `goto` of the function, then reports labels that nothing uses. -/
def checkGotos : Check Unit := do
  (← state).gotos.forM resolveGoto
  if (← options).reportUnused then
    ((← state).labels.filter (!·.used)).forM fun l => report (.unused (l.name ++ ":")) l.span
  update fun s => { s with gotos := [] }

/-- Checks a `break` or, when only loops will do, a `continue`. -/
def checkJump (label : Option Ident) (loopsOnly : Bool) (outside : Problem) (span : Span) :
    Check Unit := do
  let breakables := (← context).func.breakables
  let valid (b : Breakable) := !loopsOnly || b.isLoop
  match label with
  | none => if !breakables.any valid then report outside span
  | some label =>
    let exists_ := (← findLabel? label.name).isSome
    useLabel label.name
    match breakables.find? (·.label == some label.name) with
    | some b => if !valid b then report .invalidLabel label.span
    | none => report (if exists_ then .invalidLabel else .unknownLabel label.name) label.span

def checkBreak (label : Option Ident) (span : Span) : Check Unit :=
  checkJump label false .breakOutside span

def checkContinue (label : Option Ident) (span : Span) : Check Unit :=
  checkJump label true .continueOutside span

/-- A `fallthrough` ends a case and is not in the last one. -/
def checkFallthrough (span : Span) : Check Unit := do
  let c ← context
  match c.func.case with
  | some case =>
    if c.block == some case.block && c.index + 1 == case.size then
      if case.isFinal then report .fallthroughInLastCase span
    else report .fallthroughMisplaced span
  | none => report .fallthroughMisplaced span

end Check

end JaneCheck
