import JaneCheck.Operator

/-!
# Assignability

Whether a value may be stored in a slot of a type. Methods and generic
functions are no values; a known number must lie in the range of a numeric
slot; all else is a matter of the types. Tuples are compared component by
component. `judge` records the problems and says whether the value fits; `check`
gives the problems as a list, which is empty in just this case (`tells_judge`).
-/

namespace JaneCheck

structure Assign extends Setting where
  ignoreAny : Bool := false
  allowAssign : Bool := true

namespace Assign

/-- Methods and generic functions cannot be stored. -/
def notStorable? (v : Value) : Option Problem :=
  if !v.type.isFunction then none
  else if v.isMethod then some .methodAsValue
  else if v.isGenericFn then some .genericFnAsValue
  else none

/-- A constant lies in the range of an integer category. -/
def fitsInteger (ws : WordSize) (target : Category) (c : Const) : Bool :=
  if target.isSigned then
    let min := target.leastSigned ws
    let max := target.greatestSigned ws
    match c with
    | .float v => isWhole v && v ≥ min.toFloat && v ≤ max.toFloat
    | .uint v => v ≤ max.toUInt64
    | .int v => v ≥ min && v ≤ max
    | .bool _ | .text _ => false
  else
    let max := target.greatestUnsigned ws
    match c with
    | .float v => v ≥ 0.0 && isWhole v && v ≤ max.toFloat
    | .uint v => v ≤ max
    | .int v => v ≥ 0 && v.toUInt64 ≤ max
    | .bool _ | .text _ => false

/-- A constant is finite and lies in the range of a float category. -/
def fitsFloat (target : Category) (c : Const) : Bool :=
  let v := c.toFloat
  let max := target.maxFloat
  v.isFinite && v ≥ -max && v ≤ max

/-- The range check, when it applies: both types are plain numbers. -/
def inRange? (ws : WordSize) (target : Ty) (v : Value) : Option Bool := do
  let c ← v.constant
  if !target.isPure || !v.type.isNumber then none
  else if target.category.isFloat then some (fitsFloat target.category c)
  else if target.category.isInteger then some (fitsInteger ws target.category c)
  else none

def mismatch (target given : Ty) : Problem := .incompatible target.kind given.kind

/-- The verdict on two types that are no tuples. -/
def compatProblems (k : Assign) (target given : Ty) : List Problem :=
  match Compat.check ⟨k.defs, k.wordSize, k.ignoreAny, k.allowAssign⟩ target given with
  | .compatible => []
  | .needsReference => [.traitNeedsReference target.kind]
  | .incompatible => [mismatch target given]

/-- The verdict on two types. The components of a tuple on the left number
`width`, and `parts` are the problems of its components. -/
def verdict (k : Assign) (target given : Ty) (width : Nat) (parts : List Problem) : List Problem :=
  if given.isVoid then [mismatch target given]
  else if !k.ignoreAny && target.isAny then []
  else if target.isTuple || given.isTuple then
    if target.isTuple && given.isTuple && width == given.components.length then parts
    else [mismatch target given]
  else k.compatProblems target given

mutual

/-- The problems of storing a value of type `given` in a slot of type `target`,
of which the second type is what is left after its pointers and references. -/
def coreProblems (k : Assign) (target : Ty) : Ty → Ty → List Problem
  | .pointer t, given | .reference t, given => coreProblems k target t given
  | .tuple ts, given =>
    k.verdict target given ts.length (componentProblems k ts given.components)
  | _, given => k.verdict target given 0 []

def componentProblems (k : Assign) : List Ty → List Ty → List Problem
  | t :: ts, g :: gs => coreProblems k t t g ++ componentProblems k ts gs
  | _, _ => []

end

def typeProblems (k : Assign) (target given : Ty) : List Problem :=
  coreProblems k target target given

/-- The problems of storing `v` in a slot of type `target`. -/
def check (k : Assign) (target : Ty) (v : Value) : List Problem :=
  match notStorable? v with
  | some p => [p]
  | none =>
    match inRange? k.wordSize target v with
    | some fits => if fits then [] else [.overflow]
    | none => k.typeProblems target v.type

/-! ## Recording -/

/-- Records a problem; the value is refused. -/
def refuse (span : Span) (p : Problem) : StateM (Array Diagnostic) Bool := do
  modify (·.push ⟨p, span⟩)
  return false

/-- Compares two types. `parts` compares the components of a tuple on the left,
which number `width`. -/
def judgeTypes (k : Assign) (span : Span) (target given : Ty) (width : Nat)
    (parts : StateM (Array Diagnostic) Bool) : StateM (Array Diagnostic) Bool :=
  if given.isVoid then refuse span (mismatch target given)
  else if !k.ignoreAny && target.isAny then return true
  else if target.isTuple || given.isTuple then
    if target.isTuple && given.isTuple && width == given.components.length then parts
    else refuse span (mismatch target given)
  else
    match Compat.check ⟨k.defs, k.wordSize, k.ignoreAny, k.allowAssign⟩ target given with
    | .compatible => return true
    | .needsReference => refuse span (.traitNeedsReference target.kind)
    | .incompatible => refuse span (mismatch target given)

mutual

/-- Compares the type of a slot with that of a value. The second type is what is
left of the first after its pointers and references. -/
def judgeCore (k : Assign) (span : Span) (target : Ty) : Ty → Ty → StateM (Array Diagnostic) Bool
  | .pointer t, given | .reference t, given => judgeCore k span target t given
  | .tuple ts, given =>
    k.judgeTypes span target given ts.length (judgeComponents k span ts given.components)
  | _, given => k.judgeTypes span target given 0 (return true)

/-- Compares all components, also after one that does not fit. -/
def judgeComponents (k : Assign) (span : Span) :
    List Ty → List Ty → StateM (Array Diagnostic) Bool
  | t :: ts, g :: gs => do
    let first ← judgeCore k span t t g
    let others ← judgeComponents k span ts gs
    return first && others
  | _, _ => return true

end

/-- Records the problems of storing `v` in a slot of type `target`; says whether it
fits. -/
def judge (k : Assign) (target : Ty) (v : Value) (span : Span) : StateM (Array Diagnostic) Bool :=
  match notStorable? v with
  | some p => refuse span p
  | none =>
    match inRange? k.wordSize target v with
    | some fits => if fits then return true else refuse span .overflow
    | none => judgeCore k span target target v.type

/-- The problems are recorded after what is there, and the value fits if there are
none. -/
def Tells (x : StateM (Array Diagnostic) Bool) (span : Span) (ps : List Problem) : Prop :=
  ∀ diags, x diags = (ps.isEmpty, diags ++ ps.map fun p => Diagnostic.mk p span)

theorem tells_accept (span : Span) : Tells (return true) span [] := fun diags => by
  show (true, diags) = _
  simp

theorem tells_refuse (span : Span) (p : Problem) : Tells (refuse span p) span [p] := fun diags => by
  show (false, diags.push ⟨p, span⟩) = _
  simp

theorem Tells.and {x y : StateM (Array Diagnostic) Bool} {span : Span} {ps qs : List Problem}
    (hx : Tells x span ps) (hy : Tells y span qs) :
    Tells (do let a ← x; let b ← y; return a && b) span (ps ++ qs) := fun diags => by
  show ((x diags).1 && (y (x diags).2).1, (y (x diags).2).2) = _
  rw [hx diags, hy]
  exact Prod.ext (by cases ps <;> simp) (Array.toList_inj.mp (by simp))

theorem tells_judgeTypes (k : Assign) (target given : Ty) (width : Nat) {span : Span}
    {x : StateM (Array Diagnostic) Bool} {ps : List Problem} (hx : Tells x span ps) :
    Tells (k.judgeTypes span target given width x) span (k.verdict target given width ps) := by
  unfold judgeTypes verdict compatProblems
  repeat' split
  all_goals first | exact hx | exact tells_accept span | exact tells_refuse span _

mutual

theorem tells_judgeCore (k : Assign) (span : Span) (target t given : Ty) :
    Tells (k.judgeCore span target t given) span (k.coreProblems target t given) := by
  cases t with
  | pointer t | reference t => exact tells_judgeCore k span target t given
  | tuple ts => exact tells_judgeTypes k _ _ _ (tells_judgeComponents k span ts _)
  | _ => exact tells_judgeTypes k _ _ _ (tells_accept span)

theorem tells_judgeComponents (k : Assign) (span : Span) (ts gs : List Ty) :
    Tells (k.judgeComponents span ts gs) span (k.componentProblems ts gs) := by
  cases ts with
  | nil => exact tells_accept span
  | cons t ts =>
    cases gs with
    | nil => exact tells_accept span
    | cons g gs => exact (tells_judgeCore k span t t g).and (tells_judgeComponents k span ts gs)

end

theorem tells_judge (k : Assign) (target : Ty) (v : Value) (span : Span) :
    Tells (k.judge target v span) span (k.check target v) := by
  unfold judge check
  split
  · exact tells_refuse span _
  split
  · split
    · exact tells_accept span
    · exact tells_refuse span _
  · exact tells_judgeCore k span target target v.type

end Assign

end JaneCheck
