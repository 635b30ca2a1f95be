import JaneCheck.Check.Eval
import JaneCheck.Check.Jump

/-!
# Statements

Statements are checked in order, each at its place in its block. Blocks, loops
and match cases are checked inside a block of their own.
-/

namespace JaneCheck.Check

open Syntax (BinOp Expr Ident LetName LoopKind Stmt TypeAlias TypeExpr)

/-! ## Declarations -/

/-- Notes that the current statement declares variables. -/
def recordDecl : Check Unit := do
  let c ← context
  if let some b := c.block then
    update fun s => { s with
      scopes := s.scopes.modifyBlock b fun block =>
        { block with decls := c.index :: block.decls } }

def declareLocal (name : Ident) (t : Ty) (mutable : Bool) (constant : Option Const) : Check Unit :=
  declare { name := name.name, type := t, mutable, constant, span := name.span }

/-- The value of a declaration, unless its evaluation failed. -/
def declaredValue (e : Expr) (hint : Option Ty) : Check (Option Value) := do
  let m ← mark
  let v ← evalAny e hint
  if v.isType then refuse .typeAsValue e.span
  else return if ← failedSince m v then none else some v

/-- The type of a variable declared without one. -/
def localType (v : Value) (span : Span) : Check Ty := do
  let t ← inferredType v span
  if v.type.isFunction then discard (assign v.type v span)
  return t

/-- The type of a variable with an initial value. An array without a size takes
the size of its value. -/
def initializedType (declared : Option Ty) (mutable : Bool) (v : Value) (valueSpan span : Span) :
    Check Ty := do
  match declared with
  | none => localType v valueSpan
  | some t =>
    if ← assign t v valueSpan then checkMutability mutable t v span
    return if t.isArray && t.size?.isNone && v.type.isArray then v.type else t

def constantOf (v : Value) (t : Ty) (span : Span) : Check (Option Const) := do
  if v.isConst && t.allowedForConst then v.constant.mapM (pin · t)
  else refuse .notConstant span

def checkDeclare (name : Ident) (mutable constant : Bool) (type : Option TypeExpr)
    (value : Option Expr) (span : Span) : Check Unit := do
  recordDecl
  let declared ← match type with
    | some t => resolve t
    | none => pure none
  match value with
  | none =>
    if constant then report .missingConstValue span
    else if type.isNone then report .missingInitializer span
    declareLocal name (declared.getD .void) mutable none
  | some e =>
    match ← declaredValue e declared with
    | none => declareLocal name (declared.getD .void) mutable none
    | some v =>
      let t ← initializedType declared mutable v e.span span
      let pinned ← if constant then constantOf v t e.span else pure none
      declareLocal name t mutable pinned

def evalAllChecked : List Expr → Check (List (Option Value))
  | [] => return []
  | e :: es => do
    let v ← evalChecked e none
    return v :: (← evalAllChecked es)

/-- The values for several targets; one tuple serves all of them. -/
def multiValues (targets : Nat) (values : List Expr) : Check (List (Option Value)) := do
  match values with
  | [e] =>
    if 1 < targets then
      match ← evalChecked e none with
      | some v =>
        if v.type.isTuple then return v.type.components.map fun t => some (.ofType t)
        else return [some v]
      | none => return List.replicate targets none
    else evalAllChecked values
  | _ => evalAllChecked values

def checkCounts (targets values : Nat) (span : Span) : Check Bool := do
  if values < targets then
    report .tooManyTargets span
    return false
  else if targets < values then
    report .tooFewTargets span
    return false
  else return true

/-- The span of the value for the target at place `i`. -/
def valueSpan (values : List Expr) (i : Nat) (default : Span) : Span :=
  ((values[i]? <|> values.head?).map Expr.span).getD default

def declareNames (values : List Expr) (span : Span) :
    List LetName → List (Option Value) → Nat → Check Unit
  | [], _, _ => return
  | n :: ns, evaluated, i => do
    let t ← match evaluated.head?.join with
      | some v => localType v (valueSpan values i span)
      | none => pure .void
    declareLocal n.name t n.mutable none
    declareNames values span ns evaluated.tail (i + 1)

def checkDeclareMany (names : List LetName) (values : List Expr) (span : Span) : Check Unit := do
  recordDecl
  let evaluated ← multiValues names.length values
  discard (checkCounts names.length evaluated.length span)
  declareNames values span names evaluated 0

/-- Declares a type alias of the block. -/
def checkLocalAlias (a : TypeAlias) : Check Unit := do
  if let some b := (← context).block then
    let name := a.name.name
    let scopes := (← state).scopes
    if (scopes.localAlias? b name).isSome || (scopes.local? b name).isSome then
      report (.nameTaken name) a.name.span
    else
      if let some t ← resolve a.target then
        update fun s => { s with
          scopes := s.scopes.addAlias b { name, type := t, span := a.name.span } }

/-! ## Assignments -/

/-- What is assigned to has a place that may be written. -/
def checkLvalue (v : Value) (span : Span) : Check Bool := do
  if !v.isLvalue then
    report .lvalueRequired span
    return false
  else if v.isConst then
    report .assignToConst span
    return false
  else if !v.mutable then
    report .assignToImmutable span
    return false
  else return true

def isDiscard : Expr → Bool
  | .ident name => name.name == "_"
  | _ => false

def store (target : Expr) (t v : Value) (span : Span) : Check Unit := do
  if ← checkLvalue t target.span then
    if ← assign t.type v span then checkMutability t.mutable t.type v span

def assignOne (target value : Expr) : Check Unit := do
  if isDiscard target then discard (eval value none)
  else
    match ← evalChecked target none with
    | none => discard (eval value none)
    | some t =>
      if let some v ← evalChecked value (some t.type) then store target t v value.span

def assignEach (values : List Expr) (span : Span) :
    List Expr → List (Option Value) → Nat → Check Unit
  | target :: targets, value :: rest, i => do
    if !isDiscard target then
      match ← evalChecked target none, value with
      | some t, some v => store target t v (valueSpan values i span)
      | _, _ => pure ()
    assignEach values span targets rest (i + 1)
  | _, _, _ => return

def checkAssign (targets values : List Expr) (span : Span) : Check Unit := do
  match targets, values with
  | [target], [value] => assignOne target value
  | _, _ =>
    let evaluated ← multiValues targets.length values
    if ← checkCounts targets.length evaluated.length span then
      assignEach values span targets evaluated 0

/-- `target op= value` of the first target and value. -/
def checkCompound (targets : List Expr) (op : BinOp) (values : List Expr) (span : Span) :
    Check Unit := do
  if ← checkCounts targets.length values.length span then
    match targets, values with
    | target :: _, value :: _ =>
      if let some t ← evalChecked target none then
        if let some v ← evalChecked value (some t.type) then
          if ← checkLvalue t target.span then
            let result ← solve t op v span
            if !result.type.isVoid then discard (assign t.type result value.span)
    | _, _ => return

/-- Steps are for numbers, references to them and, in unsafe code, pointers. -/
def checkStep (target : Expr) (increment : Bool) (span : Span) : Check Unit := do
  if let some v ← evalChecked target none then
    if ← checkLvalue v target.span then
      if v.type.isNumber || v.type.isReference && v.type.elem.isNumber then return
      else if v.type.isExplicitPointer then requireUnsafe span
      else report (.unaryNotForType (if increment then "++" else "--")) span

/-! ## Returns -/

def returnEach : List Expr → List Ty → Check Unit
  | [], _ => return
  | e :: es, [] => do
    discard (eval e none)
    returnEach es []
  | e :: es, t :: ts => do
    if let some v ← evalChecked e (some t) then
      if ← assign t v e.span then
        if t.isShared && v.isLvalue && !v.mutable then report .returnsImmutable e.span
    returnEach es ts

/-- The types of the values that a function returns. -/
def resultTypes (ret : Ty) : List Ty := if ret.isTuple then ret.components else [ret]

/-- Several results from one tuple. -/
def returnTuple (ret : Ty) (e : Expr) (span : Span) : Check Unit := do
  if let some v ← evalChecked e none then
    if v.type.isTuple then discard (assign ret v e.span) else report .tooFewReturnValues span

def checkReturn (values : List Expr) (span : Span) : Check Unit := do
  let f := (← context).func
  let wanted := resultTypes f.ret
  match values with
  | [] => if !f.ret.isVoid && !f.namedRet then report .returnNeedsValue span
  | first :: rest =>
    if f.ret.isVoid then
      report .returnTakesNoValue span
      returnEach values []
    else if rest.isEmpty && 1 < wanted.length then returnTuple f.ret first span
    else
      if wanted.length < values.length then report .tooManyReturnValues span
      else if values.length < wanted.length then report .tooFewReturnValues span
      returnEach values wanted

/-! ## Branches and loops -/

def checkCondition (cond : Expr) (problem : Problem) : Check Unit := do
  if let some v ← evalChecked cond none then
    if !v.type.isBoolean then report problem cond.span

/-- The types of the key and the element of something enumerable. -/
def loopTypes (t : Ty) (span : Span) : Check (List Ty) := do
  if t.isText then return [.base .int, .base .u8]
  else if t.isSlice || t.isArray then return [.base .int, t.component?.getD .void]
  else if t.isMap then return t.components
  else
    report .forNeedsEnumerable span
    return [.void, .void]

/-- Checks the head of a loop and gives the variables that its body sees. -/
def loopVars : LoopKind → Check (List (Ident × Ty))
  | .forever => return []
  | .whileTrue cond => do
    checkCondition cond .whileNeedsBool
    return []
  | .forEach vars subject => do
    vars[2]?.forM fun extra => report .tooManyLoopVars extra.span
    let types ← match ← evalChecked subject none with
      | some v => loopTypes v.type subject.span
      | none => pure [.void, .void]
    return vars.zip types

/-- Runs a check inside a statement that `break` may leave. -/
def withBreakable (label : Option String) (isLoop : Bool) (x : Check α) : Check α :=
  inContext (.breakable ⟨label, isLoop⟩) x

/-- Runs the body of a match case inside its block. -/
def withCase (isUnsafe : Bool) (size : Nat) (isFinal : Bool) (x : Check α) : Check α :=
  withBlock isUnsafe fun block =>
    inContext (.matchCase ⟨block, size, isFinal⟩) x

/-- Compares the expressions of a case with the subject; without a subject they
are conditions. -/
def checkCaseExprs (hasSubject : Bool) (subject : Option Value) (exprs : List Expr) : Check Unit :=
  exprs.forM fun e => do
    if let some v ← evalChecked e (subject.map (·.type)) then
      match subject with
      | some s => discard (solve s .eq v e.span)
      | none => if !hasSubject then discard (assign .bool v e.span)

/-- The name of a label, which the next statement carries. -/
def labelName? : Stmt → Option String
  | .label name _ => some name.name
  | _ => none

mutual

/-- Checks statements from place `i` on; `label` stands before the first. -/
def checkFrom : List Stmt → Nat → Option String → Check Unit
  | [], _, _ => return
  | s :: rest, i, label => do
    inContext (.statement i) (checkStmt s label)
    checkFrom rest (i + 1) (labelName? s)

def checkStmt : Stmt → Option String → Check Unit
  | .declare name mutable constant type value span, _ =>
    checkDeclare name mutable constant type value span
  | .declareMany names values span, _ => checkDeclareMany names values span
  | .assign targets none values span, _ => checkAssign targets values span
  | .assign targets (some op) values span, _ => checkCompound targets op values span
  | .step target increment span, _ => checkStep target increment span
  | .expr e, _ => discard (eval e none)
  | .ret values span, _ => checkReturn values span
  | .branch branches none _, _ => checkBranches branches
  | .branch branches (some ⟨stmts, isUnsafe, _⟩) _, _ => do
    checkBranches branches
    withBlock isUnsafe fun _ => checkFrom stmts 0 none
  | .loop kind ⟨stmts, isUnsafe, _⟩ _, label => do
    let vars ← loopVars kind
    withBreakable label true (withBlock isUnsafe fun _ => do
      vars.forM fun (name, t) => declareLocal name t false none
      checkFrom stmts 0 none)
  | .select subject cases none _, label => do
    let value ← subject.bindM (evalChecked · none)
    withBreakable label false (checkCases subject.isSome value false cases)
  | .select subject cases (some ⟨exprs, ⟨stmts, isUnsafe, _⟩, _⟩) _, label => do
    let value ← subject.bindM (evalChecked · none)
    withBreakable label false (do
      checkCases subject.isSome value true cases
      checkCaseExprs subject.isSome value exprs
      withCase isUnsafe stmts.length true (checkFrom stmts 0 none))
  | .leave label span, _ => checkBreak label span
  | .again label span, _ => checkContinue label span
  | .goto label span, _ => checkGoto label span
  | .label name span, _ => checkLabel name span
  | .fallthrough span, _ => checkFallthrough span
  | .block ⟨stmts, isUnsafe, _⟩, _ => withBlock isUnsafe fun _ => checkFrom stmts 0 none
  | .typeAlias a, _ => checkLocalAlias a

def checkBranches : List (Syntax.Branch Stmt) → Check Unit
  | [] => return
  | ⟨cond, ⟨stmts, isUnsafe, _⟩⟩ :: rest => do
    checkCondition cond .ifNeedsBool
    withBlock isUnsafe fun _ => checkFrom stmts 0 none
    checkBranches rest

/-- Checks the cases of a match; the last is final unless a default follows. -/
def checkCases (hasSubject : Bool) (subject : Option Value) (hasDefault : Bool) :
    List (Syntax.Case Stmt) → Check Unit
  | [] => return
  | ⟨exprs, ⟨stmts, isUnsafe, _⟩, _⟩ :: rest => do
    checkCaseExprs hasSubject subject exprs
    withCase isUnsafe stmts.length (rest.isEmpty && !hasDefault) (checkFrom stmts 0 none)
    checkCases hasSubject subject hasDefault rest

end

/-- Checks the statements of a block. -/
def checkStmts (stmts : List Stmt) : Check Unit := checkFrom stmts 0 none

end JaneCheck.Check
