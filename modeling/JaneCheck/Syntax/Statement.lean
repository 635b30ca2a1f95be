import JaneCheck.Syntax.Expression

/-!
# Parsing statements

Statements and blocks. A block is one level over the blocks inside it
(`blockLevel`), and `Parse.block` starts as many levels up as there are tokens
left.
-/

namespace JaneCheck.Syntax

/-- The operator of an assignment: `none` for a token that assigns nothing, and
no operator for the plain one. -/
def assignOp? : Token.Kind → Option (Option BinOp)
  | .symbol s =>
    match s with
    | .eq => some none
    | .plusEq => some (some .add)
    | .minusEq => some (some .sub)
    | .starEq => some (some .mul)
    | .slashEq => some (some .div)
    | .percentEq => some (some .mod)
    | .ampEq => some (some .bitAnd)
    | .barEq => some (some .bitOr)
    | .caretEq => some (some .bitXor)
    | .shlEq => some (some .shl)
    | .shrEq => some (some .shr)
    | _ => none
  | _ => none

namespace Parse

def typeAlias : Parse TypeAlias := do
  let start ← here
  expectKeyword .typeKw
  let name ← ident
  expect .eq
  let target ← type
  return ⟨name, target, ← spanFrom start⟩

/-- `const` or `let` with a value; the current token is one of the two. -/
def globalDef : Parse GlobalDef := do
  let start ← here
  let constant := (← kind).isKeyword .constKw
  advance
  let mutable ← if constant then pure false else acceptKeyword .mutKw
  let name ← ident
  let declared ← afterSymbol .colon type
  expect .eq
  let value ← expr
  return ⟨name, constant, mutable, declared, value, ← spanFrom start⟩

def letName : Parse LetName := do
  let mutable ← acceptKeyword .mutKw
  return ⟨← ident, mutable⟩

def letStmt : Parse Stmt := do
  let start ← here
  expectKeyword .letKw
  if ← accept .lparen then
    let names ← commaList letName
    expect .rparen
    expect .eq
    let values ← exprs
    return .declareMany names values (← spanFrom start)
  let ⟨name, mutable⟩ ← letName
  let declared ← afterSymbol .colon type
  let value ← afterSymbol .eq expr
  return .declare name mutable false declared value (← spanFrom start)

def constStmt : Parse Stmt := do
  let g ← globalDef
  return .declare g.name false true g.type (some g.value) g.span

def returnStmt : Parse Stmt := do
  let start ← here
  expectKeyword .returnKw
  let k ← kind
  let bare := k.isSymbol .semicolon || k.isSymbol .rbrace || k.isEof
  let values ← if bare then pure [] else exprs
  return .ret values (← spanFrom start)

/-- The label of a `break` or `continue`: a name that ends the statement. -/
def jumpLabel : Parse (Option Ident) := do
  let next ← peek
  let ends := next.isSymbol .rbrace || next.isSymbol .semicolon || next.isEof
  if (← kind).isName && ends then return some (← ident) else return none

/-- Assignment, step or expression. -/
def exprStmt : Parse Stmt := do
  let start ← here
  let targets ← exprs
  match assignOp? (← kind) with
  | some op =>
    advance
    let values ← exprs
    return .assign targets op values (← spanFrom start)
  | none =>
    match targets with
    | [e] =>
      if ← accept .plusPlus then return .step e true (← spanFrom start)
      if ← accept .minusMinus then return .step e false (← spanFrom start)
      return .expr e
    | _ => unexpected "assignment"

/-! ## Statements with blocks -/

/-- The arms of an `if` after the keyword, and the block of its `else`. -/
def branchRounds (block : Parse Body) : Nat → Parse (List (Branch Stmt) × Option Body)
  | 0 => return ([], none)
  | n + 1 => do
    let cond ← condition
    let body ← block
    if ← acceptKeyword .elseKw then
      if ← acceptKeyword .ifKw then
        let (branches, otherwise) ← branchRounds block n
        return (⟨cond, body⟩ :: branches, otherwise)
      return ([⟨cond, body⟩], some (← block))
    return ([⟨cond, body⟩], none)

def ifStmt (block : Parse Body) : Parse Stmt := do
  let start ← here
  expectKeyword .ifKw
  let (branches, otherwise) ← branchRounds block (← rounds)
  return .branch branches otherwise (← spanFrom start)

def loopKind : Parse LoopKind := do
  if ← acceptKeyword .whileKw then return .whileTrue (← condition)
  if ← acceptKeyword .forKw then
    let vars ← commaList ident
    expectKeyword .inKw
    return .forEach vars (← condition)
  expectKeyword .loopKw
  return .forever

def loopStmt (block : Parse Body) : Parse Stmt := do
  let start ← here
  let kind ← loopKind
  let body ← block
  return .loop kind body (← spanFrom start)

def matchArm (block : Parse Body) : Parse (Case Stmt) := do
  let start ← here
  let isDefault := match ← kind with
    | .name "_" => true
    | _ => false
  let exprs ← if isDefault && (← peek).isSymbol .fatArrow then do
      advance
      pure []
    else withLiterals false exprs
  expect .fatArrow
  let body ← block
  let span ← spanFrom start
  let _ ← accept .comma
  return ⟨exprs, body, span⟩

/-- Arms with expressions are cases; of the others the last one counts. -/
def matchStmt (block : Parse Body) : Parse Stmt := do
  let start ← here
  expectKeyword .matchKw
  let subject ← if ← at? .lbrace then pure none else some <$> condition
  expect .lbrace
  let arms ← repeatUntil .rbrace (matchArm block)
  expect .rbrace
  let cases := arms.filter fun arm => !arm.exprs.isEmpty
  let otherwise := (arms.filter fun arm => arm.exprs.isEmpty).getLast?
  return .select subject cases otherwise (← spanFrom start)

def stmt (block : Parse Body) : Parse Stmt := do
  let start ← here
  match ← kind with
  | .keyword .letKw => letStmt
  | .keyword .constKw => constStmt
  | .keyword .returnKw => returnStmt
  | .keyword .ifKw => ifStmt block
  | .keyword .loopKw | .keyword .whileKw | .keyword .forKw => loopStmt block
  | .keyword .matchKw => matchStmt block
  | .keyword .breakKw =>
    advance
    let label ← jumpLabel
    return .leave label (← spanFrom start)
  | .keyword .continueKw =>
    advance
    let label ← jumpLabel
    return .again label (← spanFrom start)
  | .keyword .gotoKw =>
    advance
    let label ← ident
    return .goto label (← spanFrom start)
  | .keyword .fallthroughKw =>
    advance
    return .fallthrough start
  | .symbol .lbrace | .keyword .unsafeKw => return .block (← block)
  | .keyword .typeKw => return .typeAlias (← typeAlias)
  | .name _ =>
    if (← peek).isSymbol .colon then
      let name ← ident
      advance
      return .label name (← spanFrom start)
    exprStmt
  | _ => exprStmt

/-- The statements of a block; semicolons between them mean nothing. -/
def stmtRounds (block : Parse Body) : Nat → Parse (List Stmt)
  | 0 => return []
  | n + 1 => do
    let k ← kind
    if k.isSymbol .rbrace || k.isEof then return []
    if ← accept .semicolon then stmtRounds block n
    else
      let s ← stmt block
      return s :: (← stmtRounds block n)

def blockLevel (block : Parse Body) : Parse Body := do
  let start ← here
  let isUnsafe ← acceptKeyword .unsafeKw
  expect .lbrace
  let stmts ← withLiterals true (do stmtRounds block (← rounds))
  expect .rbrace
  return ⟨stmts, isUnsafe, ← spanFrom start⟩

def blockAt : Nat → Parse Body
  | 0 => unexpected Symbol.lbrace.shown
  | n + 1 => blockLevel (blockAt n)

def block : Parse Body := do blockAt (← rounds)

end Parse

end JaneCheck.Syntax
