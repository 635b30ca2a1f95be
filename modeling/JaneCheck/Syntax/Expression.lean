import JaneCheck.Syntax.Cursor

/-!
# Parsing types and expressions

Types and expressions contain each other: an array type has a size and a cast
has a type. Each parser here is one level of the grammar, written over the
parsers of the level below (`Grammar`); `typeAt` and `exprAt` tie the levels
together. Every level reads a token before it goes down, so `Parse.type` and
`Parse.expr` start as many levels up as there are tokens left.

Binary operators are parsed by precedence: an operand on the right of an
operator of precedence `p` takes only operators above `p`.
-/

namespace JaneCheck.Syntax

/-- The parsers of the level below; an expression takes the operators of at
least a given precedence. -/
structure Grammar where
  type : Parse TypeExpr
  expr : Nat → Parse Expr

/-- Precedence of a token as a binary operator. -/
def precedence? : Token.Kind → Option Nat
  | .keyword .asKw => some 12
  | .symbol s =>
    match s with
    | .orOr => some 2
    | .andAnd => some 3
    | .bar => some 4
    | .caret => some 5
    | .amp => some 6
    | .eqEq | .ne => some 7
    | .lt | .le | .gt | .ge => some 8
    | .shl | .shr => some 9
    | .plus | .minus => some 10
    | .star | .slash | .percent => some 11
    | _ => none
  | _ => none

def binOp? : Symbol → Option BinOp
  | .plus => some .add
  | .minus => some .sub
  | .star => some .mul
  | .slash => some .div
  | .percent => some .mod
  | .eqEq => some .eq
  | .ne => some .ne
  | .lt => some .lt
  | .le => some .le
  | .gt => some .gt
  | .ge => some .ge
  | .andAnd => some .and
  | .orOr => some .or
  | .amp => some .bitAnd
  | .bar => some .bitOr
  | .caret => some .bitXor
  | .shl => some .shl
  | .shr => some .shr
  | _ => none

def unOp? : Token.Kind → Option UnOp
  | .symbol .minus => some .neg
  | .symbol .plus => some .plus
  | .symbol .bang => some .not
  | .symbol .tilde => some .bitNot
  | .symbol .star => some .deref
  | .symbol .amp => some .addressOf
  | _ => none

namespace Parse

/-! ## Types -/

/-- `[K:V]` after its bracket; fails unless a colon follows the key. -/
def mapKey? (g : Grammar) : Parse (Option TypeExpr) := fun c =>
  match (do let key ← g.type; return (key, ← accept .colon) : Parse (TypeExpr × Bool)) c with
  | .ok ((key, true), c') => .ok (some key, c')
  | _ => .ok (none, c)

/-- Slice, array or map. A type followed by a colon is the key of a map; what
is anything else is read again as the size of an array. -/
def bracketType (g : Grammar) : Parse TypeExpr := do
  let start ← here
  expect .lbracket
  if ← accept .rbracket then
    let element ← g.type
    return .slice element (← spanFrom start)
  if ← accept .ellipsis then
    expect .rbracket
    let element ← g.type
    return .array none element (← spanFrom start)
  match ← mapKey? g with
  | some key =>
    let value ← g.type
    expect .rbracket
    return .map key value (← spanFrom start)
  | none =>
    let size ← withLiterals true (g.expr 0)
    expect .rbracket
    let element ← g.type
    return .array (some size) element (← spanFrom start)

/-- A parameter of a function type: its type, and whether dots precede it. -/
def typeParam (g : Grammar) : Parse (TypeExpr × Bool) := do
  let variadic ← accept .ellipsis
  return (← g.type, variadic)

/-- A function type is variadic when its last parameter is. -/
def functionType (g : Grammar) : Parse TypeExpr := do
  let start ← here
  expectKeyword .fnKw
  expect .lparen
  let params ← listUntil .rparen (typeParam g)
  expect .rparen
  let result ← afterSymbol .arrow g.type
  let variadic := match params.getLast? with
    | some (_, v) => v
    | none => false
  return .function (params.map (·.1)) variadic result (← spanFrom start)

/-- Types in parentheses; one alone is itself. -/
def tupleType (g : Grammar) : Parse TypeExpr := do
  let start ← here
  expect .lparen
  let types ← commaList g.type
  expect .rparen
  match types with
  | [t] => return t
  | ts => return .tuple ts (← spanFrom start)

def namedType (g : Grammar) : Parse TypeExpr := do
  let start ← here
  let name ← ident
  if ← accept .lbracket then
    let generics ← listUntil .rbracket g.type
    expect .rbracket
    return .named name generics (← spanFrom start)
  return .named name [] (← spanFrom start)

/-- `&&T` is one symbol but two references. -/
def typeLevel (g : Grammar) : Parse TypeExpr := do
  let start ← here
  match ← kind with
  | .symbol .star =>
    advance
    if ← acceptKeyword .unsafeKw then return .rawPointer (← spanFrom start)
    let target ← g.type
    return .pointer target (← spanFrom start)
  | .symbol .amp =>
    advance
    let target ← g.type
    return .reference target (← spanFrom start)
  | .symbol .andAnd =>
    advance
    let target ← g.type
    let span ← spanFrom start
    return .reference (.reference target span) span
  | .symbol .lbracket => bracketType g
  | .keyword .fnKw => functionType g
  | .symbol .lparen => tupleType g
  | .name _ => namedType g
  | _ => throw (.expectedType start)

/-! ## Expressions -/

/-- A name and a colon before an argument aim it at a parameter. -/
def arg (g : Grammar) : Parse Arg := do
  let start ← here
  let isNamed := (← kind).isName && (← peek).isSymbol .colon
  let name ← if isNamed then do
      let name ← ident
      advance
      pure (some name)
    else pure none
  let value ← g.expr 0
  return ⟨name, value, ← spanFrom start⟩

def args (g : Grammar) (close : Symbol) : Parse (List Arg) :=
  withLiterals true (listUntil close (arg g))

/-- Calls, members, subscripts and spreads after an expression. -/
def suffixRounds (g : Grammar) (e : Expr) : Nat → Parse Expr
  | 0 => return e
  | n + 1 => do
    if ← accept .lparen then
      let as ← args g .rparen
      expect .rparen
      suffixRounds g (.call e as (← spanFrom e.span)) n
    else if ← accept .dot then
      let name ← ident
      suffixRounds g (.field e name (e.span.merge name.span)) n
    else if ← accept .lbracket then
      let i ← withLiterals true (g.expr 0)
      expect .rbracket
      suffixRounds g (.index e i (← spanFrom e.span)) n
    else if ← accept .ellipsis then
      suffixRounds g (.spread e (← spanFrom e.span)) n
    else return e

def suffix (g : Grammar) (e : Expr) : Parse Expr := do suffixRounds g e (← rounds)

/-- A name, perhaps with type arguments after `::`, or a struct literal. -/
def named (g : Grammar) : Parse Expr := do
  let start ← here
  let name ← ident
  let explicit := (← at? .colonColon) && (← peek).isSymbol .lbracket
  let generics ← if explicit then do
      advance
      advance
      let generics ← listUntil .rbracket g.type
      expect .rbracket
      pure generics
    else pure []
  if (← at? .lbrace) && (← get).literals then
    advance
    let as ← args g .rbrace
    expect .rbrace
    return .structLit name generics as (← spanFrom start)
  if explicit then return .generic name generics (← spanFrom start)
  return .ident name

def arrayLiteral (g : Grammar) : Parse Expr := do
  let start ← here
  expect .lbracket
  let elements ← withLiterals true (listUntil .rbracket (g.expr 0))
  expect .rbracket
  return .array elements (← spanFrom start)

def literal (value : Literal) : Parse Expr := do
  let span ← here
  advance
  return .literal value span

/-- An operand without what may follow it. An expression in parentheses keeps
its own span. -/
def atom (g : Grammar) : Parse Expr := do
  match ← kind with
  | .int n => literal (.int n)
  | .float x => literal (.float x)
  | .text s => literal (.text s)
  | .rune c => literal (.rune c)
  | .keyword .trueKw => literal (.bool true)
  | .keyword .falseKw => literal (.bool false)
  | .keyword .nilKw => literal .nil
  | .name _ | .keyword .selfKw => named g
  | .symbol .lparen =>
    advance
    let inner ← withLiterals true (g.expr 0)
    expect .rparen
    return inner
  | .symbol .lbracket => arrayLiteral g
  | _ => throw (.expectedExpr (← here))

/-- An operand behind its unary operators. -/
def operandRounds (g : Grammar) : Nat → Parse Expr
  | 0 => do throw (.expectedExpr (← here))
  | n + 1 => do
    let start ← here
    match unOp? (← kind) with
    | some op =>
      advance
      let e ← operandRounds g n
      return .unary op e (start.merge e.span)
    | none => suffix g (← atom g)

def operand (g : Grammar) : Parse Expr := do operandRounds g (← rounds)

/-- The operators of precedence at least `least` that follow `left`. -/
def operatorRounds (g : Grammar) (least : Nat) (left : Expr) : Nat → Parse Expr
  | 0 => return left
  | n + 1 => do
    let k ← kind
    match precedence? k with
    | none => return left
    | some p =>
      if p < least then return left
      match k with
      | .symbol s =>
        match binOp? s with
        | some op =>
          advance
          let right ← g.expr (p + 1)
          operatorRounds g least (.binary op left right (left.span.merge right.span)) n
        | none => return left
      | _ =>
        advance
        let target ← g.type
        operatorRounds g least (.cast left target (left.span.merge target.span)) n

def exprLevel (g : Grammar) (least : Nat) : Parse Expr := do
  let left ← operand g
  operatorRounds g least left (← rounds)

/-! ## Levels -/

mutual

def typeAt : Nat → Parse TypeExpr
  | 0 => do throw (.expectedType (← here))
  | n + 1 => typeLevel ⟨typeAt n, exprAt n⟩

def exprAt : Nat → Nat → Parse Expr
  | 0, _ => do throw (.expectedExpr (← here))
  | n + 1, least => exprLevel ⟨typeAt n, exprAt n⟩ least

end

def type : Parse TypeExpr := do typeAt ((← rounds) + 1)

def expr : Parse Expr := do exprAt ((← rounds) + 1) 0

def exprs : Parse (List Expr) := commaList expr

/-- An expression in the head of a statement, where a brace opens the body. -/
def condition : Parse Expr := withLiterals false expr

end Parse

end JaneCheck.Syntax
