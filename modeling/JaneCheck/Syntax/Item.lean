import JaneCheck.Syntax.Statement
import JaneCheck.Token.Lexer

/-!
# Parsing source files

The items of a file, and `parse`, which reads a whole text.
-/

namespace JaneCheck.Syntax

namespace Parse

/-- The names in brackets after the name of a function or struct. -/
def genericParams : Parse (List Ident) := do
  if ← accept .lbracket then
    let names ← commaList ident
    expect .rbracket
    return names
  return []

/-- `self` or `&self`. -/
def receiver : Parse (Option Receiver) := do
  let start ← here
  if ← acceptKeyword .selfKw then return some ⟨false, start⟩
  if (← at? .amp) && (← peek).isKeyword .selfKw then
    advance
    advance
    return some ⟨true, ← spanFrom start⟩
  return none

def param : Parse Param := do
  let start ← here
  let mutable ← acceptKeyword .mutKw
  let variadic ← accept .ellipsis
  let name ← ident
  expect .colon
  let declared ← type
  let default ← afterSymbol .eq expr
  return ⟨name, declared, mutable, variadic, default, ← spanFrom start⟩

/-- Receiver and parameters between parentheses. -/
def params : Parse (Option Receiver × List Param) := do
  expect .lparen
  let r ← receiver
  let more ← if r.isSome then accept .comma else pure true
  let ps ← if more then listUntil .rparen param else pure []
  expect .rparen
  return (r, ps)

def namedResult : Parse (Ident × TypeExpr) := do
  let name ← ident
  expect .colon
  return (name, ← type)

/-- The result after an arrow: a type, or names with types in parentheses. -/
def returnType : Parse ReturnType := do
  unless ← accept .arrow do return ⟨none, []⟩
  let c ← get
  let isNamed := c.current.kind.isSymbol .lparen && c.peek.isName &&
    (match c.rest with
      | _ :: t :: _ => t.kind.isSymbol .colon
      | _ => false)
  unless isNamed do return ⟨some (← type), []⟩
  let start ← here
  expect .lparen
  let results ← commaList namedResult
  expect .rparen
  let span ← spanFrom start
  let declared := match results with
    | [(_, t)] => t
    | rs => .tuple (rs.map (·.2)) span
  return ⟨some declared, results.map (·.1)⟩

def function : Parse Function := do
  let start ← here
  let isUnsafe ← acceptKeyword .unsafeKw
  expectKeyword .fnKw
  let name ← ident
  let generics ← genericParams
  let (r, ps) ← params
  let ret ← returnType
  let body ← block
  return ⟨name, isUnsafe, generics, r, ps, ret, body, ← spanFrom start⟩

/-- A field; a comma or a semicolon may follow it. -/
def structField : Parse Field := do
  let start ← here
  let name ← ident
  expect .colon
  let declared ← type
  let default ← afterSymbol .eq expr
  let span ← spanFrom start
  unless ← accept .comma do
    let _ ← accept .semicolon
  return ⟨name, declared, default, span⟩

def structDef : Parse StructDef := do
  let start ← here
  expectKeyword .structKw
  let name ← ident
  let generics ← genericParams
  expect .lbrace
  let fields ← repeatUntil .rbrace structField
  expect .rbrace
  return ⟨name, generics, fields, ← spanFrom start⟩

def enumItem : Parse EnumItem := do
  let start ← here
  let name ← ident
  let value ← afterSymbol .eq expr
  return ⟨name, value, ← spanFrom start⟩

def enumDef : Parse EnumDef := do
  let start ← here
  expectKeyword .enumKw
  let name ← ident
  let base ← afterSymbol .colon type
  expect .lbrace
  let items ← listUntil .rbrace enumItem
  expect .rbrace
  return ⟨name, base, items, ← spanFrom start⟩

def methodSig : Parse MethodSig := do
  let start ← here
  expectKeyword .fnKw
  let name ← ident
  let (r, ps) ← params
  let ret ← returnType
  let span ← spanFrom start
  let _ ← accept .semicolon
  return ⟨name, r, ps, ret, span⟩

def traitDef : Parse TraitDef := do
  let start ← here
  expectKeyword .traitKw
  let name ← ident
  expect .lbrace
  let methods ← repeatUntil .rbrace methodSig
  expect .rbrace
  return ⟨name, methods, ← spanFrom start⟩

def implBlock : Parse ImplBlock := do
  let start ← here
  expectKeyword .implKw
  let first ← ident
  let (target, traitName) ← if ← acceptKeyword .forKw then
      pure (← ident, some first)
    else pure (first, none)
  expect .lbrace
  let methods ← repeatUntil .rbrace function
  expect .rbrace
  return ⟨target, traitName, methods, ← spanFrom start⟩

def item : Parse Item := do
  match ← kind with
  | .keyword .fnKw | .keyword .unsafeKw => return .function (← function)
  | .keyword .structKw => return .struct (← structDef)
  | .keyword .enumKw => return .enum (← enumDef)
  | .keyword .traitKw => return .trait (← traitDef)
  | .keyword .implKw => return .impl (← implBlock)
  | .keyword .typeKw => return .typeAlias (← typeAlias)
  | .keyword .constKw | .keyword .letKw => return .global (← globalDef)
  | _ => unexpected "item (fn, struct, enum, trait, impl, type, const, let)"

def itemRounds : Nat → Parse Program
  | 0 => return []
  | n + 1 => do
    if (← kind).isEof then return []
    if ← accept .semicolon then itemRounds n
    else
      let i ← item
      return i :: (← itemRounds n)

def program : Parse Program := do itemRounds (← rounds)

end Parse

/-- The items that a list of tokens holds. -/
def parseTokens (tokens : List Token) : Except SyntaxError Program :=
  return (← Parse.program.run (Cursor.ofTokens tokens)).1

/-- The items of the text of a file. -/
def parse (file : Nat) (text : String) : Except SyntaxError Program := do
  parseTokens (← Token.readAll file text)

end JaneCheck.Syntax
