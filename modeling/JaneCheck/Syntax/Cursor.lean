import JaneCheck.Syntax
import JaneCheck.Syntax.Error

/-!
# The cursor of the parser

A `Cursor` stands on a token of a file that ends in its end token, and cannot
move past it. Parsers are functions of the cursor that may fail. A `{` after a
name opens a struct literal only while `literals` is set; `withLiterals` sets it
for a part of the text and puts it back.

Loops over the tokens (`commaList`, `listUntil`, `repeatUntil`) take as many
rounds as there are tokens left, which is enough because every round reads one.
-/

namespace JaneCheck.Syntax

/-- `before` is the span of the token read last, or of the first token. -/
structure Cursor where
  before : Span
  current : Token
  rest : List Token
  literals : Bool
  deriving Inhabited

abbrev Parse := StateT Cursor (Except SyntaxError)

namespace Cursor

/-- A cursor at the first token; a text without tokens has ended. -/
def ofTokens : List Token → Cursor
  | [] => ⟨default, ⟨.eof, default⟩, [], true⟩
  | t :: ts => ⟨t.span, t, ts, true⟩

/-- The kind of the token after the current one, or of the last token. -/
def peek (c : Cursor) : Token.Kind :=
  match c.rest with
  | [] => c.current.kind
  | t :: _ => t.kind

/-- Moves to the next token; the last token stays. -/
def advance (c : Cursor) : Cursor :=
  match c.rest with
  | [] => c
  | t :: ts => { c with before := c.current.span, current := t, rest := ts }

end Cursor

namespace Parse

def kind : Parse Token.Kind := return (← get).current.kind

def peek : Parse Token.Kind := return (← get).peek

/-- The span of the current token. -/
def here : Parse Span := return (← get).current.span

def advance : Parse Unit := modify Cursor.advance

/-- From `start` to the token read last. -/
def spanFrom (start : Span) : Parse Span := return start.merge (← get).before

def at? (s : Symbol) : Parse Bool := return (← kind).isSymbol s

def unexpected {α : Type} (expected : String) : Parse α := do
  throw (.unexpected expected (← kind) (← here))

/-- Reads the symbol if it is there. -/
def accept (s : Symbol) : Parse Bool := do
  let found ← at? s
  if found then advance
  return found

def acceptKeyword (k : Keyword) : Parse Bool := do
  let found := (← kind).isKeyword k
  if found then advance
  return found

def expect (s : Symbol) : Parse Unit := do
  unless ← accept s do unexpected s.shown

def expectKeyword (k : Keyword) : Parse Unit := do
  unless ← acceptKeyword k do unexpected k.shown

/-- A name; `self` counts as one. -/
def ident : Parse Ident := do
  let span ← here
  match ← kind with
  | .name text => advance; return ⟨text, span⟩
  | .keyword .selfKw => advance; return ⟨"self", span⟩
  | _ => throw (.expectedName span)

/-- Runs `p` with struct literals allowed or not. -/
def withLiterals {α : Type} (allowed : Bool) (p : Parse α) : Parse α := do
  let saved := (← get).literals
  modify ({ · with literals := allowed })
  let x ← p
  modify ({ · with literals := saved })
  return x

/-- `p` when `s` was read. -/
def afterSymbol {α : Type} (s : Symbol) (p : Parse α) : Parse (Option α) := do
  if ← accept s then return some (← p) else return none

/-! ## Lists -/

/-- The number of rounds that a loop over the rest of the tokens can take. -/
def rounds : Parse Nat := return (← get).rest.length + 1

def commaListRounds {α : Type} (item : Parse α) : Nat → Parse (List α)
  | 0 => return []
  | n + 1 => do
    let x ← item
    if ← accept .comma then return x :: (← commaListRounds item n) else return [x]

/-- One or more items between commas. -/
def commaList {α : Type} (item : Parse α) : Parse (List α) := do
  commaListRounds item (← rounds)

def listUntilRounds {α : Type} (close : Symbol) (item : Parse α) : Nat → Parse (List α)
  | 0 => return []
  | n + 1 => do
    let k ← kind
    if k.isSymbol close || k.isEof then return []
    let x ← item
    if ← accept .comma then return x :: (← listUntilRounds close item n) else return [x]

/-- Items between commas, up to `close`; the last may be followed by a comma. -/
def listUntil {α : Type} (close : Symbol) (item : Parse α) : Parse (List α) := do
  listUntilRounds close item (← rounds)

def repeatUntilRounds {α : Type} (close : Symbol) (item : Parse α) : Nat → Parse (List α)
  | 0 => return []
  | n + 1 => do
    let k ← kind
    if k.isSymbol close || k.isEof then return []
    let x ← item
    return x :: (← repeatUntilRounds close item n)

/-- Items one after the other, up to `close` or the end. -/
def repeatUntil {α : Type} (close : Symbol) (item : Parse α) : Parse (List α) := do
  repeatUntilRounds close item (← rounds)

end Parse

end JaneCheck.Syntax
