import JaneCheck.Check.Definition

/-!
# Code outside a package

A function, its statements one by one, or type expressions, checked on their
own: no package defines anything for them. Nesting of more than `depth` levels
has no answer.
-/

namespace JaneCheck.Check

open Syntax (Function Stmt TypeExpr)

/-- Runs a check without a package. -/
def runAlone (options : Options) (depth : Nat) (context : Context) (x : Check α) :
    Option (α × State) :=
  start .empty options depth context x

/-- Runs a check inside the block of a function, whose parameters are declared. -/
def inBodyOf (f : Function) (func : FnContext) (x : Check α) : Check α :=
  inFunction func (withBlock f.body.isUnsafe fun _ => do
    let sig ← resolveSignature f.params f.ret f.receiver f.isUnsafe
    declareParams f.params sig.params
    x)

/-- Checks the body of a function in the given function context. -/
def checkAlone (options : Options) (depth : Nat) (f : Function) (func : FnContext) :
    Option State := do
  let body : Check Unit := do
    checkStmts f.body.stmts
    checkGotos
  return (← runAlone options depth {} (inBodyOf f func body)).2

/-- A result beside the diagnostics that appeared with it. -/
structure Observed (α : Type) where
  result : α
  diags : List Diagnostic

def observe (x : Check α) : Check (Observed α) := do
  let before := (← state).diags.size
  let result ← x
  let diags := (← state).diags
  return ⟨result, (diags.extract before diags.size).toList⟩

def observeEach (f : α → Check β) : List α → Check (List (Observed β))
  | [] => return []
  | a :: as => do
    let first ← observe (f a)
    return first :: (← observeEach f as)

/-- The value of an expression statement; any other statement is checked alone. -/
def stmtValue (hint : Option Ty) : Stmt → Check (Option Value)
  | .expr e => return some (← evalAny e hint)
  | s => do
    checkStmts [s]
    return none

/-- Evaluates the statements of a function one by one. -/
def evalAlone (options : Options) (depth : Nat) (f : Function) (func : FnContext)
    (hint : Option Ty) : Option (List (Observed (Option Value)) × State) :=
  runAlone options depth {} (inBodyOf f func (observeEach (stmtValue hint) f.body.stmts))

/-- Resolves type expressions one by one. -/
def resolveAlone (options : Options) (depth : Nat) (context : Context) (quiet : Bool)
    (types : List TypeExpr) : Option (List (Observed (Option Ty))) := do
  let one (t : TypeExpr) : Check (Option Ty) := if quiet then quietly (resolve t) else resolve t
  return (← runAlone options depth context (observeEach one types)).1

end JaneCheck.Check
