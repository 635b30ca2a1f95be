import JaneCheck.Assign
import JaneCheck.Generic.Bindings
import JaneCheck.Package
import JaneCheck.Scope

/-!
# The check monad

Checking reads a package and options. It changes the context of the place that is
checked, and writes diagnostics, typings and requests for instantiation. A `Check`
is a program of such steps. `Check.exec` runs it on a `Machine`, which holds the
context and all that is written: an excursion into an inner context takes parts of
the context out and puts them back at its end.

`Check.reader` takes the same program as a function of a context that it only
reads. What was found stays: a step can add to the diagnostics, typings and
requests, and to what is remembered about aliases and globals, but takes nothing
back. A `Step` carries the proof of this.

Types and expressions refer to each other without bound, through aliases,
globals and templates. So a check that needs the type of a type expression or
the value of an expression asks its environment, and the environment answers
from one level below; there is no answer below the last level.
-/

namespace JaneCheck

open Syntax (BinOp Expr TypeExpr)

structure Options where
  /-- Report variables, aliases and labels that nothing uses. -/
  reportUnused : Bool := true
  /-- How deep instantiations may cause each other. -/
  maxDepth : Nat := 64
  wordSize : WordSize := .w64

/-- The type, and the constant if it is known, of an expression that was checked. -/
structure Typing where
  span : Span
  type : Ty
  constant : Option Const

/-- A definition that may have type parameters. -/
inductive Template where
  | func (id : FuncId)
  | struct (id : StructId)
  deriving DecidableEq, Repr

/-- A use of a template with type arguments. -/
structure Request where
  template : Template
  types : List Ty
  span : Span

namespace Check

/-- A statement that `break` may leave; `continue` needs a loop. -/
structure Breakable where
  label : Option String
  isLoop : Bool

/-- A position in a function body: a statement of a block. -/
structure Place where
  block : BlockId
  index : Nat

structure Label where
  name : String
  place : Place
  span : Span
  used : Bool := false

structure Goto where
  label : String
  place : Place
  span : Span

/-- The match case whose block is checked, with the number of its statements. -/
structure CaseContext where
  block : BlockId
  size : Nat
  isFinal : Bool

/-- The function whose body is checked. -/
structure FnContext where
  ret : Ty := .void
  namedRet : Bool := false
  isUnsafe : Bool := false
  /-- The innermost first. -/
  breakables : List Breakable := []
  case : Option CaseContext := none

/-- Where something is checked. Without a block that is the package level. -/
structure Context where
  block : Option BlockId := none
  /-- The place of the current statement in the block. -/
  index : Nat := 0
  bindings : Bindings := {}
  /-- Type parameters without a value. -/
  templates : List String := []
  /-- The aliases that are being resolved, the innermost first. -/
  aliasPath : List AliasId := []
  /-- The globals that are being computed, the innermost first. -/
  globalPath : List GlobalId := []
  /-- Report what is wrong with a global when its value is computed. -/
  reportGlobals : Bool := false
  func : FnContext := {}

structure State where
  diags : Array Diagnostic := #[]
  typings : Array Typing := #[]
  requests : Array Request := #[]
  scopes : Scopes := {}
  labels : List Label := []
  gotos : List Goto := []
  aliasCache : List (AliasId × Option Ty) := []
  cyclicAliases : List AliasId := []
  globalCache : List (GlobalId × Value) := []
  cyclicGlobals : List GlobalId := []
  /-- How often a variable or global without a type was read. -/
  voidReads : Nat := 0

/-- All that `s` has found and remembers is in `s'` too, in the same order. -/
structure State.Le (s s' : State) : Prop where
  diags : s.diags.toList <+: s'.diags.toList
  typings : s.typings.toList <+: s'.typings.toList
  requests : s.requests.toList <+: s'.requests.toList
  aliasCache : s.aliasCache <:+ s'.aliasCache
  cyclicAliases : s.cyclicAliases <:+ s'.cyclicAliases
  globalCache : s.globalCache <:+ s'.globalCache
  cyclicGlobals : s.cyclicGlobals <:+ s'.cyclicGlobals
  voidReads : s.voidReads ≤ s'.voidReads

theorem State.Le.refl (s : State) : s.Le s := by constructor <;> simp

theorem State.Le.trans {s₁ s₂ s₃ : State} (h : s₁.Le s₂) (h' : s₂.Le s₃) : s₁.Le s₃ where
  diags := h.diags.trans h'.diags
  typings := h.typings.trans h'.typings
  requests := h.requests.trans h'.requests
  aliasCache := h.aliasCache.trans h'.aliasCache
  cyclicAliases := h.cyclicAliases.trans h'.cyclicAliases
  globalCache := h.globalCache.trans h'.globalCache
  cyclicGlobals := h.cyclicGlobals.trans h'.cyclicGlobals
  voidReads := Nat.le_trans h.voidReads h'.voidReads

theorem State.le_scopes (scopes : Scopes) (s : State) : s.Le { s with scopes } := by
  constructor <;> simp

/-- A change of the state that has no result when the levels are used up. -/
structure Step (α : Type) where
  run : State → Option (α × State)
  le : ∀ {s a s'}, run s = some (a, s') → s.Le s'

namespace Step

@[always_inline, inline]
protected def pure (a : α) : Step α where
  run s := some (a, s)
  le {s} _ _ h := by cases h; exact .refl s

@[always_inline, inline]
protected def bind (x : Step α) (f : α → Step β) : Step β where
  run s :=
    match x.run s with
    | some (a, s) => (f a).run s
    | none => none
  le h := by
    split at h
    next hx => exact (x.le hx).trans ((f _).le h)
    next => cases h

instance : Monad Step where
  pure := Step.pure
  bind := Step.bind

/-- The step for which no level is left. -/
def tooDeep : Step α where
  run _ := none
  le h := by cases h

end Step

/-- What a step may ask for. -/
structure Env where
  package : Package
  options : Options
  context : Context
  /-- The type that a type expression denotes. -/
  resolveIn : Context → TypeExpr → Step (Option Ty)
  /-- The value or type that an expression denotes, where one of the given type
  is expected. -/
  evalIn : Context → Expr → Option Ty → Step Value

/-- A change of the context for a part of a check. -/
structure Excursion where
  enter : Context → Context
  /-- Puts back what was taken out of the context that is given first. -/
  leave : Context → Context → Context
  back : ∀ c, leave c (enter c) = c

instance : CoeFun Excursion fun _ => Context → Context := ⟨Excursion.enter⟩

namespace Excursion

/-- To the target of an alias, which sees neither blocks nor type parameters. -/
def aliasTarget (id : AliasId) : Excursion where
  enter c := { c with block := none, templates := [], bindings := {}, aliasPath := id :: c.aliasPath }
  leave saved c := { c with
    aliasPath := c.aliasPath.tail, bindings := saved.bindings, templates := saved.templates
    block := saved.block }
  back _ := rfl

/-- To the value of a global, which sees no function either. -/
def globalValue (id : GlobalId) : Excursion where
  enter c := { c with
    block := none, templates := [], bindings := {}, func := {}, globalPath := id :: c.globalPath }
  leave saved c := { c with
    globalPath := c.globalPath.tail, func := saved.func, bindings := saved.bindings
    templates := saved.templates, block := saved.block }
  back _ := rfl

/-- To the types of a template, with a new frame of bindings. -/
def template (frame : List (String × Ty)) : Excursion where
  enter c := { c with block := none, templates := [], bindings := c.bindings.pushFrame frame }
  leave saved c := { c with
    bindings := c.bindings.pop, templates := saved.templates, block := saved.block }
  back _ := rfl

/-- Into a block. -/
def block (b : BlockId) : Excursion where
  enter c := { c with block := some b, index := 0 }
  leave saved c := { c with block := saved.block, index := saved.index }
  back _ := rfl

/-- To a statement of the current block. -/
def statement (i : Nat) : Excursion where
  enter c := { c with index := i }
  leave saved c := { c with index := saved.index }
  back _ := rfl

/-- Into a statement that `break` may leave. -/
def breakable (b : Breakable) : Excursion where
  enter c := { c with func := { c.func with breakables := b :: c.func.breakables } }
  leave _ c := { c with func := { c.func with breakables := c.func.breakables.tail } }
  back _ := rfl

/-- Into the body of a match case. -/
def matchCase (case : CaseContext) : Excursion where
  enter c := { c with func := { c.func with case := some case } }
  leave saved c := { c with func := { c.func with case := saved.func.case } }
  back _ := rfl

/-- Into a function. -/
def function (func : FnContext) : Excursion where
  enter c := { c with func }
  leave saved c := { c with func := saved.func }
  back _ := rfl

/-- To a new frame of bindings. -/
def bindings (frame : List (String × Ty)) : Excursion where
  enter c := { c with bindings := c.bindings.pushFrame frame }
  leave _ c := { c with bindings := c.bindings.pop }
  back _ := rfl

/-- To a definition whose type parameters have no values. -/
def templates (names : List String) : Excursion where
  enter c := { c with templates := names }
  leave saved c := { c with templates := saved.templates }
  back _ := rfl

end Excursion

end Check

/-- A check, as the program of its steps. -/
inductive Check : Type → Type 1
  | give {α : Type} (a : α) : Check α
  | andThen {α β : Type} (x : Check α) (f : α → Check β) : Check β
  /-- Reads something. -/
  | look {α : Type} (f : Package → Options → Check.Context → Check.State → α) : Check α
  /-- Changes the state without a loss. -/
  | update (f : Check.State → Check.State)
      (le : ∀ s : Check.State, s.Le (f s) := by intro s; constructor <;> simp) : Check Unit
  /-- Runs a check in another context. -/
  | inContext {α : Type} (e : Check.Excursion) (x : Check α) : Check α
  /-- Runs a check and drops its diagnostics. -/
  | quietly {α : Type} (x : Check α) : Check α
  /-- The type that a type expression denotes; `none` when it denotes none, which
  is then reported. -/
  | resolve (t : TypeExpr) : Check (Option Ty)
  /-- The value or type that an expression denotes. -/
  | evalAny (e : Expr) (hint : Option Ty) : Check Value

namespace Check

instance : Monad Check where
  pure := .give
  bind := .andThen

def package : Check Package := .look fun p _ _ _ => p

def options : Check Options := .look fun _ o _ _ => o

def context : Check Context := .look fun _ _ c _ => c

def state : Check State := .look fun _ _ _ s => s

/-! ## Running a check -/

/-- The registers of a check: where it is, and what it has found. -/
structure Machine extends Context, State

/-- Who answers a check that runs. -/
structure Tools where
  package : Package
  options : Options
  resolve : TypeExpr → Machine → Option (Option Ty × Machine)
  eval : Expr → Option Ty → Machine → Option (Value × Machine)

/-- Runs a check. -/
def exec (tools : Tools) : Check α → Machine → Option (α × Machine)
  | .give a, m => some (a, m)
  | .andThen x f, m =>
    match x.exec tools m with
    | some (a, m) => (f a).exec tools m
    | none => none
  | .look f, m => some (f tools.package tools.options m.toContext m.toState, m)
  | .update f _, m => some ((), { m with toState := f m.toState })
  | .inContext e x, m =>
    match x.exec tools { m with toContext := e.enter m.toContext } with
    | some (a, m') => some (a, { m' with toContext := e.leave m.toContext m'.toContext })
    | none => none
  | .quietly x, m =>
    match x.exec tools m with
    | some (a, m') => some (a, { m' with diags := m'.diags.take m.diags.size })
    | none => none
  | .resolve t, m => tools.resolve t m
  | .evalAny e hint, m => tools.eval e hint m

/-- The check as a function of its context. -/
def reader : Check α → Env → Step α
  | .give a, _ => Step.pure a
  | .andThen x f, env => (x.reader env).bind fun a => (f a).reader env
  | .look f, env =>
    { run := fun s => some (f env.package env.options env.context s, s)
      le := fun {s} _ _ h => by cases h; exact .refl s }
  | .update f le, _ => { run := fun s => some ((), f s), le := fun {s} _ _ h => by cases h; exact le s }
  | .inContext e x, env => x.reader { env with context := e.enter env.context }
  | .quietly x, env =>
    { run := fun s => (x.reader env).run s |>.map fun (a, s') => (a, { s' with diags := s.diags })
      le := fun {s a s'} h => by
        obtain ⟨⟨b, t⟩, ht, he⟩ := Option.map_eq_some_iff.mp h
        cases he
        exact { (x.reader env).le ht with diags := List.prefix_rfl } }
  | .resolve t, env => env.resolveIn env.context t
  | .evalAny e hint, env => env.evalIn env.context e hint

instance : CoeFun (Check α) fun _ => Env → Step α := ⟨reader⟩

/-! ## Output -/

def report (p : Problem) (span : Span) : Check Unit :=
  update fun s => { s with diags := s.diags.push ⟨p, span⟩ }

def reportAll (ps : List Problem) (span : Span) : Check Unit :=
  update fun s => { s with diags := s.diags ++ ps.map fun p => Diagnostic.mk p span }

/-- Records the type of an expression that denotes a value. -/
def annotate (span : Span) (v : Value) : Check Unit :=
  if v.isType then pure ()
  else update fun s => { s with typings := s.typings.push ⟨span, v.type, v.constant⟩ }

/-- Asks for an instantiation, unless a type argument is itself unknown. -/
def request (template : Template) (types : List Ty) (span : Span) : Check Unit :=
  if types.any Ty.hasGeneric then pure ()
  else update fun s => { s with requests := s.requests.push ⟨template, types, span⟩ }

def countVoidRead (v : Value) : Check Unit :=
  if v.type.isVoid then update fun s => { s with voidReads := s.voidReads + 1 } else pure ()

/-! ## Failure

A void value means a failure only together with an error: the call of a
function without a result is void and right. The error may be an earlier one,
when the value was read from a variable or global that has no type. -/

structure Mark where
  diags : Nat
  voidReads : Nat

def mark : Check Mark := return ⟨(← state).diags.size, (← state).voidReads⟩

/-- A value computed since the mark is a failure. -/
def failedSince (m : Mark) (v : Value) : Check Bool := do
  let s ← state
  return v.type.isVoid &&
    (m.voidReads < s.voidReads || (s.diags.extract m.diags s.diags.size).any (·.isError))

/-- The value of an expression; that of a type is void and reported. -/
def eval (e : Expr) (hint : Option Ty) : Check Value := do
  let v ← evalAny e hint
  if v.isType then
    report .notAType e.span
    return .void
  return v

/-- The value of an expression, unless its evaluation failed. -/
def evalChecked (e : Expr) (hint : Option Ty) : Check (Option Value) := do
  let m ← mark
  let v ← eval e hint
  return if ← failedSince m v then none else some v

/-! ## Rules on values -/

def setting : Check Setting := do
  return ⟨(← package).definitions, (← options).wordSize⟩

/-- Checks by the given rules that a value fits a slot; says whether it does. -/
def assignBy (k : Assign) (target : Ty) (v : Value) (span : Span) : Check Bool := do
  let (ok, _) := k.judge target v span (← state).diags
  update (fun s => { s with diags := (k.judge target v span s.diags).2 }) fun s =>
    { State.Le.refl s with diags := by simp [k.tells_judge target v span s.diags] }
  return ok

/-- Checks that a value fits a slot; says whether it does. -/
def assign (target : Ty) (v : Value) (span : Span) : Check Bool := do
  assignBy { toSetting := ← setting } target v span

def solve (l : Value) (op : BinOp) (r : Value) (span : Span) : Check Value := do
  let (v, problems) := Operator.solve (← setting) l op r
  reportAll problems span
  return v

def pin (c : Const) (t : Ty) : Check Const := return c.pin (← options).wordSize t

/-- Storage that may not be written must not be shared with a slot that may. -/
def checkMutability (mutable : Bool) (t : Ty) (v : Value) (span : Span) : Check Unit :=
  if mutable && t.isShared && v.isLvalue && !v.mutable then report .immutableToMutable span
  else pure ()

def inUnsafe : Check Bool := do
  let c ← context
  if c.func.isUnsafe then return true
  match c.block with
  | some b => return (← state).scopes.inUnsafe b
  | none => return false

/-- Reports an unsafe operation outside of unsafe code. -/
def requireUnsafe (span : Span) : Check Unit := do
  if !(← inUnsafe) then report .outsideUnsafe span

/-! ## Blocks -/

def reportUnused (b : BlockId) : Check Unit := do
  if (← options).reportUnused then
    ((← state).scopes.unused b).forM fun (name, span) => report (.unused name) span

/-- Runs a check inside a new block at the current statement. -/
def withBlock (isUnsafe : Bool) (x : BlockId → Check α) : Check α := do
  let c ← context
  let (b, scopes) := (← state).scopes.enter c.block c.index isUnsafe
  update fun s => { s with scopes }
  let result ← inContext (.block b) (x b)
  reportUnused b
  return result

/-- Declares a variable in the current block; `_` stands for none. -/
def declare (v : Var) : Check Unit := do
  if v.name == "_" then return
  match (← context).block with
  | none => return
  | some b =>
    match (← state).scopes.declare b v with
    | .ok (_, scopes) => update fun s => { s with scopes }
    | .error _ => report (.nameTaken v.name) v.span

def declareParam (name : String) (t : Ty) (mutable : Bool) (span : Span) : Check Unit :=
  declare { name, type := t, mutable, isParam := true, span }

/-- The innermost variable of a name. -/
def lookupVar (name : String) : Check (Option VarId) := do
  match (← context).block with
  | some b => return (← state).scopes.lookup? b name
  | none => return none

end Check

end JaneCheck
