import JaneCheck.Check.Call
import JaneCheck.Check.Member

/-!
# Values of expressions

The value of an expression has its type, its constant when that is known, and
says what may be done with it. Every expression that has a value is recorded
with its type.
-/

namespace JaneCheck.Check

open Syntax (Arg Expr GlobalDef Ident Literal TypeExpr UnOp)

/-! ## Literals -/

/-- Numbers beyond the signed words are unsigned. -/
def literal : Literal → Value
  | .int n =>
    if n.toNat < Nat.pow 2 63 then .ofConst (.base .int) (.int n.toInt64)
    else .ofConst (.base .u64) (.uint n)
  | .float x => .ofConst (.base .f64) (.float x)
  | .text s => .ofConst (.base .str) (.text s)
  | .rune c =>
    { Value.ofConst (.base .i32) (.int (Int64.ofNat c.toNat)) with isRune := true }
  | .bool b => .ofConst .bool (.bool b)
  | .nil => .ofType .nil

/-- The elements of an array literal, with the type of an element so far. -/
def arrayElements : List Expr → Option Ty → Check (Option Ty)
  | [], elem => return elem
  | e :: es, elem => do
    match ← evalChecked e elem, elem with
    | none, _ => arrayElements es elem
    | some v, some t =>
      discard (assign t v e.span)
      arrayElements es elem
    | some v, none =>
      if v.type.isNil then
        report .nilWithoutType e.span
        arrayElements es none
      else arrayElements es (some v.type)

/-- An array literal is an array where one is expected, and a slice elsewhere. -/
def arrayLiteral (elements : List Expr) (hint : Option Ty) (span : Span) : Check Value := do
  let hint := hint.filter fun h => h.isSlice || h.isArray
  let elem := (← arrayElements elements (hint.bind Ty.component?)).getD (.base .any)
  match hint with
  | some (.array _ size) =>
    let length := UInt64.ofNat elements.length
    let size := size.getD length
    if size < length then report .overflow span
    return .ofType (.array elem (some size))
  | _ => return .ofType (.slice elem)

def structLiteral (name : Ident) (generics : List TypeExpr) (args : List Arg) (span : Span) :
    Check Value := do
  match ← resolveNamed name generics span with
  | none => return .void
  | some t =>
    match pureStruct? t with
    | none =>
      report .notAType name.span
      return .void
    | some (id, types) =>
      structArgs id (← structFields id types) args span
      return .ofType t

/-! ## Globals -/

/-- The type that a declaration without one takes from its value. -/
def inferredType (v : Value) (span : Span) : Check Ty := do
  if v.type.isNil then
    report .nilWithoutType span
    return .void
  else if v.type.isVoid then
    report .voidWithoutType span
    return .void
  else return v.type

/-- The value that a global has when its initial value has been evaluated. -/
def globalOf (decl : GlobalDef) (declared : Option Ty) (v : Value) : Check Value := do
  let t ← match declared with
    | some t =>
      if ← assign t v decl.value.span then checkMutability decl.mutable t v decl.span
      pure t
    | none => inferredType v decl.value.span
  if declared.isNone && t.isVoid then return .void
  let constant ←
    if decl.constant then
      if !v.isConst then report .notConstant decl.value.span
      v.constant.mapM (pin · t)
    else pure none
  return { Value.place t decl.mutable with constant }

def computeGlobal (decl : GlobalDef) : Check Value := do
  let declared ← match decl.type with
    | some t => resolve t
    | none => pure none
  match ← evalChecked decl.value declared with
  | none => return .void
  | some v => globalOf decl declared v

/-- The value of a global. A cycle is reported once, at the global that closes
it; its members have no value. -/
def globalValue (id : GlobalId) : Check Value := do
  let info := (← package).global id
  let s ← state
  let c ← context
  if let some v := info.value then return v
  else if s.cyclicGlobals.contains id then return .void
  else if let some v := s.globalCache.lookup id then return v
  else if c.globalPath.contains id then
    update fun s => { s with cyclicGlobals := cycleMembers c.globalPath id ++ s.cyclicGlobals }
    report (.cycle info.name) info.decl.name.span
    return .void
  else
    let compute := computeGlobal info.decl
    let v ← inContext (.globalValue id) (if c.reportGlobals then compute else quietly compute)
    let v := if (← state).cyclicGlobals.contains id then .void else v
    update fun s => { s with globalCache := (id, v) :: s.globalCache }
    return v

/-! ## Names -/

/-- A type where a value may stand. -/
def typeValue (name : Ident) (generics : List TypeExpr) (span : Span) : Check Value := do
  match ← resolveNamed name generics span with
  | some t => return { Value.ofType t with isType := true }
  | none => return .void

/-- The value of a variable, which is used from now on. -/
def useVar (id : VarId) : Check Value := do
  update fun s => { s with scopes := s.scopes.modifyVar id fun v => { v with used := true } }
  match (← state).scopes.vars[id]? with
  | some var => return { Value.place var.type var.mutable with constant := var.constant }
  | none => return .void

def definedValue (name : Ident) : Check Value := do
  let p ← package
  match p.lookup? name.name with
  | some (.global id) =>
    let v ← globalValue id
    countVoidRead v
    return v
  | some (.func id) =>
    let f := p.func id
    return { Value.ofType (.function f.sig) with isGenericFn := f.isGeneric }
  | some _ => typeValue name [] name.span
  | none =>
    report (.unknownName name.name) name.span
    return .void

def identValue (name : Ident) : Check Value := do
  match ← lookupVar name.name with
  | some id =>
    let v ← useVar id
    countVoidRead v
    return v
  | none =>
    match builtinFunc? name.name with
    | some sig => return .ofType (.function sig)
    | none => definedValue name

/-- A name with explicit type arguments: an instance of a function, or a type. -/
def instanceValue (name : Ident) (generics : List TypeExpr) (span : Span) : Check Value := do
  let p ← package
  match p.lookup? name.name with
  | some (.func id) =>
    match arityProblem? (p.func id).generics.length generics.length with
    | some problem =>
      report problem span
      return .void
    | none =>
      match ← resolveArgs generics with
      | none => return .void
      | some types =>
        let sig ← instantiateSig id [] types
        request (.func id) types span
        return .ofType (.function sig)
  | _ => typeValue name generics span

/-! ## Operators -/

/-- The constant of a unary operation on a number. -/
def foldUnary (op : UnOp) (c : Const) : Const :=
  match op, c with
  | .neg, .int x => .int (-x)
  | .neg, .uint x => .uint (-x)
  | .neg, .float x => .float (-x)
  | .bitNot, .int x => .int (~~~x)
  | .bitNot, .uint x => .uint (~~~x)
  | _, c => c

/-- The value of a unary operation; `none` when the operator is not for it. -/
def unaryValue? (op : UnOp) (v : Value) : Option Value :=
  match op with
  | .neg | .plus | .bitNot =>
    if v.type.isNumber && (op != .bitNot || v.type.category.isInteger) then
      some { Value.ofType v.type with
        constant := v.constant.map (foldUnary op), isRune := v.isRune }
    else none
  | .not =>
    if v.type.isBoolean then
      some { Value.ofType v.type with constant := v.constant.map fun c => .bool !c.isTrue }
    else none
  | .deref => if v.type.isExplicitPointer then some (.place v.type.elem true) else none
  | .addressOf =>
    if v.isLvalue && !v.type.isReference then some (.ofType (.pointer v.type)) else none

def unary (op : UnOp) (operand : Expr) (hint : Option Ty) (span : Span) : Check Value := do
  let v ← eval operand (if op == .deref || op == .addressOf then none else hint)
  if v.type.isVoid then return .void
  match unaryValue? op v with
  | some result =>
    if op == .deref then requireUnsafe span
    return result
  | none =>
    report (.unaryNotForType op.symbol) span
    return .void

/-- Slices of bytes and of runes convert to text and back. -/
def isCharacters (t : Ty) : Bool :=
  t.isSlice && t.component?.any fun c => c.kind == "u8" || c.kind == "i32"

def isAddress (t : Ty) : Bool := t.isPure && t.category == .uintptr

/-- Conversions between numbers, between pointers and addresses, and between
text and its characters. An enum counts as its base. -/
def castable (enumBase : EnumId → Ty) (source target : Ty) : Bool :=
  let number :=
    match source.enum? with
    | some id => if source.isPure then enumBase id else source
    | none => source
  source.isAny || target.isNumber && number.isNumber ||
    target.isPointer && (source.isPointer || isAddress source) ||
    isAddress target && source.isPointer ||
    target.isText && isCharacters source || isCharacters target && source.isText

def cast (operand : Expr) (target : TypeExpr) (span : Span) : Check Value := do
  let resolved ← resolve target
  let v ← eval operand none
  match resolved with
  | none => return .void
  | some t =>
    if v.type.isVoid then return .void
    else if v.type == t || t.isAny then return { Value.ofType t with constant := v.constant }
    else if castable (← package).definitions.enumBase v.type t then
      let constant ← if t.isNumber then v.constant.mapM (pin · t) else pure none
      return { Value.ofType t with constant }
    else
      report (.castNotSupported v.type.kind t.kind) span
      return .void

/-! ## Calls -/

inductive Callee where
  | known (sig : FnSig)
  /-- A generic function whose type arguments are to be inferred. -/
  | template (id : FuncId) (owner : List Ty)

/-- A value that can be called. -/
def callable (v : Value) (span : Span) : Check (Option Callee) :=
  match v.type.signature? with
  | some sig =>
    if !v.isType && v.type.isFunction then return some (.known sig) else refuse .notCallable span
  | none => refuse .notCallable span

def annotateTemplate (span : Span) (id : FuncId) : Check Unit := do
  annotate span (.ofType (.function ((← package).func id).sig))

/-- The generic function that a name stands for. -/
def templateOf? (e : Expr) : Check (Option FuncId) := do
  match e with
  | .ident name =>
    if (← lookupVar name.name).isSome || (builtinFunc? name.name).isSome then return none
    let p ← package
    match p.lookup? name.name with
    | some (.func id) => return if (p.func id).isGeneric then some id else none
    | _ => return none
  | _ => return none

def memberCallee (base : Expr) (name : Ident) (span : Span) : Check (Option Callee) := do
  let v ← evalAny base none
  if v.type.isVoid then return none
  match ← member v name span with
  | none => return none
  | some (.method id owner) =>
    if ((← package).func id).isGeneric then
      annotateTemplate span id
      return some (.template id owner)
    else
      let sig ← instantiateSig id owner []
      annotate span (.ofType (.function sig))
      return some (.known sig)
  | some (.value v) =>
    annotate span v
    callable v span

def callee (e : Expr) : Check (Option Callee) := do
  match e with
  | .field base name span => memberCallee base name span
  | _ =>
    match ← templateOf? e with
    | some id =>
      annotateTemplate e.span id
      return some (.template id [])
    | none =>
      let before := (← state).diags.size
      let v ← evalAny e none
      if v.type.isVoid && before < (← state).diags.size then return none
      callable v e.span

def call (f : Expr) (args : List Arg) (span : Span) : Check Value := do
  match ← callee f with
  | none => return .void
  | some (.template id owner) => inferCall id owner args span
  | some (.known sig) =>
    if sig.isUnsafe then requireUnsafe span
    callArgs sig args span
    return .ofType sig.ret

/-! ## Members -/

def fieldValue (base : Expr) (name : Ident) (span : Span) : Check Value := do
  let v ← evalAny base none
  if v.type.isVoid then return .void
  match ← member v name span with
  | none => return .void
  | some (.value v) => return v
  | some (.method id owner) =>
    let isGenericFn := ((← package).func id).isGeneric
    let sig ← instantiateSig id owner []
    return { Value.ofType (.function sig) with isMethod := true, isGenericFn }

/-! ## Expressions -/

def binary (op : Syntax.BinOp) (left right : Expr) (span : Span) : Check Value := do
  let l ← eval left none
  let r ← eval right none
  if l.type.isVoid || r.type.isVoid then return .void
  solve l op r span

def subscript (base index : Expr) (span : Span) : Check Value := do
  let b ← eval base none
  let i ← eval index none
  if b.type.isVoid || i.type.isVoid then return .void
  element b i index.span span

/-- A spread outside of an argument list has no value. -/
def strayRest (operand : Expr) (span : Span) : Check Value := do
  report .spreadOutsideCall span
  discard (eval operand none)
  return .void

def exprValue (e : Expr) (hint : Option Ty) : Check Value :=
  match e with
  | .literal l _ => return literal l
  | .ident name => identValue name
  | .generic name generics span => instanceValue name generics span
  | .binary op l r span => binary op l r span
  | .unary op e span => unary op e hint span
  | .call f args span => call f args span
  | .field base name span => fieldValue base name span
  | .index base i span => subscript base i span
  | .structLit name generics args span => structLiteral name generics args span
  | .array elements span => arrayLiteral elements hint span
  | .cast e t span => cast e t span
  | .spread e span => strayRest e span

/-- One step of evaluation: the parts are evaluated one level below. -/
def evalStep (e : Expr) (hint : Option Ty) : Check Value := do
  let v ← exprValue e hint
  annotate e.span v
  return v

/-! ## Levels -/

mutual

/-- Resolution with `depth` levels. -/
def resolveAt (package : Package) (options : Options) :
    Nat → Context → TypeExpr → Step (Option Ty)
  | 0, _, _ => .tooDeep
  | n + 1, context, t =>
    resolveStep t
      { package, options, context
        resolveIn := resolveAt package options n
        evalIn := evalAt package options n }

/-- Evaluation with `depth` levels. -/
def evalAt (package : Package) (options : Options) :
    Nat → Context → Expr → Option Ty → Step Value
  | 0, _, _, _ => .tooDeep
  | n + 1, context, e, hint =>
    evalStep e hint
      { package, options, context
        resolveIn := resolveAt package options n
        evalIn := evalAt package options n }

end

/-- Those who answer from `depth` levels. -/
def toolsAt (package : Package) (options : Options) : Nat → Tools
  | 0 => { package, options, resolve := fun _ _ => none, eval := fun _ _ _ => none }
  | n + 1 =>
    { package, options
      resolve := fun t => (resolveStep t).exec (toolsAt package options n)
      eval := fun e hint => (evalStep e hint).exec (toolsAt package options n) }

/-- Runs a check with `depth` levels on a new machine. -/
def start (package : Package) (options : Options) (depth : Nat) (context : Context) (x : Check α) :
    Option (α × State) :=
  (x.exec (toolsAt package options depth) { toContext := context, toState := {} }).map fun (a, m) =>
    (a, m.toState)

/-- The run of a check with `depth` levels, as a function of its context. -/
def run (package : Package) (options : Options) (depth : Nat) (context : Context) (x : Check α)
    (s : State) : Option (α × State) :=
  (x { package, options, context
       resolveIn := resolveAt package options depth
       evalIn := evalAt package options depth }).run s

end JaneCheck.Check
