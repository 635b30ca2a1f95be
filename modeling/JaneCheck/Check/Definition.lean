import JaneCheck.Check.Statement
import JaneCheck.Flow

/-!
# Definitions

The checks of whole definitions: parameters and bodies of functions, fields of
structs, items of enums. A generic definition is checked once for each list of
type arguments that it is used with.
-/

namespace JaneCheck.Check

open Syntax (EnumDef EnumItem Expr Function Stmt)

/-! ## Functions -/

/-- Checks a default value against the type of its parameter or field. -/
def checkDefault (t : Ty) (e : Expr) : Check Unit :=
  withBlock false fun _ => do
    let v ← eval e (some t)
    discard (assign t v e.span)

/-- Only the last parameter is variadic, and after a default all have one. -/
def checkParamsFrom : List Syntax.Param → List (Param Ty) → Bool → Check Unit
  | p :: ps, resolved :: rest, seenDefault => do
    if p.variadic && !ps.isEmpty then report .variadicNotLast p.span
    match p.default with
    | some e =>
      if !resolved.type.hasGeneric && !resolved.type.isVoid then checkDefault resolved.type e
    | none => if seenDefault && !p.variadic then report (.paramNeedsDefault p.name.name) p.span
    checkParamsFrom ps rest (seenDefault || p.default.isSome)
  | _, _, _ => return

def checkParams (params : List Syntax.Param) (sig : FnSig) : Check Unit :=
  checkParamsFrom params sig.params false

/-- Declares the receiver of a method. -/
def declareReceiver (f : FuncInfo) (ownerTypes : List Ty) : Check Unit := do
  if let (some owner, some receiver) := (f.owner, f.decl.receiver) then
    let t : Ty := .struct owner ((← package).struct owner).name ownerTypes
    declareParam "self" (if receiver.byRef then .reference t else t) receiver.byRef receiver.span

/-- Declares the parameters with their resolved types. -/
def declareParams (decls : List Syntax.Param) (params : List (Param Ty)) : Check Unit :=
  (decls.zip params).forM fun (p, resolved) =>
    declareParam p.name.name resolved.type p.mutable p.name.span

/-- Declares the named results, which may be written. -/
def declareResults (decl : Function) (ret : Ty) : Check Unit :=
  (decl.ret.names.zip (resultTypes ret)).forM fun (name, t) =>
    declareParam name.name t true name.span

/-- Runs a check in the context of a function with no labels yet. -/
def inFunction (f : FnContext) (x : Check α) : Check α := do
  update fun s => { s with labels := [], gotos := [] }
  inContext (.function f) x

/-- Checks the body of a function under type arguments of its owner and its own. -/
def checkBody (id : FuncId) (ownerTypes types : List Ty) : Check Unit := do
  let p ← package
  let f := p.func id
  let frame := (p.ownerGenerics f).zip ownerTypes ++ f.generics.zip types
  inContext (.bindings frame) do
    let sig ← instantiateSig id ownerTypes types
    let func : FnContext :=
      { ret := sig.ret, namedRet := !f.decl.ret.names.isEmpty, isUnsafe := f.decl.isUnsafe }
    inFunction func (withBlock f.decl.body.isUnsafe fun _ => do
      declareReceiver f ownerTypes
      declareParams f.decl.params sig.params
      declareResults f.decl sig.ret
      checkStmts f.decl.body.stmts
      checkGotos)
    if !sig.ret.isVoid && !Flow.stmtsReturn f.decl.body.stmts then
      report .missingReturn f.decl.body.span

/-! ## Structs -/

/-- The type of a field under type arguments; the template has it without any. -/
def fieldType (types : List Ty) (field : Syntax.Field) (info : FieldInfo) : Check Ty :=
  if types.isEmpty then return info.type else quietly (resolveOrVoid field.type)

def checkFields (types : List Ty) : List Syntax.Field → List FieldInfo → Check (List (String × Ty))
  | field :: fields, info :: infos => do
    let t ← fieldType types field info
    field.default.forM (checkDefault t)
    return (field.name.name, t) :: (← checkFields types fields infos)
  | _, _ => return []

/-- Checks the defaults of a struct and gives its layout under type arguments. -/
def checkStruct (id : StructId) (types : List Ty) : Check (List (String × Ty)) := do
  let info := (← package).struct id
  inContext (.bindings (info.generics.zip types)) (checkFields types info.decl.fields info.fields)

/-! ## Enums -/

/-- The value after an integer. Past the signed words it goes on unsigned. -/
def successor : Const → Const
  | .int n => if n.toInt + 1 < 9223372036854775808 then .int (n + 1) else .uint (n.toUInt64 + 1)
  | .uint n => .uint (n + 1)
  | c => c

/-- The value that an item states. -/
def statedValue (base : Ty) (e : Expr) : Check (Option Const) := do
  match ← withBlock false fun _ => evalChecked e (some base) with
  | none => return none
  | some v =>
    if !v.isConst then refuse .notConstant e.span
    else return if ← assign base v e.span then v.constant else none

/-- The value of an item without a stated one: the next number or, with texts,
its name. -/
def impliedValue (base : Ty) (next : Const) (item : EnumItem) : Check Const := do
  if base.isText then return .text item.name.name
  let k : Assign := { toSetting := ← setting }
  if !(k.check base (.ofConst base next)).isEmpty then report .overflow item.name.span
  return next

/-- The items in order, each with its value. `known` are the items before. -/
def itemsFrom (base : Ty) : List EnumItem → Const → List (String × Const) →
    Check (List (String × Const))
  | [], _, known => return known
  | item :: items, next, known => do
    if (known.lookup item.name.name).isSome then
      report (.nameTaken item.name.name) item.name.span
      itemsFrom base items next known
    else
      let value ← match item.value with
        | some e => statedValue base e
        | none => some <$> impliedValue base next item
      match value with
      | none => itemsFrom base items next known
      | some c =>
        let c ← pin c base
        itemsFrom base items (if base.isText then next else successor c)
          (known ++ [(item.name.name, c)])

/-- The base of an enum and the values of its items. The base is text or an
integer type; without one it is `u32`. -/
def enumItems (decl : EnumDef) : Check (Ty × List (String × Const)) := do
  let base ← match decl.base with
    | some t => resolve t
    | none => pure (some (.base .u32))
  match base with
  | none => return (.base .u32, [])
  | some base =>
    if base.isText || base.isPure && base.category.isInteger then
      let first : Const := if base.category.isSigned then .int 0 else .uint 0
      return (base, ← itemsFrom base decl.items first [])
    else
      report .notAType decl.name.span
      return (base, [])

end JaneCheck.Check
