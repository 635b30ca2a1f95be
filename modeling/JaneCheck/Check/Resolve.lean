import JaneCheck.Check.Monad

/-!
# Types of type expressions

A name is a bound type parameter, a type parameter of the template that is
being resolved, a primitive, a local alias, a builtin or a definition of the
package, in this order. All else is built from its parts.
-/

namespace JaneCheck.Check

open Syntax (Expr Ident Receiver ReturnType TypeExpr)

/-- A type that takes no type arguments. -/
def plain (t : Ty) (generics : List TypeExpr) (span : Span) : Check (Option Ty) := do
  if generics.isEmpty then return some t
  report .takesNoGenerics span
  return none

def refuse (p : Problem) (span : Span) : Check (Option α) := do
  report p span
  return none

/-- Resolves all, also after a failure. -/
def resolveAll : List TypeExpr → Check (Option (List Ty))
  | [] => return some []
  | t :: ts => do
    let first ← resolve t
    let rest ← resolveAll ts
    return do return (← first) :: (← rest)

/-- Type arguments; the first enum among them is reported. -/
def resolveArgs (generics : List TypeExpr) : Check (Option (List Ty)) := do
  match ← resolveAll generics with
  | none => return none
  | some types =>
    match (types.zip generics).find? (·.1.isEnum) with
    | some (_, t) => refuse .enumAsGeneric t.span
    | none => return some types

def resolveStruct (id : StructId) (generics : List TypeExpr) (span : Span) :
    Check (Option Ty) := do
  let info := (← package).struct id
  match arityProblem? info.generics.length generics.length with
  | some p => refuse p span
  | none =>
    match ← resolveArgs generics with
    | none => return none
    | some types =>
      if !types.isEmpty then request (.struct id) types span
      return some (.struct id info.name types)

/-! ## Aliases -/

/-- The part of a path from its start down to `x`: the members of the cycle that
another visit of `x` closes. -/
def cycleMembers (path : List Nat) (x : Nat) : List Nat :=
  path.takeWhile (· != x) ++ [x]

/-- The target of a package alias. A cycle is reported once, at the alias that
closes it; its members have no target. -/
def aliasType (id : AliasId) : Check (Option Ty) := do
  let p ← package
  let info := p.typeAlias id
  let s ← state
  let path := (← context).aliasPath
  if let some t := info.type then return some t
  else if p.brokenAliases.contains id || s.cyclicAliases.contains id then return none
  else if let some cached := s.aliasCache.lookup id then return cached
  else if path.contains id then
    update fun s => { s with cyclicAliases := cycleMembers path id ++ s.cyclicAliases }
    refuse (.cycle info.name) info.decl.name.span
  else
    let resolved ← inContext (.aliasTarget id) (resolve info.decl.target)
    let cyclic := (← state).cyclicAliases.contains id
    let resolved := if cyclic then none else resolved
    update fun s => { s with aliasCache := (id, resolved) :: s.aliasCache }
    return resolved

/-! ## Names -/

/-- A name that the package defines. -/
def resolveDefined (name : Ident) (generics : List TypeExpr) (span : Span) :
    Check (Option Ty) := do
  let p ← package
  match p.lookup? name.name with
  | some (.typeAlias id) =>
    match ← aliasType id with
    | none => return none
    | some t =>
      if generics.isEmpty then return some t
      else refuse (if t.isStruct then .takesNoGenerics else .notAType) span
  | some (.enum id) =>
    if generics.isEmpty then return some (.enum id (p.enum id).name) else refuse .notAType span
  | some (.trait id) => plain (.trait id (p.trait id).name) generics span
  | some (.struct id) => resolveStruct id generics span
  | some (.func _) | some (.global _) => refuse .notAType name.span
  | none => refuse (.unknownName name.name) name.span

/-- The local alias of a name, which is used from now on. -/
def useLocalAlias (name : String) : Check (Option Ty) := do
  match (← context).block with
  | none => return none
  | some b =>
    match (← state).scopes.useAlias b name with
    | none => return none
    | some (t, scopes) =>
      update (fun s => { s with scopes }) (State.le_scopes scopes)
      return some t

def resolveNamed (name : Ident) (generics : List TypeExpr) (span : Span) : Check (Option Ty) := do
  let c ← context
  let n := name.name
  if let some t := c.bindings.lookup? n then plain t generics span
  else if c.templates.contains n then plain (.generic n) generics span
  else if let some primitive := Category.ofName? n then plain (.base primitive) generics span
  else if let some t ← useLocalAlias n then plain t generics span
  else if let some t := builtinType? n then plain t generics span
  else resolveDefined name generics span

/-! ## Compound types -/

/-- The size of an array: a constant that is not negative. -/
def arraySize (e : Expr) : Check (Option UInt64) := do
  let v ← eval e none
  match v.constant with
  | some (.int n) => if 0 ≤ n.toInt then return some n.toUInt64 else refuse .invalidType e.span
  | some (.uint n) => return some n
  | some _ => refuse .invalidType e.span
  | none => if v.type.isVoid then return none else refuse .notConstant e.span

/-- A signature is generic when a type parameter without a value occurs in it. -/
def signature (params : List (Param Ty)) (ret : Ty) (isMethod isUnsafe : Bool) : FnSig :=
  ⟨params, ret, isMethod, params.any (·.type.hasGeneric) || ret.hasGeneric, isUnsafe⟩

/-- Parameters without names, the last of which may be variadic. -/
def unnamedParams (variadic : Bool) : List Ty → List (Param Ty)
  | [] => []
  | [t] => [⟨"", if variadic then .slice t else t, false, variadic, false⟩]
  | t :: ts => ⟨"", t, false, false, false⟩ :: unnamedParams variadic ts

/-- One step of resolution: the parts are resolved one level below. -/
def resolveStep : TypeExpr → Check (Option Ty)
  | .named name generics span => resolveNamed name generics span
  | .pointer t span => do
    match ← resolve t with
    | none => return none
    | some t =>
      if t.isReference || t.isRawPointer then refuse .invalidType span
      else return some (.pointer t)
  | .reference t span => do
    match ← resolve t with
    | none => return none
    | some t =>
      if t.validForReference then return some (.reference t) else refuse .invalidType span
  | .rawPointer _ => return some .rawPointer
  | .slice t _ => return (← resolve t).map .slice
  | .array size t _ => do
    match ← resolve t, size with
    | none, _ => return none
    | some t, none => return some (.array t none)
    | some t, some e => return (← arraySize e).map fun n => .array t (some n)
  | .map k v _ => do
    let key ← resolve k
    let value ← resolve v
    return do return .map (← key) (← value)
  | .function params variadic ret _ => do
    let types ← resolveAll params
    let ret ← match ret with
      | some t => resolve t
      | none => pure (some .void)
    return do return .function (signature (unnamedParams variadic (← types)) (← ret) false false)
  | .tuple ts _ => return (← resolveAll ts).map .tuple

/-! ## Templates -/

/-- The type of a type expression, or void. -/
def resolveOrVoid (t : TypeExpr) : Check Ty := return (← resolve t).getD .void

def resolveParams : List Syntax.Param → Check (List (Param Ty))
  | [] => return []
  | p :: ps => do
    let t ← resolveOrVoid p.type
    let first : Param Ty :=
      ⟨p.name.name, if p.variadic then .slice t else t, p.mutable, p.variadic, p.default.isSome⟩
    return first :: (← resolveParams ps)

/-- The signature of a declared function; parts without a type are void. -/
def resolveSignature (params : List Syntax.Param) (ret : ReturnType) (receiver : Option Receiver)
    (isUnsafe : Bool) : Check FnSig := do
  let params ← resolveParams params
  let ret ← match ret.type with
    | some t => resolveOrVoid t
    | none => pure .void
  return signature params ret receiver.isSome isUnsafe

/-- Runs a check quietly at package level, in a new frame of bindings. -/
def inTemplate (frame : List (String × Ty)) (x : Check α) : Check α :=
  inContext (.template frame) (quietly x)

/-- The signature of a function under type arguments of its owner and its own. -/
def instantiateSig (id : FuncId) (ownerTypes types : List Ty) : Check FnSig := do
  let p ← package
  let f := p.func id
  if ownerTypes.isEmpty && types.isEmpty then return f.sig
  inTemplate ((p.ownerGenerics f).zip ownerTypes ++ f.generics.zip types)
    (resolveSignature f.decl.params f.decl.ret f.decl.receiver f.decl.isUnsafe)

def fieldTypes : List Syntax.Field → Check (List (String × Ty))
  | [] => return []
  | f :: fs => do
    let t ← resolveOrVoid f.type
    return (f.name.name, t) :: (← fieldTypes fs)

/-- Names and types of the fields of a struct under type arguments. -/
def structFields (id : StructId) (types : List Ty) : Check (List (String × Ty)) := do
  let info := (← package).struct id
  if types.isEmpty then return info.fields.map fun f => (f.name, f.type)
  inTemplate (info.generics.zip types) (fieldTypes info.decl.fields)

end JaneCheck.Check
