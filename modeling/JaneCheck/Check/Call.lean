import JaneCheck.Call.Pairing
import JaneCheck.Check.Resolve
import JaneCheck.Generic.Inference

/-!
# Arguments

The arguments of calls and struct literals are paired with their slots, and
each is checked against the type of its slot. The type arguments of a generic
function follow from the types of its arguments.
-/

namespace JaneCheck.Check

open Syntax (Arg Expr)

def slots (params : List (Param Ty)) : List Slot := params.map fun p => ⟨p.name, p.variadic⟩

/-- What a spread argument spreads. -/
def spreadOperand : Expr → Expr
  | .spread e _ => e
  | e => e

/-- Values of arguments that were evaluated before, by place. -/
abbrev Known := List (Nat × Value)

/-- The type of one argument of a variadic parameter. -/
def elementType (t : Ty) : Ty := t.component?.getD .void

/-- Checks an argument against the type of its slot; a slot without a type takes
all. -/
def checkArg (mutable : Bool) (t : Ty) (arg : Arg) (known : Option Value) : Check Unit := do
  let evaluated ← match known with
    | some v => pure (some v)
    | none => evalChecked arg.value (some t)
  if let some v := evaluated then
    if !t.isVoid then
      if ← assign t v arg.value.span then checkMutability mutable t v arg.span

/-- Checks a spread argument against the type of the variadic parameter. -/
def checkSpread (t : Ty) (arg : Arg) (known : Option Value) : Check Unit := do
  let evaluated ← match known with
    | some v => pure (some v)
    | none => evalChecked (spreadOperand arg.value) (some t)
  if let some v := evaluated then
    if !t.isVoid then discard (assign t v arg.span)

def bindParam (args : List Arg) (known : Known) (span : Span) (param : Param Ty) :
    Bound → Check Unit
  | .empty =>
    if param.variadic || param.hasDefault then pure ()
    else report (.missingArgument param.name) span
  | .single i => args[i]?.forM fun arg => checkArg param.mutable param.type arg (known.lookup i)
  | .spread i => args[i]?.forM fun arg => checkSpread param.type arg (known.lookup i)
  | .many is =>
    is.forM fun i => args[i]?.forM fun arg =>
      checkArg param.mutable (elementType param.type) arg (known.lookup i)

def reportErrors (ds : List Diagnostic) : Check Unit := ds.forM fun d => report d.problem d.span

/-- Reports what is wrong with a pairing, then checks every argument. -/
def bindArgs (sig : FnSig) (args : List Arg) (pairing : Pairing) (known : Known) (span : Span) :
    Check Unit := do
  reportErrors pairing.errors
  (sig.params.zip pairing.bound).forM fun (param, bound) => bindParam args known span param bound

/-- Hands the components of a tuple to the parameters. -/
def spreadTuple (sig : FnSig) (types : List Ty) (argSpan span : Span) : Check Unit := do
  if sig.params.length < types.length then report .tooManyArguments argSpan
  else
    match sig.params[types.length]? with
    | some missing => report (.missingArgument missing.name) span
    | none =>
      (sig.params.zip types).forM fun (param, t) => discard (assign param.type (.ofType t) argSpan)

/-- An argument that may stand for all parameters: the only one, without a name. -/
def loneArg? (sig : FnSig) (args : List Arg) : Option Arg :=
  match args with
  | [arg] =>
    if arg.name.isNone && 1 < sig.params.length && !arg.value.isSpread then some arg else none
  | _ => none

/-- Checks the arguments of a call. -/
def callArgs (sig : FnSig) (args : List Arg) (span : Span) : Check Unit := do
  let pairing := pair (slots sig.params) args
  match loneArg? sig args with
  | none => bindArgs sig args pairing [] span
  | some arg =>
    match ← evalChecked arg.value none with
    | none => return
    | some v =>
      if v.type.isTuple then spreadTuple sig v.type.components arg.span span
      else bindArgs sig args pairing [(0, v)] span

/-! ## Inferred type arguments -/

/-- The arguments that a parameter received, each with its place and the type
that it is compared with. -/
def received (args : List Arg) (param : Param Ty) : Bound → List (Nat × Ty × Expr)
  | .empty => []
  | .single i => (args[i]?.map fun arg => (i, param.type, arg.value)).toList
  | .spread i => (args[i]?.map fun arg => (i, param.type, spreadOperand arg.value)).toList
  | .many is =>
    is.filterMap fun i => args[i]?.map fun arg => (i, elementType param.type, arg.value)

/-- Evaluates arguments and infers from their types. -/
def inferArgs : List (Nat × Ty × Expr) → Known → Inferred → Check (Known × Inferred)
  | [], known, out => return (known, out)
  | (i, t, e) :: rest, known, out => do
    let v ← eval e none
    inferArgs rest ((i, v) :: known) (Generic.infer t v.type out).2

/-- A call of a generic function whose type arguments follow from its arguments. -/
def inferCall (id : FuncId) (ownerTypes : List Ty) (args : List Arg) (span : Span) :
    Check Value := do
  let f := (← package).func id
  let template ← instantiateSig id ownerTypes []
  if !Generic.isInferable f.generics (template.params.map (·.type)) then
    report .inferenceFailed span
    return .void
  let pairing := pair (slots template.params) args
  let targets := (template.params.zip pairing.bound).flatMap fun (param, bound) =>
    received args param bound
  let (known, inferred) ← inferArgs targets [] {}
  inferred.conflicts.forM fun (name, kept, ignored) =>
    report (.inferenceConflict name kept.kind ignored.kind) span
  match inferred.ordered? f.generics with
  | none =>
    report .inferenceFailed span
    return .void
  | some types =>
    let sig ← instantiateSig id ownerTypes types
    request (.func id) types span
    bindArgs sig args pairing known span
    return .ofType sig.ret

/-! ## Struct literals -/

def bindField (args : List Arg) (span : Span) (name : String) (t : Ty) (hasDefault : Bool) :
    Bound → Check Unit
  | .single i | .spread i => do
    if let some arg := args[i]? then
      if let some v ← evalChecked arg.value (some t) then
        if !t.isVoid then discard (assign t v arg.value.span)
  | .many _ => pure ()
  | .empty =>
    if t.isReference then report (.referenceFieldUnset name) span
    else if hasDefault then pure ()
    else report (.missingArgument name) span

/-- Whether the declared fields have defaults, by place. -/
def bindFields (args : List Arg) (span : Span) :
    List (String × Ty) → List Bound → List FieldInfo → Check Unit
  | (name, t) :: fields, bound :: bounds, infos => do
    bindField args span name t (infos.head?.any (·.hasDefault)) bound
    bindFields args span fields bounds infos.tail
  | _, _, _ => return

/-- Checks the arguments of a struct literal; without any, only references have
to be set. -/
def structArgs (id : StructId) (fields : List (String × Ty)) (args : List Arg) (span : Span) :
    Check Unit := do
  if args.isEmpty then
    fields.forM fun (name, t) =>
      if t.isReference then report (.referenceFieldUnset name) span else pure ()
  else
    let pairing := pair (fields.map fun (name, _) => ⟨name, false⟩) args
    reportErrors pairing.errors
    bindFields args span fields pairing.bound ((← package).struct id).fields

end JaneCheck.Check
