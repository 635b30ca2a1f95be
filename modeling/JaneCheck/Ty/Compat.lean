import JaneCheck.Ty

/-!
# Compatibility

Whether a value of one type may stand where another is required. The rules are
tried in a fixed order: traits, references, pointers, slices, arrays, maps,
what takes `nil`, enums, structs, tuples, and last the lattice of categories.
-/

namespace JaneCheck

inductive Compatibility where
  | compatible
  | incompatible
  /-- A struct stands by value for a trait that needs a reference. -/
  | needsReference
  deriving DecidableEq, Repr

def Compatibility.ofBool (b : Bool) : Compatibility := if b then .compatible else .incompatible

/-- `ignoreAny` takes from `any` its power to accept everything; with
`allowAssign` a plain value may be stored through a reference. -/
structure Compat where
  defs : Definitions
  wordSize : WordSize
  ignoreAny : Bool
  allowAssign : Bool

namespace Compat

/-- The pointer rule, `l` being a pointer. -/
def pointers (l r : Ty) : Bool :=
  r.isNil || (if l.isRawPointer then r.isPointer else l.kind == r.kind)

/-- An array without a size takes any size. -/
def arrays (l r : Ty) : Bool :=
  match l, r with
  | .array a m, .array b n => (m.isNone || m == n) && a == b
  | _, _ => false

def structs (l r : Ty) : Bool :=
  match l.struct?, r.struct? with
  | some (i, gs), some (j, hs) => i == j && l.modifiers == r.modifiers && gs == hs
  | _, _ => false

/-- The trait rule, `l` being the trait. -/
def traits (k : Compat) (l r : Ty) : Compatibility :=
  if r.isNil then .compatible
  else
    match l.trait? with
    | none => .incompatible
    | some tr =>
      let value := if r.isReference then r.elem else r
      if value.isStruct then
        match value.struct? with
        | none => .incompatible
        | some (id, _) =>
          if !l.modifiers.isEmpty || !value.modifiers.isEmpty then .incompatible
          else if !k.defs.implements id tr then .incompatible
          else if k.defs.byReference tr && !r.isReference then .needsReference
          else .compatible
      else if value.isTrait && !r.isReference then
        .ofBool (value.trait? == some tr && l.modifiers == value.modifiers)
      else .incompatible

/-- The rules for two types of which none is a trait or a reference. -/
def plain (k : Compat) (l r : Ty) : Bool :=
  if l.isPointer || r.isPointer then
    if l.isPointer then pointers l r else pointers r l
  else if l.isSlice || r.isSlice then
    if r.isSlice then l.isNil || r.kind == l.kind else r.isNil || l.kind == r.kind
  else if l.isArray || r.isArray then
    arrays l r
  else if l.isMap || r.isMap then
    if r.isMap then l.isNil || r.kind == l.kind else r.isNil || l.kind == r.kind
  else if l.isNilCompatible then r.isNil
  else if r.isNilCompatible then l.isNil
  else if l.isEnum || r.isEnum then l == r
  else if l.isStruct || r.isStruct then
    structs l r
  else if l.isTuple || r.isTuple then l == r
  else Category.accepts k.wordSize k.ignoreAny l.category r.category

/-- A value of type `given` stands where `required` is asked for. -/
def check (k : Compat) (required given : Ty) : Compatibility :=
  if required.isTrait || given.isTrait then
    if given.isTrait && !required.isTrait then k.traits given required
    else k.traits required given
  else
    match required with
    | .reference target =>
      if required.kind == given.kind then .compatible
      else if !k.allowAssign then .incompatible
      else k.check target given
    | _ =>
      if given.isReference then .ofBool (required.kind == given.kind)
      else .ofBool (k.plain required given)

end Compat

end JaneCheck
