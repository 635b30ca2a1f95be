import JaneCheck.Check.Resolve

/-!
# Members and elements

`base.name` is an item of an enum, a field, a method or the length of something
enumerable; `base[i]` is an element.
-/

namespace JaneCheck.Check

open Syntax (Expr Ident)

inductive Member where
  | value (v : Value)
  /-- A method of a struct that has the given type arguments. -/
  | method (id : FuncId) (owner : List Ty)

def noMember (name : Ident) : Check (Option Member) := refuse (.unknownMember name.name) name.span

/-- The struct that a type without modifiers is. -/
def pureStruct? (t : Ty) : Option (StructId × List Ty) := if t.isPure then t.struct? else none

/-- A member of a type: an item of an enum, or a method without a receiver. -/
def typeMember (t : Ty) (name : Ident) : Check (Option Member) := do
  let p ← package
  match t.enum? with
  | some id =>
    match (p.enum id).items.lookup name.name with
    | some c => return some (.value (.ofConst t c))
    | none => noMember name
  | none =>
    match pureStruct? t with
    | some (id, types) =>
      match p.method? id name.name with
      | some f =>
        if (p.func f).receiver?.isNone then return some (.method f types) else noMember name
      | none => noMember name
    | none => noMember name

/-- The length of something enumerable; a constant for a constant text and for
an array of known size. -/
def lengthOf (constant : Option Const) (t : Ty) : Value :=
  let known : Option Const :=
    match constant with
    | some (.text s) => some (.int (Int64.ofNat s.utf8ByteSize))
    | _ => if t.isArray then t.size?.map fun n => .int n.toInt64 else none
  { Value.ofType (.base .int) with constant := known }

def isEnumerable (t : Ty) : Bool := t.isText || t.isSlice || t.isArray || t.isMap

/-- A field of a struct, or a method with a receiver. -/
def structMember (id : StructId) (types : List Ty) (isLvalue mutable : Bool) (name : Ident) :
    Check (Option Member) := do
  let p ← package
  match (← structFields id types).lookup name.name with
  | some t => return some (.value (if isLvalue then .place t mutable else .ofType t))
  | none =>
    match p.method? id name.name with
    | some f =>
      if (p.func f).receiver?.isSome then return some (.method f types) else noMember name
    | none => noMember name

def traitMember (id : TraitId) (name : Ident) : Check (Option Member) := do
  match ((← package).trait id).methods.find? (·.name == name.name) with
  | some m => return some (.value { Value.ofType (.function m.sig) with isMethod := true })
  | none => noMember name

/-- A member of a value. What a reference or pointer leads to may be written. -/
def valueMember (base : Value) (name : Ident) (span : Span) : Check (Option Member) := do
  let through := base.type.isReference || base.type.isExplicitPointer
  if base.type.isExplicitPointer then requireUnsafe span
  let t := if through then base.type.elem else base.type
  if name.name == "len" && isEnumerable t then return some (.value (lengthOf base.constant t))
  match pureStruct? t, t.trait? with
  | some (id, types), _ =>
    structMember id types (base.isLvalue || through) (base.mutable || through) name
  | none, some id => if t.isPure then traitMember id name else noMember name
  | none, none => noMember name

def member (base : Value) (name : Ident) (span : Span) : Check (Option Member) :=
  if base.isType then typeMember base.type name else valueMember base name span

/-! ## Elements -/

/-- Checks that an index is an integer and, if known, not negative. -/
def checkIndex (i : Value) (span : Span) : Check Bool := do
  if !i.type.isPure || !i.type.category.isInteger then
    report (.incompatible "int" i.type.kind) span
    return false
  match i.constant with
  | some (.int n) =>
    if n.toInt < 0 then
      report .overflow span
      return false
    return true
  | _ => return true

/-- A byte of a text. -/
def byteAt (text index : Option Const) (span : Span) : Check Value := do
  let byte : Ty := .base .u8
  match text, index with
  | some (.text s), some n =>
    match s.toUTF8.data[n.toUInt64.toNat]? with
    | some b => return .ofConst byte (.uint b.toUInt64)
    | none =>
      report .overflow span
      return .ofType byte
  | _, _ => return .ofType byte

/-- The element of `base` at `i`. -/
def element (base i : Value) (indexSpan span : Span) : Check Value := do
  let t := if base.type.isReference then base.type.elem else base.type
  let mutable := base.mutable || base.type.isReference
  if t.isExplicitPointer then
    requireUnsafe span
    discard (checkIndex i indexSpan)
    return .place t.elem true
  else if t.isSlice || t.isArray then
    if ← checkIndex i indexSpan then
      match t.size?, i.constant with
      | some size, some n =>
        if t.isArray && size.toNat ≤ n.toUInt64.toNat then report .overflow indexSpan
      | _, _ => pure ()
    return .place (t.component?.getD .void) mutable
  else if t.isMap then
    match t.components with
    | [key, value] =>
      discard (assign key i indexSpan)
      return .place value mutable
    | _ => return .void
  else if t.isText then
    if ← checkIndex i indexSpan then byteAt base.constant i.constant indexSpan
    else return .void
  else
    report (.notIndexable t.kind) span
    return .void

end JaneCheck.Check
