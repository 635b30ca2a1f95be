import JaneCheck.Ty.Category

/-!
# Types

A type has a category and a canonical text, its kind; two types are equal when
both agree. A pointer or a reference keeps the category, the components, the
signature and the definition of what it leads to, and shows only in the kind
and in the shape.

`base` is a category taken alone. The pointer to memory of no type, `rawPointer`,
is the pointer to `base .raw` and counts as one atom: it has no modifiers.
-/

namespace JaneCheck

abbrev StructId := Nat
abbrev TraitId := Nat
abbrev EnumId := Nat

/-- A resolved parameter. A variadic one has the type of the slice that its
body sees. -/
structure Param (τ : Type) where
  name : String
  type : τ
  mutable : Bool
  variadic : Bool
  hasDefault : Bool

structure Signature (τ : Type) where
  params : List (Param τ)
  ret : τ
  isMethod : Bool
  isGeneric : Bool
  isUnsafe : Bool

inductive Ty where
  | base (category : Category)
  | generic (name : String)
  | pointer (target : Ty)
  | reference (target : Ty)
  | slice (element : Ty)
  | array (element : Ty) (size : Option UInt64)
  | map (key value : Ty)
  | tuple (components : List Ty)
  | function (sig : Signature Ty)
  | struct (id : StructId) (name : String) (generics : List Ty)
  | trait (id : TraitId) (name : String)
  | enum (id : EnumId) (name : String)

inductive Modifier where
  | pointer | reference
  deriving DecidableEq, Repr

def Modifier.symbol : Modifier → String
  | .pointer => "*"
  | .reference => "&"

namespace Ty

abbrev void : Ty := .base .void
abbrev nil : Ty := .base .nil
abbrev bool : Ty := .base .bool
abbrev rawPointer : Ty := .pointer (.base .raw)

instance : Inhabited Ty := ⟨void⟩

def category : Ty → Category
  | .base c => c
  | .generic _ => .generic
  | .pointer t | .reference t => t.category
  | .slice _ => .slice
  | .array _ _ => .array
  | .map _ _ => .map
  | .tuple _ => .tuple
  | .function _ => .fn
  | .struct _ _ _ => .struct
  | .trait _ _ => .trait
  | .enum _ _ => .enum

/-! ## Kinds -/

/-- The size of an array between its brackets. -/
def sizeText : Option UInt64 → String
  | some n => toString n.toNat
  | none => "..."

mutual

/-- The canonical text. -/
def kind : Ty → String
  | .base c => c.name
  | .generic name => name
  | .pointer t => "*" ++ t.kind
  | .reference t => "&" ++ t.kind
  | .slice t => "[]" ++ t.kind
  | .array t size => "[" ++ sizeText size ++ "]" ++ t.kind
  | .map k v => "[" ++ k.kind ++ ":" ++ v.kind ++ "]"
  | .tuple ts => "(" ++ ", ".intercalate (kinds ts) ++ ")"
  | .function ⟨params, ret, _, _, isUnsafe⟩ =>
    (if isUnsafe then "unsafe fn(" else "fn(") ++ ", ".intercalate (paramKinds params) ++ ")" ++
      (if ret.category = .void then "" else " -> " ++ ret.kind)
  | .struct _ name [] => name
  | .struct _ name gs => name ++ "[" ++ ",".intercalate (kinds gs) ++ "]"
  | .trait _ name => name
  | .enum _ name => name

def kinds : List Ty → List String
  | [] => []
  | t :: ts => t.kind :: kinds ts

/-- A variadic parameter shows the type of one argument. -/
def paramKinds : List (Param Ty) → List String
  | [] => []
  | ⟨_, t, _, variadic, _⟩ :: ps =>
    (if variadic then "..." ++ t.elementKind else t.kind) :: paramKinds ps

/-- The kind of the elements of a slice or array. -/
def elementKind : Ty → String
  | .slice t | .array t _ => t.kind
  | .pointer t | .reference t => t.elementKind
  | _ => "?"

end

/-- Types are compared by category and kind. -/
def same (a b : Ty) : Bool := a.category == b.category && a.kind == b.kind

instance : BEq Ty := ⟨same⟩

/-! ## Parts -/

/-- What pointers and references finally lead to. -/
def core : Ty → Ty
  | .pointer t | .reference t => t.core
  | t => t

/-- Without the outermost pointer or reference. -/
def elem : Ty → Ty
  | .pointer t | .reference t => t
  | t => t

/-- The elements of a slice or array. -/
def component? (t : Ty) : Option Ty :=
  match t.core with
  | .slice e | .array e _ => some e
  | _ => none

/-- Key and value of a map, or the components of a tuple. -/
def components (t : Ty) : List Ty :=
  match t.core with
  | .map k v => [k, v]
  | .tuple ts => ts
  | _ => []

def size? (t : Ty) : Option UInt64 :=
  match t.core with
  | .array _ n => n
  | _ => none

def signature? (t : Ty) : Option (Signature Ty) :=
  match t.core with
  | .function sig => some sig
  | _ => none

def struct? (t : Ty) : Option (StructId × List Ty) :=
  match t.core with
  | .struct id _ gs => some (id, gs)
  | _ => none

def trait? (t : Ty) : Option TraitId :=
  match t.core with
  | .trait id _ => some id
  | _ => none

def enum? (t : Ty) : Option EnumId :=
  match t.core with
  | .enum id _ => some id
  | _ => none

/-! ## Shape -/

def leadingModifiers : Ty → List Modifier
  | .pointer t => .pointer :: t.leadingModifiers
  | .reference t => .reference :: t.leadingModifiers
  | _ => []

def isRawPointer : Ty → Bool
  | .pointer (.base .raw) => true
  | _ => false

/-- Pointers and references in front of the type. -/
def modifiers (t : Ty) : List Modifier := if t.isRawPointer then [] else t.leadingModifiers

def isExplicitPointer (t : Ty) : Bool :=
  match t with
  | .pointer _ => !t.isRawPointer
  | _ => false

def isPointer : Ty → Bool
  | .pointer _ => true
  | _ => false

def isReference : Ty → Bool
  | .reference _ => true
  | _ => false

def isSlice : Ty → Bool
  | .slice _ => true
  | _ => false

def isArray : Ty → Bool
  | .array _ _ => true
  | _ => false

def isMap : Ty → Bool
  | .map _ _ => true
  | _ => false

def isFunction : Ty → Bool
  | .function _ | .base .fn => true
  | _ => false

def isVoid (t : Ty) : Bool := t.category == .void

def isTuple (t : Ty) : Bool := t.category == .tuple

def isStruct (t : Ty) : Bool := t.category == .struct

def isTrait (t : Ty) : Bool := t.category == .trait

def isEnum (t : Ty) : Bool := t.category == .enum

def isNil (t : Ty) : Bool := t.category == .nil

/-- The type that takes every value. -/
def isAny : Ty → Bool
  | .base .any => true
  | _ => false

/-- Neither a pointer, a reference, a container nor a function. -/
def isPure (t : Ty) : Bool :=
  !t.isPointer && !t.isReference && !t.isSlice && !t.isArray && !t.isMap && !t.isFunction

def isNilCompatible (t : Ty) : Bool :=
  t.isNil || t.isFunction || t.isPointer || t.isSlice || t.isTrait || t.isMap

/-- Copies share their storage. -/
def isShared (t : Ty) : Bool := t.isSlice || t.isPointer || t.isReference

def validForReference (t : Ty) : Bool :=
  !(t.isEnum || t.isPointer || t.isReference || t.isArray)

/-- A number without modifiers. -/
def isNumber (t : Ty) : Bool := t.isPure && t.category.isNumeric

def isText (t : Ty) : Bool := t.isPure && t.category == .str

def isBoolean (t : Ty) : Bool := t.isPure && t.category == .bool

def allowedForConst (t : Ty) : Bool :=
  t.isPure && (t.category == .str || t.category == .bool || t.category.isNumeric)

mutual

/-- A type parameter without a value occurs in the type. -/
def hasGeneric : Ty → Bool
  | .base c => c == .generic
  | .generic _ => true
  | .pointer t | .reference t | .slice t | .array t _ => t.hasGeneric
  | .map k v => k.hasGeneric || v.hasGeneric
  | .tuple ts => anyGeneric ts
  | .function ⟨params, ret, _, _, _⟩ => paramsGeneric params || ret.hasGeneric
  | .struct _ _ gs => anyGeneric gs
  | .trait _ _ | .enum _ _ => false

def anyGeneric : List Ty → Bool
  | [] => false
  | t :: ts => t.hasGeneric || anyGeneric ts

def paramsGeneric : List (Param Ty) → Bool
  | [] => false
  | ⟨_, t, _, _, _⟩ :: ps => t.hasGeneric || paramsGeneric ps

end

end Ty

abbrev FnSig := Signature Ty

namespace Signature

/-- The place of the first variadic parameter. -/
def variadicIndex? (sig : FnSig) : Option Nat := sig.params.findIdx? (·.variadic)

end Signature

/-- What the rules on types need to know about definitions. -/
structure Definitions where
  implements : StructId → TraitId → Bool
  /-- A method of the trait takes its receiver by reference. -/
  byReference : TraitId → Bool
  enumBase : EnumId → Ty

end JaneCheck
