import JaneCheck.Const

/-!
# Values

What an expression evaluates to: its type, its constant when it is known, and
what may be done with it.
-/

namespace JaneCheck

/-- `isLvalue` says that the value has a place and `mutable` that the place may
be written. A value may also name a method without its receiver, a generic
function, or a type. -/
structure Value where
  type : Ty
  constant : Option Const := none
  isLvalue : Bool := false
  mutable : Bool := false
  isRune : Bool := false
  isMethod : Bool := false
  isGenericFn : Bool := false
  isType : Bool := false

namespace Value

/-- A value of which only the type is known. -/
def ofType (t : Ty) : Value := { type := t }

def ofConst (t : Ty) (c : Const) : Value := { type := t, constant := some c }

/-- Stands for a value that could not be computed. -/
def void : Value := ofType .void

instance : Inhabited Value := ⟨void⟩

def isConst (v : Value) : Bool := v.constant.isSome

/-- A place of type `t`. -/
def place (t : Ty) (mutable : Bool) : Value :=
  { type := t, isLvalue := true, mutable := mutable }

end Value

end JaneCheck
