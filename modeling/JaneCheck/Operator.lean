import JaneCheck.Diagnostic
import JaneCheck.Syntax
import JaneCheck.Ty.Compat
import JaneCheck.Value

/-!
# Binary operators

The type of a binary operation, and its constant when both operands are known.
The operands select a domain (functions, containers, pointers, enums, …,
numbers), the first that one of them belongs to; the domain says which
operators it has. Constants fold as signed words, unsigned words or floats, the
left operand deciding which. Of a known result the type is the narrowest that
holds it.

A result comes with the problems found on the way.
-/

namespace JaneCheck

open Syntax (BinOp)

/-- What the rules on values need besides the values. -/
structure Setting where
  defs : Definitions
  wordSize : WordSize

namespace Operator

abbrev Outcome := Value × List Problem

def reject (p : Problem) : Outcome := (.void, [p])

def accept (v : Value) : Outcome := (v, [])

def ofType (t : Ty) : Outcome := accept (.ofType t)

def incompatible (a b : Ty) : Outcome := reject (.incompatible a.kind b.kind)

def notFor (op : BinOp) (type : String) : Outcome := reject (.operatorNotForType op.symbol type)

def compatible (s : Setting) (ignoreAny : Bool) (l r : Ty) : Bool :=
  Compat.check ⟨s.defs, s.wordSize, ignoreAny, true⟩ l r == .compatible

/-- Only `==` and `!=`. -/
def equalityOnly (op : BinOp) (type : String) : Outcome :=
  match op with
  | .eq | .ne => ofType .bool
  | _ => notFor op type

/-- The type of the wider operand, the left one in doubt. -/
def promoted (s : Setting) (l r : Ty) : Ty :=
  if Category.outranks s.wordSize r.category l.category then r else l

/-! ## Folding -/

def satisfies (op : BinOp) (o : Ordering) : Bool :=
  match op with
  | .eq => o == .eq
  | .ne => o != .eq
  | .lt => o == .lt
  | .le => o != .gt
  | .gt => o == .gt
  | _ => o != .lt

def compareFloats (x y : Float) : Option Ordering :=
  if x < y then some .lt else if x == y then some .eq else if x > y then some .gt else none

/-- The order of two constants, the right one taken as the sort of the left. -/
def order? (a b : Const) : Option Ordering :=
  match a with
  | .float x => compareFloats x b.toFloat
  | .int x => some (compare x.toInt b.toInt64.toInt)
  | .uint x => some (compare x.toNat b.toUInt64.toNat)
  | _ => none

def comparison (l : Value) (op : BinOp) (r : Value) : Outcome :=
  let folded := do
    let o ← order? (← l.constant) (← r.constant)
    return Const.bool (satisfies op o)
  accept { Value.ofType .bool with constant := folded }

/-- A folded constant with the problem it caused, or nothing when the operator
has no meaning for the sort. -/
abbrev Folded := Option Const × List Problem

def foldFloats (op : BinOp) (a b : Float) : Folded :=
  match op with
  | .add => (some (.float (a + b)), [])
  | .sub => (some (.float (a - b)), [])
  | .mul => (some (.float (a * b)), [])
  | .div => if b == 0.0 then (some (.float 0.0), [.divideByZero]) else (some (.float (a / b)), [])
  | _ => (none, [])

def foldSigned (op : BinOp) (a b : Int64) : Folded :=
  match op with
  | .add => (some (.int (a + b)), [])
  | .sub => (some (.int (a - b)), [])
  | .mul => (some (.int (a * b)), [])
  | .div => if b = 0 then (some (.int 0), [.divideByZero]) else (some (.int (a / b)), [])
  | .mod => if b = 0 then (some (.int 0), [.divideByZero]) else (some (.int (a % b)), [])
  | .bitAnd => (some (.int (a &&& b)), [])
  | .bitOr => (some (.int (a ||| b)), [])
  | .bitXor => (some (.int (a ^^^ b)), [])
  | _ => (none, [])

def foldUnsigned (op : BinOp) (a b : UInt64) : Folded :=
  match op with
  | .add => (some (.uint (a + b)), [])
  | .sub => (some (.uint (a - b)), [])
  | .mul => (some (.uint (a * b)), [])
  | .div => if b = 0 then (some (.uint 0), [.divideByZero]) else (some (.uint (a / b)), [])
  | .mod => if b = 0 then (some (.uint 0), [.divideByZero]) else (some (.uint (a % b)), [])
  | .bitAnd => (some (.uint (a &&& b)), [])
  | .bitOr => (some (.uint (a ||| b)), [])
  | .bitXor => (some (.uint (a ^^^ b)), [])
  | _ => (none, [])

/-- The left operand decides the sort of the result. -/
def fold (op : BinOp) (a b : Const) : Folded :=
  match a with
  | .float x => foldFloats op x b.toFloat
  | .int x => foldSigned op x b.toInt64
  | .uint x => foldUnsigned op x b.toUInt64
  | _ => (none, [])

def arithmetic (l : Value) (op : BinOp) (r : Value) (type : Ty) : Outcome :=
  match l.constant, r.constant with
  | some a, some b =>
    let (folded, problems) := fold op a b
    ({ Value.ofType type with constant := folded }, problems)
  | _, _ => ofType type

/-- Shift amounts are whole numbers that are not negative. -/
def validAmount (r : Value) : Bool :=
  r.type.isPure && r.type.category.isInteger &&
    (match r.constant with
      | none => true
      | some (.int x) => 0 ≤ x.toInt
      | some (.uint _) => true
      | some _ => false)

/-- Negative words keep their sign; everything else shifts as an unsigned word. -/
def foldShift (left : Bool) (a : Const) (amount : UInt64) : Const :=
  let unsigned :=
    let x := a.toUInt64
    if amount.toNat ≥ 64 then Const.uint 0
    else .uint (if left then x <<< amount else x >>> amount)
  match a with
  | .int x =>
    if x.toInt < 0 then
      if amount.toNat ≥ 64 then .int (if left then 0 else -1)
      else .int (if left then x <<< amount.toInt64 else x >>> amount.toInt64)
    else unsigned
  | _ => unsigned

def shift (l : Value) (op : BinOp) (r : Value) : Outcome :=
  let problems := if validAmount r then [] else [.shiftMustBeUnsigned]
  match l.constant, r.constant with
  | some a, some b =>
    let amount := b.toUInt64
    (.ofConst (.base (.ofShift amount.toNat)) (foldShift (op == .shl) a amount), problems)
  | _, _ => (.ofType (.base .u64), problems)

/-! ## Domains -/

def logical (l : Value) (op : BinOp) (r : Value) : Outcome :=
  if l.type.isBoolean && r.type.isBoolean then
    let folded := do
      let a ← l.constant
      let b ← r.constant
      return Const.bool (if op == .and then a.isTrue && b.isTrue else a.isTrue || b.isTrue)
    accept { Value.ofType .bool with constant := folded }
  else reject .logicalNotBool

/-- Functions are compared with `nil` only. -/
def functions (l : Value) (op : BinOp) (r : Value) : Outcome :=
  if !l.type.isNil && !r.type.isNil then incompatible r.type l.type
  else equalityOnly op "nil"

/-- Containers and traits have equality with what is compatible. -/
def comparable (s : Setting) (l : Value) (op : BinOp) (r : Value) : Outcome :=
  if compatible s true l.type r.type then
    equalityOnly op (if l.type.isNil then r.type.kind else l.type.kind)
  else incompatible r.type l.type

def pointers (s : Setting) (l : Value) (op : BinOp) (r : Value) : Outcome :=
  if compatible s true l.type r.type then
    match op with
    | .add | .sub => ofType (if l.type.isPointer then l.type else r.type)
    | _ => if op.isComparison then ofType .bool else notFor op "pointer"
  else incompatible r.type l.type

def structs (l : Value) (op : BinOp) (r : Value) : Outcome :=
  if l.type.kind == r.type.kind then equalityOnly op "struct" else incompatible r.type l.type

def nils (s : Setting) (l : Value) (op : BinOp) (r : Value) : Outcome :=
  if compatible s false l.type r.type then equalityOnly op "nil" else incompatible r.type l.type

def booleans (s : Setting) (l : Value) (op : BinOp) (r : Value) : Outcome :=
  if compatible s true l.type r.type then
    let (v, problems) := equalityOnly op "bool"
    if v.type.isVoid then (v, problems)
    else
      let folded := do
        let a ← l.constant
        let b ← r.constant
        return Const.bool ((a == b) == (op == .eq))
      ({ v with constant := folded }, problems)
  else incompatible r.type l.type

def bothTexts (l r : Value) : Option (String × String) :=
  match l.constant, r.constant with
  | some (.text a), some (.text b) => some (a, b)
  | _, _ => none

def texts (l : Value) (op : BinOp) (r : Value) : Outcome :=
  if l.type.isText && r.type.isText then
    let known := bothTexts l r
    match op with
    | .add =>
      accept { Value.ofType (.base .str) with constant := known.map fun (a, b) => .text (a ++ b) }
    | .eq | .ne =>
      accept { Value.ofType .bool with
        constant := known.map fun (a, b) => .bool ((a == b) == (op == .eq)) }
    | _ => notFor op "str"
  else incompatible l.type r.type

def numbers (s : Setting) (signed : Bool) (l : Value) (op : BinOp) (r : Value) : Outcome :=
  if l.type.category.isNumeric && r.type.category.isNumeric then
    match op with
    | .add | .sub | .mul | .div | .mod | .bitAnd | .bitOr | .bitXor =>
      arithmetic l op r (promoted s l.type r.type)
    | .shl | .shr => shift l op r
    | _ =>
      if op.isComparison then comparison l op r
      else reject (if signed then .operatorNotForInt op.symbol else .operatorNotForUint op.symbol)
  else incompatible r.type l.type

/-- `%` with a float needs an integer on one side, which becomes the left one,
and a whole number on the other. -/
def floatMod (s : Setting) (l r : Value) : Option Outcome :=
  let (l, r) := if l.type.category.isInteger then (l, r) else (r, l)
  let fits (test : Const → Bool) := r.constant.all test
  if !l.type.category.isInteger then none
  else if l.type.category.isSigned then
    if fits Const.fitsInt64 then some (numbers s true l .mod r)
    else if fits Const.fitsUInt64 then some (numbers s false l .mod r)
    else none
  else if fits Const.fitsInt64 || fits Const.fitsUInt64 then some (numbers s false l .mod r)
  else none

/-- The type of a quotient: the float side takes the type of an integer side. -/
def quotientType (s : Setting) (l r : Ty) : Ty :=
  match l.category.isInteger, r.category.isInteger with
  | true, false => promoted s l l
  | false, true => promoted s r r
  | _, _ => promoted s l r

def floats (s : Setting) (l : Value) (op : BinOp) (r : Value) : Outcome :=
  if l.type.category.isNumeric && r.type.category.isNumeric then
    match op with
    | .add | .sub | .mul => arithmetic l op r (promoted s l.type r.type)
    | .div => arithmetic l op r (quotientType s l.type r.type)
    | .mod => (floatMod s l r).getD (reject (.operatorNotForFloat op.symbol))
    | _ =>
      if op.isComparison then comparison l op r else reject (.operatorNotForFloat op.symbol)
  else incompatible r.type l.type

/-- The first domain that an operand belongs to; `enums` handles enums. -/
def dispatch (s : Setting) (enums : Value → Value → Outcome) (l : Value) (op : BinOp) (r : Value) :
    Outcome :=
  let either (p : Ty → Bool) := p l.type || p r.type
  let isOf (c : Category) (t : Ty) := t.category == c
  if op == .and || op == .or then logical l op r
  else if either Ty.isFunction then functions l op r
  else if either Ty.isArray || either Ty.isSlice || either Ty.isMap then comparable s l op r
  else if either Ty.isPointer then pointers s l op r
  else if either Ty.isEnum then enums l r
  else if either Ty.isStruct then structs l op r
  else if either Ty.isTrait then comparable s l op r
  else if either Ty.isNil then nils s l op r
  else if either (isOf .any) then equalityOnly op "any"
  else if either (isOf .bool) then booleans s l op r
  else if either (isOf .str) then texts l op r
  else if either (·.category.isFloat) then floats s l op r
  else if either (·.category.isUnsigned) then numbers s false l op r
  else if either (·.category.isSignedNumeric) then numbers s true l op r
  else incompatible l.type r.type

/-- An enum as a value of its base. -/
def asBase (s : Setting) (v : Value) : Value :=
  match v.type.enum? with
  | some id => { v with type := s.defs.enumBase id }
  | none => v

/-- Enums operate as their bases, which may not be enums themselves. -/
def operate (s : Setting) (l : Value) (op : BinOp) (r : Value) : Outcome :=
  let onEnums (l r : Value) : Outcome := incompatible r.type l.type
  let onBases (l r : Value) : Outcome :=
    let l := asBase s l
    let r := asBase s r
    if l.type.isEnum || r.type.isEnum then onEnums l r else dispatch s onEnums l op r
  dispatch s onBases l op r

/-- The narrowest type that holds a number. -/
def narrowest? : Const → Option Ty
  | .float x => some (.base (.floatOfWidth (Category.floatWidth x)))
  | .int x => some (.base (.signedOfWidth (Category.signedWidth x)))
  | .uint x => some (.base (.unsignedOfWidth (Category.unsignedWidth x)))
  | _ => none

/-- A result is constant when both operands are. A known number takes the
narrowest type, unless a rune took part. -/
def settle (l r v : Value) : Value :=
  if v.type.isVoid || !l.isConst || !r.isConst then { v with constant := none }
  else
    match v.constant with
    | none => v
    | some c =>
      if l.isRune || r.isRune then { v with isRune := l.isRune && r.isRune }
      else
        match narrowest? c with
        | some t => { v with type := t }
        | none => v

/-- The value of `l op r`. -/
def solve (s : Setting) (l : Value) (op : BinOp) (r : Value) : Outcome :=
  let (v, problems) := operate s l op r
  (settle l r v, problems)

end Operator

end JaneCheck
