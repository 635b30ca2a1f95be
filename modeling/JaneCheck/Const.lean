import JaneCheck.Ty
import JaneCheck.Text.Quoted

/-!
# Constants

Values known while checking. Integers are signed or unsigned words of 64 bits
and wrap; `Const.pin` brings a constant into the representation of a numeric
type.
-/

namespace JaneCheck

inductive Const where
  | bool (value : Bool)
  | text (value : String)
  | int (value : Int64)
  | uint (value : UInt64)
  | float (value : Float)
  deriving BEq, Repr, Inhabited

/-- A finite number without a fraction. -/
def isWhole (x : Float) : Bool := x.isFinite && x.floor == x

namespace Const

def toFloat : Const → Float
  | .int v => v.toFloat
  | .uint v => v.toFloat
  | .float v => v
  | .bool _ | .text _ => 0.0

/-- A signed word; unsigned words wrap and floats saturate. -/
def toInt64 : Const → Int64
  | .int v => v
  | .uint v => v.toInt64
  | .float v => v.toInt64
  | .bool _ | .text _ => 0

/-- An unsigned word; signed words wrap and floats saturate. -/
def toUInt64 : Const → UInt64
  | .int v => v.toUInt64
  | .uint v => v
  | .float v => v.toUInt64
  | .bool _ | .text _ => 0

def isTrue : Const → Bool
  | .bool b => b
  | _ => false

def isNumeric : Const → Bool
  | .int _ | .uint _ | .float _ => true
  | .bool _ | .text _ => false

/-- The zero of the same sort. -/
def zero : Const → Const
  | .int _ => .int 0
  | .uint _ => .uint 0
  | .float _ => .float 0.0
  | .bool _ => .bool false
  | .text _ => .text ""

/-- The value is a whole number in the range of signed words. The upper end for
floats is `2 ^ 63`. -/
def fitsInt64 : Const → Bool
  | .int _ => true
  | .uint v => v.toNat < Nat.pow 2 63
  | .float v => isWhole v && v ≥ -9223372036854775808.0 && v ≤ 9223372036854775808.0
  | .bool _ | .text _ => false

def fitsUInt64 : Const → Bool
  | .int v => 0 ≤ v.toInt
  | .uint _ => true
  | .float v => isWhole v && v ≥ 0.0 && v ≤ 18446744073709551616.0
  | .bool _ | .text _ => false

/-- The sort of constant that a numeric category uses. -/
def castTo (c : Const) (category : Category) : Const :=
  if category.isFloat then .float c.toFloat
  else if category.isUnsigned then .uint c.toUInt64
  else if category.isSigned then .int c.toInt64
  else c

/-- The low bits of a word. -/
def lowBits (width : Nat) (v : UInt64) : UInt64 := v &&& ((1 <<< UInt64.ofNat width) - 1)

/-- The low bits of a word, the highest of them taken as the sign. -/
def signedBits (width : Nat) (v : Int64) : Int64 :=
  let shift := Int64.ofNat (64 - width)
  (v <<< shift) >>> shift

/-- The constant as a value of the type `t`: of its sort, and cut to its width. -/
def pin (ws : WordSize) (t : Ty) (c : Const) : Const :=
  if !t.isNumber || !c.isNumeric then c
  else
    let width := t.category.width ws
    match c.castTo t.category with
    | .uint v => .uint (if width < 64 then lowBits width v else v)
    | .int v => .int (if width < 64 then signedBits width v else v)
    | .float v => .float (if t.category == .f32 then v.toFloat32.toFloat else v)
    | other => other

/-- How a constant is shown; floats are never shown. -/
def text? : Const → Option String
  | .bool b => some (if b then "true" else "false")
  | .text s => some (Text.quoted s)
  | .int v => some (toString v.toInt)
  | .uint v => some (toString v.toNat)
  | .float _ => none

end Const

end JaneCheck
