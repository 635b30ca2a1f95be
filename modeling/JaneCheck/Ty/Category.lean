/-!
# Type categories

The category of a type says which family it belongs to. The numeric categories
form a lattice of widths; `int`, `uint` and `uintptr` take the width of the
target's words.
-/

namespace JaneCheck

/-- `raw` is memory of no type, `generic` a type parameter without a value. -/
inductive Category where
  | void | nil | any | bool | str
  | i8 | i16 | i32 | i64 | int
  | u8 | u16 | u32 | u64 | uint | uintptr
  | f32 | f64
  | raw | generic | fn | map | enum | struct | trait | slice | array | tuple
  deriving DecidableEq, Repr, Inhabited

/-- Width of a word of the target. -/
inductive WordSize where
  | w32 | w64
  deriving DecidableEq, Repr, Inhabited

def WordSize.bits : WordSize → Nat
  | .w32 => 32
  | .w64 => 64

namespace Category

def name : Category → String
  | .void => "void"
  | .nil => "nil"
  | .any => "any"
  | .bool => "bool"
  | .str => "str"
  | .i8 => "i8"
  | .i16 => "i16"
  | .i32 => "i32"
  | .i64 => "i64"
  | .int => "int"
  | .u8 => "u8"
  | .u16 => "u16"
  | .u32 => "u32"
  | .u64 => "u64"
  | .uint => "uint"
  | .uintptr => "uintptr"
  | .f32 => "f32"
  | .f64 => "f64"
  | .raw => "unsafe"
  | .generic => "generic"
  | .fn => "fn"
  | .map => "map"
  | .enum => "enum"
  | .struct => "struct"
  | .trait => "trait"
  | .slice => "slice"
  | .array => "array"
  | .tuple => "tuple"

/-- The categories that a program can name. -/
def nameable : List Category :=
  [.i8, .i16, .i32, .i64, .int, .u8, .u16, .u32, .u64, .uint, .uintptr, .f32, .f64, .bool, .str,
   .any, .void]

def ofName? (name : String) : Option Category := nameable.find? (·.name == name)

/-! ## Numbers -/

/-- The category of fixed width that a category of word width stands for. -/
def fixed (ws : WordSize) : Category → Category
  | .int => match ws with
    | .w64 => .i64
    | .w32 => .i32
  | .uint | .uintptr => match ws with
    | .w64 => .u64
    | .w32 => .u32
  | c => c

def isSigned : Category → Bool
  | .i8 | .i16 | .i32 | .i64 | .int => true
  | _ => false

def isUnsigned : Category → Bool
  | .u8 | .u16 | .u32 | .u64 | .uint | .uintptr => true
  | _ => false

def isInteger (c : Category) : Bool := c.isSigned || c.isUnsigned

def isFloat : Category → Bool
  | .f32 | .f64 => true
  | _ => false

def isNumeric (c : Category) : Bool := c.isInteger || c.isFloat

def isSignedNumeric (c : Category) : Bool := c.isSigned || c.isFloat

/-- Width in bits; zero for what is not a number. -/
def width (ws : WordSize) (c : Category) : Nat :=
  match c.fixed ws with
  | .i8 | .u8 => 8
  | .i16 | .u16 => 16
  | .i32 | .u32 | .f32 => 32
  | .i64 | .u64 | .f64 => 64
  | _ => 0

/-- The signed category of a width; 64 bits for any other number. -/
def signedOfWidth : Nat → Category
  | 8 => .i8
  | 16 => .i16
  | 32 => .i32
  | _ => .i64

def unsignedOfWidth : Nat → Category
  | 8 => .u8
  | 16 => .u16
  | 32 => .u32
  | _ => .u64

def floatOfWidth : Nat → Category
  | 32 => .f32
  | _ => .f64

/-! ## Ranges -/

/-- The least number of a signed category as a word, zero elsewhere. -/
def leastSigned (ws : WordSize) (c : Category) : Int64 :=
  match c.fixed ws with
  | .i8 => Int8.minValue.toInt64
  | .i16 => Int16.minValue.toInt64
  | .i32 => Int32.minValue.toInt64
  | .i64 => Int64.minValue
  | _ => 0

def greatestSigned (ws : WordSize) (c : Category) : Int64 :=
  match c.fixed ws with
  | .i8 => Int8.maxValue.toInt64
  | .i16 => Int16.maxValue.toInt64
  | .i32 => Int32.maxValue.toInt64
  | .i64 => Int64.maxValue
  | _ => 0

def greatestUnsigned (ws : WordSize) (c : Category) : UInt64 :=
  match c.fixed ws with
  | .u8 => 0xff
  | .u16 => 0xffff
  | .u32 => 0xffffffff
  | .u64 => 0xffffffffffffffff
  | _ => 0

def minSigned (ws : WordSize) (c : Category) : Int :=
  (c.leastSigned ws).toInt

def maxSigned (ws : WordSize) (c : Category) : Int :=
  (c.greatestSigned ws).toInt

def maxUnsigned (ws : WordSize) (c : Category) : Int :=
  (c.greatestUnsigned ws).toNat

/-- Greatest finite number of a width of 32 bits. -/
def maxSingle : Float := 3.4028234663852886e38

def maxDouble : Float := 1.7976931348623157e308

def maxFloat : Category → Float
  | .f32 => maxSingle
  | _ => maxDouble

/-- The narrowest signed width that holds `x`. -/
def signedWidth (x : Int64) : Nat :=
  let v := x.toInt
  if -128 ≤ v ∧ v < 128 then 8
  else if -32768 ≤ v ∧ v < 32768 then 16
  else if -2147483648 ≤ v ∧ v < 2147483648 then 32
  else 64

def unsignedWidth (x : UInt64) : Nat :=
  let v := x.toNat
  if v < 256 then 8 else if v < 65536 then 16 else if v < 4294967296 then 32 else 64

def floatWidth (x : Float) : Nat := if x ≥ -maxSingle && x ≤ maxSingle then 32 else 64

/-! ## Widening -/

/-- A value of category `given` can be stored in `target` as it is. -/
def accepts (ws : WordSize) (ignoreAny : Bool) (target given : Category) : Bool :=
  let given := given.fixed ws
  match target.fixed ws with
  | .any => !ignoreAny
  | .i8 => given == .i8
  | .i16 => [.i8, .i16, .u8].contains given
  | .i32 => [.i8, .i16, .i32, .u8, .u16].contains given
  | .i64 => [.i8, .i16, .i32, .i64, .u8, .u16, .u32].contains given
  | .u8 => given == .u8
  | .u16 => [.u8, .u16].contains given
  | .u32 => [.u8, .u16, .u32].contains given
  | .u64 => [.u8, .u16, .u32, .u64].contains given
  | .f32 => given == .f32 || given.isInteger
  | .f64 => given == .f64 || given == .f32 || given.isInteger
  | .bool => given == .bool
  | .str => given == .str
  | .nil => given == .nil
  | _ => false

/-- The first operand is the wider one, and decides the type of the result. -/
def outranks (ws : WordSize) (first second : Category) : Bool :=
  let second := second.fixed ws
  match first.fixed ws with
  | .i16 => second == .u8
  | .i32 => [.i8, .i16].contains second
  | .i64 => [.i8, .i16, .i32].contains second
  | .u16 => second == .u8
  | .u32 => [.u8, .u16].contains second
  | .u64 => [.u8, .u16, .u32].contains second
  | .f32 => second != .any && second != .f64
  | .f64 => second != .any
  | .enum | .any => true
  | _ => false

/-- The category of a shift of constants, which depends on the amount alone. -/
def ofShift (amount : Nat) : Category :=
  if amount ≤ 6 then .i8
  else if amount = 7 then .u8
  else if amount ≤ 14 then .i16
  else if amount = 15 then .u16
  else if amount ≤ 30 then .i32
  else if amount = 31 then .u32
  else if amount ≤ 62 then .i64
  else if amount = 63 then .u64
  else if amount ≤ 127 then .f32
  else .f64

end Category

end JaneCheck
