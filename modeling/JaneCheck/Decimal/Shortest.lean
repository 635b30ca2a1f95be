/-!
# Shortest decimals

`shortest m q` is the decimal with the fewest digits among those that read back
as the binary fraction `m · 2 ^ q`; of several it takes the one nearest to the
value and of two equally near ones the larger. `Decimal.text` is the form in
which a floating-point literal is shown in a message.
-/

namespace JaneCheck.Decimal

/-- A positive decimal `digits · 10 ^ exponent`. -/
structure Digits where
  digits : Nat
  exponent : Int
  deriving DecidableEq, Repr

/-- The place of the leading digit of `num / den`. -/
def leadingPlace (num den : Nat) : Int :=
  if den ≤ num then ((Nat.toDigits 10 (num / den)).length : Int) - 1
  else
    let places := (Nat.toDigits 10 (den / num)).length
    if num * Nat.pow 10 (places - 1) = den then 1 - (places : Int) else -(places : Int)

/-- The numbers that read back as a value lie between `low` and `high`, all
three over the common denominator `den`; the ends count when `closed`. -/
structure Interval where
  low : Nat
  value : Nat
  high : Nat
  den : Nat
  closed : Bool

/-- The interval of `m · 2 ^ q`, in quarters of the last binary place. Below a
power of two the neighbours are half as far apart. -/
def Interval.ofBinary (m : Nat) (q : Int) : Interval :=
  let up := Nat.pow 2 (q - 2).toNat
  let below := if m = Nat.pow 2 52 ∧ q > -1074 then 4 * m - 1 else 4 * m - 2
  { low := below * up, value := 4 * m * up, high := (4 * m + 2) * up,
    den := Nat.pow 2 (2 - q).toNat, closed := m % 2 == 0 }

/-- The multiple of `10 ^ k` that reads back as the value, if there is one. -/
def onGrid (iv : Interval) (k : Int) : Option Digits :=
  let scale := Nat.pow 10 (-k).toNat
  let unit := Nat.pow 10 k.toNat * iv.den
  let inside (d : Nat) : Bool :=
    if iv.closed then iv.low * scale ≤ d * unit && d * unit ≤ iv.high * scale
    else iv.low * scale < d * unit && d * unit < iv.high * scale
  let d := iv.value * scale / unit
  let below := iv.value * scale - d * unit
  let above := (d + 1) * unit - iv.value * scale
  match inside d, inside (d + 1) with
  | true, true => some ⟨if below < above then d else d + 1, k⟩
  | true, false => some ⟨d, k⟩
  | false, true => some ⟨d + 1, k⟩
  | false, false => none

/-- The first grid that holds a hit, from coarse to fine. -/
def firstGrid (iv : Interval) (k : Int) : Nat → Digits
  | 0 => ⟨iv.value / iv.den, 0⟩
  | n + 1 => (onGrid iv k).getD (firstGrid iv (k - 1) n)

/-- Drops up to `n` trailing zeros. -/
def Digits.trim (d : Digits) : Nat → Digits
  | 0 => d
  | n + 1 =>
    if d.digits % 10 = 0 ∧ d.digits ≠ 0 then Digits.trim ⟨d.digits / 10, d.exponent + 1⟩ n else d

/-- The shortest decimal of the positive number `m · 2 ^ q`. -/
def shortest (m : Nat) (q : Int) : Digits :=
  let iv := Interval.ofBinary m q
  (firstGrid iv (leadingPlace iv.value iv.den) 18).trim 18

/-- Mantissa and binary exponent of a positive finite number. -/
def decode (x : Float) : Nat × Int :=
  let bits := x.toBits.toNat
  let e : Nat := bits / Nat.pow 2 52 % Nat.pow 2 11
  let f : Nat := bits % Nat.pow 2 52
  if e = 0 then (f, -1074) else (f + Nat.pow 2 52, (e : Int) - 1075)

/-- Positional notation with at least one place after the point. -/
def positional (ds : List Char) (exponent : Int) : String :=
  let places := ds.length + exponent
  if exponent ≥ 0 then String.ofList (ds ++ List.replicate exponent.toNat '0') ++ ".0"
  else if places > 0 then
    String.ofList (ds.take places.toNat) ++ "." ++ String.ofList (ds.drop places.toNat)
  else "0." ++ String.ofList (List.replicate (-places).toNat '0' ++ ds)

/-- One digit before the point, and the exponent after `e`. -/
def scientific (ds : List Char) (exponent : Int) : String :=
  let e := toString (exponent + ds.length - 1)
  match ds with
  | [] => "0"
  | [d] => d.toString ++ "e" ++ e
  | d :: rest => d.toString ++ "." ++ String.ofList rest ++ "e" ++ e

/-- A number that is not negative: positional from `10 ^ -4` up to `10 ^ 16`,
with an exponent elsewhere. -/
def text (x : Float) : String :=
  if x.isNaN then "NaN"
  else if x.isInf then "inf"
  else if x == 0.0 then "0.0"
  else
    let (m, q) := decode x
    let d := shortest m q
    let ds := Nat.toDigits 10 d.digits
    if x ≥ 1e16 || x < 1e-4 then scientific ds d.exponent else positional ds d.exponent

end JaneCheck.Decimal
