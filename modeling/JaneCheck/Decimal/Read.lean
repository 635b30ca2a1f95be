/-!
# Reading decimals

The binary fraction nearest to `m · 10 ^ e`. Decimals far outside the range of
the format are decided by their magnitude alone, so a huge exponent costs
nothing.
-/

namespace JaneCheck.Decimal

/-- The number that a list of decimal digits denotes, after `acc`. -/
def ofDigits (base : Nat) (acc : Nat) : List Nat → Nat
  | [] => acc
  | d :: ds => ofDigits base (acc * base + d) ds

/-- Value of a hexadecimal digit; other characters count as zero. -/
def digitValue (c : Char) : Nat :=
  if '0' ≤ c ∧ c ≤ '9' then c.toNat - '0'.toNat
  else if 'a' ≤ c ∧ c ≤ 'f' then c.toNat - 'a'.toNat + 10
  else if 'A' ≤ c ∧ c ≤ 'F' then c.toNat - 'A'.toNat + 10
  else 0

/-- The number written by digits of the given base. -/
def ofText (base : Nat) (cs : List Char) : Nat := ofDigits base 0 (cs.map digitValue)

def infinity : Float := 1.0 / 0.0

/-- `m · 10 ^ e`, rounded to nearest. Below `10 ^ -330` it is zero and from
`10 ^ 310` on it is infinite. -/
def toFloat (m : Nat) (e : Int) : Float :=
  let magnitude := e + (Nat.toDigits 10 m).length
  if m = 0 || magnitude < -330 then 0.0
  else if magnitude > 310 then infinity
  else Float.ofScientific m (e < 0) e.natAbs

end JaneCheck.Decimal
