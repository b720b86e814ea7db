/-!
# Binary fractions

A finite float is a sign and a magnitude `mantissa * 2 ^ exponent`. This module takes the bits of a float apart; everything that prints a float starts from here and is exact from then on.
-/

namespace TwinShell.Decimal

/-- The magnitude `mantissa * 2 ^ exponent`. -/
structure Binary where
  mantissa : Nat
  exponent : Int
  deriving DecidableEq, Repr

/-- The exponent of the smallest positive float. -/
def leastExponent : Int := -1074

/-- The magnitude of a finite float. NaN and the infinities are no magnitude: test for them first. -/
def magnitude (x : Float) : Binary :=
  let bits := x.toBits.toNat
  let exponent := bits / 0x10000000000000 % 0x800
  let fraction := bits % 0x10000000000000
  if exponent = 0 then ⟨fraction, leastExponent⟩
  else ⟨0x10000000000000 + fraction, Int.ofNat exponent - 1075⟩

/-- Whether the sign bit is set; it is for `-0.0`. -/
def isNegative (x : Float) : Bool := 0x8000000000000000 ≤ x.toBits.toNat

/-- Whether a float is finite and has no fractional part. -/
def isWhole (x : Float) : Bool := x.isFinite && x.floor == x

end TwinShell.Decimal
