import TwinShell.Decimal.Binary

/-!
# Shortest digits

The shortest decimal of a float is the one with the fewest digits among the decimals that read back as that float, and the nearest of those. The reals that read back as `m * 2 ^ q` are an interval around it whose ends count exactly when `m` is even. For one, two, … digits the two neighbours of the value on the decimal grid are tested in exact arithmetic: the first grid with a hit wins, of two hits the nearer, and an exact tie goes by the rule given.
-/

namespace TwinShell.Decimal

/-- Where a value halfway between two neighbours goes. -/
inductive Tie where
  | toEven
  | up
  deriving DecidableEq, Repr

/-- The decimal `digits * 10 ^ scale`. -/
structure Scaled where
  digits : Nat
  scale : Int
  deriving DecidableEq, Repr

/-- A value and the ends of the interval that reads back as it, over one denominator. -/
structure Interval where
  low : Nat
  value : Nat
  high : Nat
  denominator : Nat
  closed : Bool
  deriving DecidableEq, Repr

/-- The reals that read back as `b`, for a positive magnitude. Below a power of two the neighbour is only half as far. -/
def Interval.around (b : Binary) : Interval :=
  let below := if b.mantissa = 0x10000000000000 ∧ leastExponent < b.exponent then 1 else 2
  let up := Nat.pow 2 (b.exponent - 2).toNat
  { low := (4 * b.mantissa - below) * up
    value := 4 * b.mantissa * up
    high := (4 * b.mantissa + 2) * up
    denominator := Nat.pow 2 (2 - b.exponent).toNat
    closed := b.mantissa % 2 = 0 }

/-- The interval measured in units of `10 ^ scale`. -/
def Interval.inUnits (i : Interval) (scale : Int) : Interval :=
  let up := Nat.pow 10 (-scale).toNat
  { i with
    low := i.low * up
    value := i.value * up
    high := i.high * up
    denominator := i.denominator * Nat.pow 10 scale.toNat }

def Interval.holds (i : Interval) (n : Nat) : Bool :=
  let x := n * i.denominator
  if i.closed then i.low ≤ x && x ≤ i.high else i.low < x && x < i.high

/-- The whole number in the interval that is nearest to its value, of the two around the value. -/
def Interval.nearest? (tie : Tie) (i : Interval) : Option Nat :=
  let floor := i.value / i.denominator
  match i.holds floor, i.holds (floor + 1) with
  | true, true =>
    let twice := 2 * i.value
    let middle := (2 * floor + 1) * i.denominator
    if twice < middle then some floor
    else if middle < twice then some (floor + 1)
    else
      match tie with
      | .up => some (floor + 1)
      | .toEven => some (if floor % 2 = 0 then floor else floor + 1)
  | true, false => some floor
  | false, true => some (floor + 1)
  | false, false => none

/-- How often `num` has to be multiplied by ten to reach `den`, at most `fuel` times. -/
def timesTenToReach (den : Nat) : Nat → Nat → Nat
  | 0, _ => 0
  | fuel + 1, num => if den ≤ num then 0 else timesTenToReach den fuel (10 * num) + 1

/-- The decimal exponent of the first digit: `10 ^ e ≤ num / den < 10 ^ (e + 1)`. -/
def leadingExponent (num den : Nat) : Int :=
  if den ≤ num then Int.ofNat ((Nat.toDigits 10 (num / den)).length) - 1
  else -Int.ofNat (timesTenToReach den 400 num)

/-- Drops trailing zeros of the digits, at most `fuel` of them. -/
def Scaled.trimZeros : Nat → Scaled → Scaled
  | 0, d => d
  | fuel + 1, d =>
    if d.digits ≠ 0 ∧ d.digits % 10 = 0 then trimZeros fuel ⟨d.digits / 10, d.scale + 1⟩ else d

/-- Tries grids of more and more digits, `tries` of them from `scale` down. -/
def searchGrids (tie : Tie) (i : Interval) : Nat → Int → Scaled
  | 0, scale => ⟨(i.inUnits scale).value / (i.inUnits scale).denominator, scale⟩
  | tries + 1, scale =>
    match (i.inUnits scale).nearest? tie with
    | some n => ⟨n, scale⟩
    | none => searchGrids tie i tries (scale - 1)

/-- The shortest decimal that reads back as `b`. Seventeen digits always suffice. -/
def shortest (tie : Tie) (b : Binary) : Scaled :=
  if b.mantissa = 0 then ⟨0, 0⟩
  else
    let i := Interval.around b
    (searchGrids tie i 17 (leadingExponent i.value i.denominator)).trimZeros 20

end TwinShell.Decimal
