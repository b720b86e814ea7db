import TwinShell.Decimal.Shortest

/-!
# Written decimals

How floats are written: in positional notation with the shortest digits, in scientific notation, or with a fixed number of places. The formats that the shell uses are records at the end.
-/

namespace TwinShell.Decimal

def digitChars (n : Nat) : List Char := Nat.toDigits 10 n

def natText (n : Nat) : String := String.ofList (digitChars n)

def intText (n : Int) : String :=
  if n < 0 then String.ofList ('-' :: digitChars n.natAbs) else natText n.toNat

/-- The digits of `d` with a point where it belongs and no exponent. -/
def Scaled.positional (d : Scaled) : List Char :=
  let digits := digitChars d.digits
  let point := Int.ofNat digits.length + d.scale
  if 0 ≤ d.scale then digits ++ List.replicate d.scale.toNat '0'
  else if 0 < point then digits.take point.toNat ++ '.' :: digits.drop point.toNat
  else '0' :: '.' :: List.replicate (-point).toNat '0' ++ digits

/-- The decimal exponent of the first digit. -/
def Scaled.exponent (d : Scaled) : Int := Int.ofNat (digitChars d.digits).length + d.scale - 1

/-- One digit, the point and the other digits if any, then the exponent with its sign. -/
def Scaled.scientific (d : Scaled) : List Char :=
  let mark := if d.exponent < 0 then ['e', '-'] else ['e', '+']
  let power := mark ++ digitChars d.exponent.natAbs
  match digitChars d.digits with
  | [] => power
  | [c] => c :: power
  | c :: rest => c :: '.' :: rest ++ power

/-- How a format of floats decides what the digits leave open. -/
structure FloatFormat where
  tie : Tie
  /-- The exponents written in positional notation. -/
  positional : Int → Bool
  /-- What follows a number without fractional digits in positional notation. -/
  wholeEnd : String

def FloatFormat.write (f : FloatFormat) (x : Float) : String :=
  let d := shortest f.tie (magnitude x)
  let sign := if isNegative x then "-" else ""
  if d.digits = 0 ∨ f.positional d.exponent then
    sign ++ String.ofList d.positional ++ (if 0 ≤ d.scale then f.wholeEnd else "")
  else sign ++ String.ofList d.scientific

/-- Floats as the shell shows them: always positional, nothing after a whole number. -/
def shown : FloatFormat := ⟨.up, fun _ => true, ""⟩

/-- The text of any float, with names for those that are not finite. -/
def showFloat (x : Float) : String :=
  if x.isNaN then "NaN"
  else if x.isInf then (if isNegative x then "-inf" else "inf")
  else shown.write x

/-- A quotient rounded to the nearest whole number, a half going to the even neighbour. -/
def roundQuotient (num den : Nat) : Nat :=
  let floor := num / den
  let twice := 2 * (num % den)
  if twice < den then floor
  else if den < twice then floor + 1
  else if floor % 2 = 0 then floor else floor + 1

/-- The exact value of a float rounded to `places` digits after the point. -/
def fixedPlaces (places : Nat) (x : Float) : String :=
  if x.isNaN then "NaN"
  else if x.isInf then (if isNegative x then "-inf" else "inf")
  else
    let b := magnitude x
    let numerator := b.mantissa * Nat.pow 2 b.exponent.toNat * Nat.pow 10 places
    let n := roundQuotient numerator (Nat.pow 2 (-b.exponent).toNat)
    let digits := digitChars n
    let padded := List.replicate (places + 1 - digits.length) '0' ++ digits
    let whole := padded.length - places
    let sign := if isNegative x then ['-'] else []
    let tail := if places = 0 then [] else '.' :: padded.drop whole
    String.ofList (sign ++ padded.take whole ++ tail)

end TwinShell.Decimal
