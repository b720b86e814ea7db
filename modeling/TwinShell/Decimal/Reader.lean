import TwinShell.Text.Letter

/-!
# Reading decimals

A decimal is an optional sign, digits with an optional point, and an optional exponent; the words `inf`, `infinity` and `nan` are read too, in any case. Reading rounds to the nearest float, a half going to the even one. An integer is an optional sign and digits, and must fit in 64 bits.
-/

namespace TwinShell.Decimal

def digitValue (c : Char) : Nat := c.toNat - '0'.toNat

/-- The number written by a list of digits, most significant first. -/
def natOfDigits (cs : List Char) : Nat := cs.foldl (fun n c => 10 * n + digitValue c) 0

/-- The least and the greatest 64-bit integer bound what fits. -/
def fitsWord (n : Int) : Bool := -0x8000000000000000 ≤ n && n < 0x8000000000000000

/-- The 64-bit integer with value `n`, if there is one. -/
def wordOfInt? (n : Int) : Option Int64 := if fitsWord n then some (Int64.ofInt n) else none

/-- The float nearest to a 64-bit integer, a half going to the even one. -/
def wordFloat (n : Int64) : Float :=
  let magnitude := n.toInt.natAbs.toUInt64.toFloat
  if n < 0 then -magnitude else magnitude

/-- Splits off a sign; `true` is minus. -/
def takeSign : List Char → Bool × List Char
  | '-' :: cs => (true, cs)
  | '+' :: cs => (false, cs)
  | cs => (false, cs)

def readWordChars? (cs : List Char) : Option Int64 :=
  let (negative, digits) := takeSign cs
  if digits.isEmpty || !digits.all Text.isDigit then none
  else
    let n := Int.ofNat (natOfDigits digits)
    wordOfInt? (if negative then -n else n)

/-- Reads an integer that fits in 64 bits. -/
def readWord? (text : String) : Option Int64 := readWordChars? text.toList

/-- The float nearest to `digits * 10 ^ scale`. Scales beyond any float's range are cut off first. -/
def nearestFloat (digits : Nat) (scale : Int) : Float :=
  if digits = 0 then 0.0
  else
    let exponent := Int.ofNat (Nat.toDigits 10 digits).length + scale
    if 400 < exponent then 1.0 / 0.0
    else if exponent < -400 then 0.0
    else if 0 ≤ scale then Float.ofScientific (digits * Nat.pow 10 scale.toNat) false 0
    else Float.ofScientific digits true (-scale).toNat

/-- Reads the exponent part of a decimal: nothing, or `e`, an optional sign and digits up to the end. -/
def readExponent? : List Char → Option Int
  | [] => some 0
  | c :: cs =>
    if c ≠ 'e' ∧ c ≠ 'E' then none
    else
      let (negative, digits) := takeSign cs
      if digits.isEmpty || !digits.all Text.isDigit then none
      else
        let n := Int.ofNat (natOfDigits digits)
        some (if negative then -n else n)

/-- Reads an unsigned decimal from a whole list of characters. -/
def readMagnitude? (cs : List Char) : Option Float :=
  let whole := cs.takeWhile Text.isDigit
  let rest := cs.dropWhile Text.isDigit
  let (fraction, rest) :=
    match rest with
    | '.' :: more => (more.takeWhile Text.isDigit, more.dropWhile Text.isDigit)
    | _ => ([], rest)
  if whole.isEmpty && fraction.isEmpty then none
  else
    (readExponent? rest).map fun e =>
      nearestFloat (natOfDigits (whole ++ fraction)) (e - Int.ofNat fraction.length)

def lowerLetter (c : Char) : Char := if 'A' ≤ c && c ≤ 'Z' then Char.ofNat (c.toNat + 32) else c

/-- Reads a float from a whole list of characters. -/
def readFloatChars? (cs : List Char) : Option Float :=
  let (negative, body) := takeSign cs
  let word := body.map lowerLetter
  let x? :=
    if word = "inf".toList ∨ word = "infinity".toList then some (1.0 / 0.0)
    else if word = "nan".toList then some (0.0 / 0.0)
    else readMagnitude? body
  x?.map fun x => if negative then -x else x

def readFloat? (text : String) : Option Float := readFloatChars? text.toList

end TwinShell.Decimal
