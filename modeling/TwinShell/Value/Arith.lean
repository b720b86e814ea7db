import TwinShell.Value.Basic

/-!
# Arithmetic, order and equality of values

Two integers give an integer, exactly or as an overflow, except that `/` always gives a float. A float on either side makes the other a float. The sign of the remainder follows the dividend, while integer division rounds to the floor.
-/

namespace TwinShell

inductive ArithOp where
  | add
  | sub
  | mul
  | div
  | intDiv
  | mod
  deriving DecidableEq, Repr

inductive CompareOp where
  | less
  | lessEqual
  | greater
  | greaterEqual
  deriving DecidableEq, Repr

/-- Why an operator gives no value. -/
inductive ArithError where
  | overflow
  | divisionByZero
  | floatOperands
  | textOperands
  | operands
  deriving DecidableEq, Repr

namespace Number

/-- An exact integer result, if it fits. -/
def exact (n : Int) : Except ArithError Number :=
  match Decimal.wordOfInt? n with
  | some n => .ok (.int n)
  | none => .error .overflow

/-- The quotient of two integers rounded towards zero, if it fits. -/
def quotient? (x y : Int64) : Option Int64 := Decimal.wordOfInt? (x.toInt.tdiv y.toInt)

/-- Rounds a quotient `q` of `x` and `y`, rounded towards zero, to the floor: it is one less if there is a remainder and the signs differ. -/
def floored (x y q : Int64) : Int64 := if x % y ≠ 0 ∧ ¬(x < 0 ↔ y < 0) then q - 1 else q

/-- Divides two integers and gives what `f` makes of the quotient rounded towards zero. -/
def divided (f : Int64 → Int64) (x y : Int64) : Except ArithError Number :=
  if y = 0 then .error .divisionByZero
  else
    match quotient? x y with
    | some q => .ok (.int (f q))
    | none => .error .overflow

def arithInt (op : ArithOp) (x y : Int64) : Except ArithError Number :=
  let a := x.toInt
  let b := y.toInt
  match op with
  | .add => exact (a + b)
  | .sub => exact (a - b)
  | .mul => exact (a * b)
  | .div =>
    if y = 0 then .error .divisionByZero
    else .ok (.float (Decimal.wordFloat x / Decimal.wordFloat y))
  | .intDiv => divided (floored x y) x y
  | .mod => divided (fun _ => x % y) x y

def arithFloat (op : ArithOp) (x y : Float) : Except ArithError Number :=
  match op with
  | .add => .ok (.float (x + y))
  | .sub => .ok (.float (x - y))
  | .mul => .ok (.float (x * y))
  | .mod => .error .floatOperands
  | .div => if y == 0.0 then .error .divisionByZero else .ok (.float (x / y))
  | .intDiv => if y == 0.0 then .error .divisionByZero else .ok (.int (x / y).floor.toInt64)

def arith (op : ArithOp) : Number → Number → Except ArithError Number
  | .int x, .int y => arithInt op x y
  | x, y => arithFloat op x.toFloat y.toFloat

/-- The order of two numbers; a NaN has none. -/
def compare? : Number → Number → Option Ordering
  | .int x, .int y => some (Ord.compare x.toInt y.toInt)
  | x, y =>
    let (x, y) := (x.toFloat, y.toFloat)
    if x < y then some .lt else if x == y then some .eq else if y < x then some .gt else none

def negate : Number → Except ArithError Number
  | .int n => exact (-n.toInt)
  | .float x => .ok (.float (-x))

end Number

/-- Whether the order of the operands makes the comparison true. -/
def CompareOp.holds (op : CompareOp) (order : Ordering) : Bool :=
  match op with
  | .less => order.isLT
  | .lessEqual => order.isLE
  | .greater => order.isGT
  | .greaterEqual => order.isGE

namespace Value

def isText : Value → Bool
  | .str _ => true
  | _ => false

def isScalar : Value → Bool
  | .str _ => true
  | .int _ => true
  | .float _ => true
  | _ => false

/-- Applies an arithmetic operator. Texts that spell numbers count as numbers; `+` joins a text with another scalar. -/
def arith (op : ArithOp) (left right : Value) : Except ArithError Value :=
  match left.number?, right.number? with
  | some a, some b => (Number.arith op a b).map Number.toValue
  | _, _ =>
    if (left.isText || right.isText) && left.isScalar && right.isScalar then
      match op with
      | .add => .ok (.str (left.text ++ right.text))
      | _ => .error .textOperands
    else .error .operands

/-- Compares two numbers; `none` when a value is no number. A NaN makes every comparison false. -/
def compare (op : CompareOp) (left right : Value) : Option Bool :=
  match left.number?, right.number? with
  | some a, some b =>
    match Number.compare? a b with
    | some order => some (op.holds order)
    | none => some false
  | _, _ => none

def sameFloats : List Float → List Float → Bool
  | [], [] => true
  | x :: xs, y :: ys => x == y && sameFloats xs ys
  | _, _ => false

mutual

/-- Equality of values of the same type. -/
def same : Value → Value → Bool
  | .null, .null => true
  | .bool a, .bool b => a == b
  | .int a, .int b => a == b
  | .float a, .float b => a == b
  | .str a, .str b => a == b
  | .vector as, .vector bs => sameFloats as bs
  | .object a, .object b => Json.sameFields a.entries b.entries
  | .list as, .list bs => sameList as bs
  | _, _ => false

def sameList : List Value → List Value → Bool
  | [], [] => true
  | a :: as, b :: bs => same a b && sameList as bs
  | _, _ => false

end

/-- Equality as `==` tests it: an integer equals a float of the same value, everything else must be of one type. -/
def equal : Value → Value → Bool
  | .int a, .float b => Decimal.wordFloat a == b
  | .float a, .int b => Decimal.wordFloat b == a
  | a, b => same a b

end Value

end TwinShell
