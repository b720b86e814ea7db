import TwinShell.Value.Arith

/-!
# Operators

The fourteen binary operators of expressions with their spelling and binding power. Operators of a higher level bind tighter; operators of one level group to the left.
-/

namespace TwinShell

inductive BinaryOp where
  | arith (op : ArithOp)
  | compare (op : CompareOp)
  | equal
  | notEqual
  | and
  | or
  deriving DecidableEq, Repr

def ArithOp.spelling : ArithOp → String
  | .add => "+"
  | .sub => "-"
  | .mul => "*"
  | .div => "/"
  | .intDiv => "\\"
  | .mod => "%"

def CompareOp.spelling : CompareOp → String
  | .less => "<"
  | .lessEqual => "<="
  | .greater => ">"
  | .greaterEqual => ">="

namespace BinaryOp

def spelling : BinaryOp → String
  | .arith op => op.spelling
  | .compare op => op.spelling
  | .equal => "=="
  | .notEqual => "!="
  | .and => "&&"
  | .or => "||"

/-- How tightly an operator binds. -/
def level : BinaryOp → Nat
  | .or => 1
  | .and => 2
  | .equal | .notEqual | .compare _ => 3
  | .arith .add | .arith .sub => 4
  | .arith .mul | .arith .div | .arith .intDiv | .arith .mod => 5

end BinaryOp

end TwinShell
