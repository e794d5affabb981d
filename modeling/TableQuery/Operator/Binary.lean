/-
Operators between two values.

Conjunction and disjunction follow three-valued logic over the truth of their operands; every other
operator yields Null when one operand is Null.
-/
import TableQuery.Operator.Error
import TableQuery.Value.Text

namespace TableQuery

/-- The operators that stand between two expressions. -/
inductive BinaryOperator where
  | add | sub | mul | div | mod
  | eq | ne | lt | le | gt | ge
  | and | or
  deriving Repr, DecidableEq

namespace BinaryOperator

/-- All operators. -/
def all : List BinaryOperator :=
  [add, sub, mul, div, mod, eq, ne, lt, le, gt, ge, and, or]

/-- How an operator is written. -/
def symbol : BinaryOperator → String
  | add => "+"
  | sub => "-"
  | mul => "*"
  | div => "/"
  | mod => "%"
  | eq => "="
  | ne => "!="
  | lt => "<"
  | le => "<="
  | gt => ">"
  | ge => ">="
  | and => "and"
  | or => "or"

/-- Conjunction: one false operand decides. -/
def both (left right : Value) : Value :=
  match left.truth?, right.truth? with
  | some false, _ => .boolean false
  | _, some false => .boolean false
  | some true, some true => .boolean true
  | _, _ => .null

/-- Disjunction: one true operand decides. -/
def either (left right : Value) : Value :=
  match left.truth?, right.truth? with
  | some true, _ => .boolean true
  | _, some true => .boolean true
  | some false, some false => .boolean false
  | _, _ => .null

/-- The error of operands that the operator is not defined for. -/
def mistyped (op : BinaryOperator) (left right : Value) : OperationError :=
  .operandTypes op.symbol left.kindName right.kindName

/-- The result of an operation that is defined on two numbers only. -/
def arithmetic (op : BinaryOperator) (left right : Value)
    (f : Float → Float → Except OperationError Float) : Except OperationError Value :=
  match left, right with
  | .number x, .number y => (f x y).map .number
  | _, _ => .error (op.mistyped left right)

/-- The truth of a comparison. Values of one kind without an order between them compare as false,
and values of different kinds do not compare. -/
def comparison (op : BinaryOperator) (left right : Value) (test : Ordering → Bool) :
    Except OperationError Value :=
  match left.compare? right with
  | some o => .ok (.boolean (test o))
  | none =>
    if left.kind? = right.kind? then .ok (.boolean false) else .error (op.mistyped left right)

/-- Numbers add up, and all else is joined as text. -/
def sum (left right : Value) : Value :=
  match left, right with
  | .number x, .number y => .number (x + y)
  | _, _ => .string (left.display ++ right.display)

/-- The value of `left op right` for operands that are not Null, the logical operators aside. -/
def applyPresent (op : BinaryOperator) (left right : Value) : Except OperationError Value :=
  match op with
  | add => .ok (sum left right)
  | sub => op.arithmetic left right fun x y => .ok (x - y)
  | mul => op.arithmetic left right fun x y => .ok (x * y)
  | div => op.arithmetic left right fun x y =>
      if Number.isZero y then .error .divisionByZero else .ok (x / y)
  | mod => op.arithmetic left right fun x y =>
      if Number.isZero y then .error .divisionByZero else .ok (Number.remainder x y)
  | eq => .ok (.boolean (left.equal right))
  | ne => .ok (.boolean (!left.equal right))
  | lt => op.comparison left right (· == .lt)
  | le => op.comparison left right (· != .gt)
  | gt => op.comparison left right (· == .gt)
  | ge => op.comparison left right (· != .lt)
  | and => .ok (both left right)
  | or => .ok (either left right)

/-- The value of `left op right`. -/
def apply (op : BinaryOperator) (left right : Value) : Except OperationError Value :=
  match op with
  | and => .ok (both left right)
  | or => .ok (either left right)
  | _ => if left.isNull || right.isNull then .ok .null else op.applyPresent left right

end BinaryOperator

end TableQuery
