/-
Operators on one value: negation of a truth and of a number.
-/
import TableQuery.Operator.Error

namespace TableQuery

/-- The operators that stand before an expression. -/
inductive UnaryOperator where
  | not
  | minus
  deriving Repr, DecidableEq

namespace UnaryOperator

/-- How an operator is written. -/
def symbol : UnaryOperator → String
  | not => "not"
  | minus => "-"

/-- How an operator is written in front of its operand. -/
def before : UnaryOperator → String
  | not => "not "
  | minus => "-"

/-- The value of an operator on its operand; Null stays Null. -/
def apply (op : UnaryOperator) (operand : Value) : Except OperationError Value :=
  match op with
  | not => .ok (match operand.truth? with
      | some b => .boolean (!b)
      | none => .null)
  | minus => match operand with
    | .null => .ok .null
    | .number x => .ok (.number (-x))
    | v => .error (.typeMismatch "unary -" .number v.kindName)

end UnaryOperator

end TableQuery
