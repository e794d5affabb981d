/-
What can go wrong when an operator is applied to values.
-/
import TableQuery.Value.Basic

namespace TableQuery

/-- Why an operation on values has no result. -/
inductive OperationError where
  /-- The operator is not defined for these kinds. -/
  | operandTypes (operator : String) (left right : String)
  /-- One operand is of another kind than the expected one. -/
  | typeMismatch (context : String) (expected : Kind) (actual : String)
  | divisionByZero
  /-- The value, shown here as text, has no counterpart in the target type. -/
  | uncastable (value : String) (target : String)
  /-- The pattern is no regular expression. -/
  | invalidPattern (pattern : String) (reason : String)
  deriving Repr, DecidableEq

/-- The wording of an error of an operation. -/
def OperationError.message : OperationError → String
  | operandTypes op left right =>
    s!"Invalid operand types for operator {op}: left={left}, right={right}"
  | typeMismatch context expected actual =>
    "Type mismatch in " ++ context ++ ": expected " ++ expected.name ++ ", got " ++ actual
  | divisionByZero => "Division by zero"
  | uncastable value target => s!"Cannot cast {value} to {target}"
  | invalidPattern pattern reason => s!"Invalid pattern '{pattern}': {reason}"

end TableQuery
