/-
Why a query has no result.
-/
import TableQuery.Function.Basic

namespace TableQuery

/-- Why a query has no result. -/
inductive ExecutionError where
  | operation (e : OperationError)
  | unknownTable (name : String)
  | unknownField (name : String)
  | unknownTableField (table field : String)
  | ambiguousField (field : String) (tables : List String)
  | duplicateAlias (name : String)
  | unknownFunction (name : String)
  | unsupportedModifier (function : String) (modifier : Quantifier)
  | allUnsupported
  | missingOver (function : String)
  | notWindowFunction (function : String)
  | missingWindowResult (label : String)
  | invalidExtent (first last : Int)
  | mixedAggregate
  | duplicateGroupKey (label : String)
  | duplicateColumn (name : String)
  | rowCountMismatch (table : String) (expected actual : Nat)
  | function (name : String) (e : FunctionError)

/-- The wording of an error of a query. -/
def ExecutionError.message : ExecutionError → String
  | operation e => e.message
  | unknownTable name => s!"Unknown table: {name}"
  | unknownField name => s!"Unknown field: {name}"
  | unknownTableField table field => s!"Unknown field {field} in table {table}"
  | ambiguousField field tables =>
    "Field " ++ field ++ " is ambiguous, it is provided by tables " ++
      String.intercalate ", " tables
  | duplicateAlias name => s!"Table alias {name} is used more than once"
  | unknownFunction name => s!"Unknown function: {name}"
  | unsupportedModifier name modifier =>
    "Function " ++ name ++ " does not accept the " ++ modifier.keyword ++ " modifier"
  | allUnsupported => "The ALL modifier is not supported"
  | missingOver name => s!"Window function {name} requires an OVER clause"
  | notWindowFunction name => s!"Function {name} cannot be used with OVER"
  | missingWindowResult label => s!"Window result {label} was not computed"
  | invalidExtent first last =>
    s!"Invalid window frame: start row {first} is after end row {last}"
  | mixedAggregate => "Aggregate functions cannot be mixed with plain columns without GROUP BY"
  | duplicateGroupKey label => s!"Duplicate GROUP BY expression: {label}"
  | duplicateColumn name => s!"Duplicate output column: {name}"
  | rowCountMismatch table expected actual =>
    s!"View {table} has {actual} rows but the statement has {expected}"
  | function name e => "Function " ++ name ++ " failed: " ++ e.message

end TableQuery
