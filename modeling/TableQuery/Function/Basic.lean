/-
Functions that queries can call, and the registry that holds them.

A scalar function maps the arguments of one row to a value, an aggregate the arguments of all rows
of a group to one value, and a window function those of an ordered partition to one value per row.
Names do not distinguish letter case.
-/
import TableQuery.Expr.Basic
import TableQuery.Labelled

namespace TableQuery

/-- Why a function has no result. -/
inductive FunctionError where
  | digitsNotWhole (digits : Float)
  | tooManyDigits (digits : Float)
  | digitsMistyped (kind : String)
  /-- One argument is of another kind than a number. -/
  | numberExpected (name kind : String)
  /-- Some value of a column is of another kind than a number. -/
  | numbersExpected (name kind : String)
  | textsExpected (name first second : String)
  | argumentCount (name expected : String) (given : Nat)
  | argumentMissing (name : String)
  | argumentsUnwanted (name : String)
  | allUnsupported (name : String)
  | incomparable (name new current : String)
  | orderMissing (name : String)
  /-- A window function has to give one value per row. -/
  | resultCount (values rows : Nat)
  /-- The words of a function from outside the library. -/
  | other (message : String)

/-- The wording of an error of a function. -/
def FunctionError.message : FunctionError → String
  | digitsNotWhole d =>
    "round digits must be a non-negative integer, got " ++ Number.displayText d
  | tooManyDigits d => "round digits must be at most 100, got " ++ Number.displayText d
  | digitsMistyped kind => s!"round digits must be a number, got {kind}"
  | numberExpected name kind => s!"{name} expects a number, got {kind}"
  | numbersExpected name kind => s!"{name} expects numbers, got {kind}"
  | textsExpected name first second =>
    s!"{name} expects (string, string), got ({first}, {second})"
  | argumentCount name expected given => s!"{name} expects {expected} arguments, got {given}"
  | argumentMissing name => s!"{name} requires an argument"
  | argumentsUnwanted name => s!"{name} takes no arguments"
  | allUnsupported name => s!"{name} does not support the ALL modifier"
  | incomparable name new current => s!"{name} cannot compare {new} with {current}"
  | orderMissing name => s!"{name} requires an ORDER BY in its window"
  | resultCount values rows => s!"returned {values} values for {rows} rows"
  | other message => message

/-- The arguments of the rows of a group. -/
abbrev Tuples := List (List Value)

/-- What a window function sees of a partition: the arguments of its rows in sorted order, the items
it is sorted by, and their values in every row. -/
structure SortedPartition where
  tuples : Tuples
  order : List OrderItem
  keys : List (List Value)

/-- A function by the rows it looks at. -/
inductive Function where
  | scalar (f : List Value → Except FunctionError Value)
  /-- The flag tells that the group has no rows of its own. -/
  | aggregate (f : Tuples → Bool → Option Quantifier → Except FunctionError Value)
  | window (f : SortedPartition → Except FunctionError (List Value))

/-- Functions under names in lower case. -/
structure Registry where
  functions : Labelled Function := .empty

namespace Registry

/-- Puts a function under a name in place of what stood there. -/
def register (r : Registry) (name : String) (f : Function) : Registry :=
  ⟨r.functions.put (Text.lowercase name) f⟩

/-- The function under a name. -/
def find? (r : Registry) (name : String) : Option Function :=
  r.functions.get? (Text.lowercase name)

/-- The names of all functions in order. -/
def names (r : Registry) : List String := r.functions.labels.mergeSort fun a b => a ≤ b

end Registry

end TableQuery
