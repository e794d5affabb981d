/-
Conversion of values to a named type.
-/
import TableQuery.Operator.Error
import TableQuery.Number.Reader
import TableQuery.Text.Blank
import TableQuery.Text.Lowercase
import TableQuery.Value.Text

namespace TableQuery

/-- The types that values can be cast to. -/
inductive CastType where
  | string
  | number
  | boolean
  deriving Repr, DecidableEq

namespace CastType

/-- The name of a type. -/
def name : CastType → String
  | string => "string"
  | number => "number"
  | boolean => "boolean"

/-- The names that a type has in queries. -/
def names : CastType → List String
  | string => ["string", "varchar", "text", "char"]
  | number =>
    ["number", "int", "integer", "bigint", "float", "double", "decimal", "numeric", "real"]
  | boolean => ["boolean", "bool"]

/-- The type that a name stands for in any letter case. -/
def ofName? (name : String) : Option CastType :=
  [string, number, boolean].find? fun t => t.names.contains (Text.lowercase name)

/-- The number in a text between blanks: zero when there is nothing else, Null when it is no
numeral. -/
def numberOfText (s : String) : Value :=
  let text := Text.trim s.toList
  if text.isEmpty then .number (Number.ofNat 0)
  else match Number.read? text with
    | some x => .number x
    | none => .null

/-- The counterpart of a value in a type; Null stays Null. -/
def apply (t : CastType) (v : Value) : Except OperationError Value :=
  if v.isNull then .ok .null
  else match t with
    | string => .ok (.string v.display)
    | boolean => .ok (match v.truth? with
        | some b => .boolean b
        | none => .null)
    | number => match v with
      | .number x => .ok (.number x)
      | .boolean b => .ok (Value.ofNat b.toNat)
      | .string s => .ok (numberOfText s)
      | _ => .error (.uncastable v.display t.name)

end CastType

end TableQuery
