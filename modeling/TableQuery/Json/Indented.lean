/-
JSON texts over several lines.

Every item of an array and every member of an object stands on a line of its own, two blanks deeper
than the brackets around it. Members come in the order of their names. Arrays and objects without
anything in them are written as their brackets alone.
-/
import TableQuery.Table.View

namespace TableQuery

namespace Json

/-- The end of a line and the blanks in front of the next one. -/
def newLine (depth : Nat) : String := "\n" ++ String.ofList (List.replicate (2 * depth) ' ')

/-- Parts between brackets that stand at the given depth. -/
def block (opening closing : String) (depth : Nat) (parts : List String) : String :=
  if parts.isEmpty then opening ++ closing
  else
    opening ++ newLine (depth + 1) ++ String.intercalate ("," ++ newLine (depth + 1)) parts ++
      newLine depth ++ closing

end Json

namespace Value

mutual

/-- The JSON text of a value that stands at the given depth. -/
def indentedText (depth : Nat) : Value → String
  | list items => Json.block "[" "]" depth (indentedTexts (depth + 1) items)
  | v => v.jsonText

/-- The JSON texts of values that stand at the given depth. -/
def indentedTexts (depth : Nat) : List Value → List String
  | [] => []
  | v :: rest => indentedText depth v :: indentedTexts depth rest

end

end Value

namespace View

/-- The members of the object that stands for a row, in the order of their names. -/
def members (v : View) (row : Row) : List (String × Value) :=
  let cells : Labelled Value := .ofList (v.fields.map fun f => (f, (row.get? f).getD .null))
  cells.entries.mergeSort fun a b => a.1 ≤ b.1

/-- The rows of a view as a JSON array of objects. -/
def indentedText (v : View) : String :=
  Json.block "[" "]" 0 (v.rows.toList.map fun row =>
    Json.block "\x7b" "\x7d" 1 ((v.members row).map fun (name, value) =>
      Json.quote name ++ ": " ++ value.indentedText 2))

end View

end TableQuery
