/-
How values are shown.

`display` is the text of a value inside a larger text, `label` its form as a literal of a query, and
`jsonText` its JSON text. They differ in the quotes around texts and in the spelling of numbers.
-/
import TableQuery.Value.Basic

namespace TableQuery

namespace Value

mutual

/-- The plain text of a value. A list shows its items between commas and leaves out Null. -/
def display : Value → String
  | null => "null"
  | boolean b => if b then "true" else "false"
  | number x => Number.displayText x
  | string s => s
  | list xs => displayItems xs

/-- Items between commas; an item that is Null leaves its place empty. -/
def displayItems : List Value → String
  | [] => ""
  | [x] => if x.isNull then "" else x.display
  | x :: y :: rest => (if x.isNull then "" else x.display) ++ "," ++ displayItems (y :: rest)

end

/-- The text of a literal: texts stand between quotes, so that the text `1` and the number `1`
differ. -/
def label : Value → String
  | string s => Json.quote s
  | v => v.display

mutual

/-- The JSON text of a value. -/
def jsonText : Value → String
  | null => "null"
  | boolean b => if b then "true" else "false"
  | number x => Number.scientificText x
  | string s => Json.quote s
  | list xs => "[" ++ jsonItems xs ++ "]"

/-- JSON texts between commas. -/
def jsonItems : List Value → String
  | [] => ""
  | [x] => x.jsonText
  | x :: y :: rest => x.jsonText ++ "," ++ jsonItems (y :: rest)

end

end Value

end TableQuery
