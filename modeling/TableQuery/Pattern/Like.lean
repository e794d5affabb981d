/-
LIKE patterns.

A pattern is a row of items: `%` stands for any run of characters, `_` for any one character, a
backslash takes the meaning from the character behind it, and all else stands for itself.
`Like.Matches` says which texts a row of items matches as a whole, and `Like.source` is the text of a
regular expression that finds them.
-/
import TableQuery.Regex.Match

namespace TableQuery

/-- An item of a LIKE pattern. -/
inductive Like where
  /-- Any run of characters, the empty one included. -/
  | anyRun
  | anyChar
  | literal (c : Char)
  deriving Repr, DecidableEq

namespace Like

/-- The items of a pattern. A backslash at the end stands for itself. -/
def read : List Char → List Like
  | [] => []
  | '%' :: rest => anyRun :: read rest
  | '_' :: rest => anyChar :: read rest
  | ['\\'] => [literal '\\']
  | '\\' :: c :: rest => literal c :: read rest
  | c :: rest => literal c :: read rest

/-- The text as a whole matches the items. -/
inductive Matches : List Like → List Char → Prop where
  | done : Matches [] []
  | literal {c : Char} {items : List Like} {text : List Char} (rest : Matches items text) :
      Matches (.literal c :: items) (c :: text)
  | anyChar (c : Char) {items : List Like} {text : List Char} (rest : Matches items text) :
      Matches (.anyChar :: items) (c :: text)
  | anyRun (run : List Char) {items : List Like} {text : List Char} (rest : Matches items text) :
      Matches (.anyRun :: items) (run ++ text)

/-- The characters that a regular expression gives a meaning. -/
def metaCharacters : List Char := "\\.+*?()|[]\x7b\x7d^$#&-~".toList

/-- A character that stands for itself in a regular expression. -/
def escape (c : Char) : String :=
  if metaCharacters.contains c then String.ofList ['\\', c] else String.ofList [c]

/-- How one item is written in a regular expression. -/
def itemSource : Like → String
  | anyRun => ".*"
  | anyChar => "."
  | literal c => escape c

/-- The text of the regular expression of a pattern. -/
def source (pattern : String) : String :=
  "(?s)^" ++ String.join ((read pattern.toList).map itemSource) ++ "$"

end Like

end TableQuery
