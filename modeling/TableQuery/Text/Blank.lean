/-
Blank characters: those with the property `White_Space`.
-/
import TableQuery.Text.Ranges

namespace TableQuery.Text

/-- Spaces, tabulators and ends of lines. -/
def blankRanges : Ranges :=
  [(0x9, 0xd), (0x20, 0x20), (0x85, 0x85), (0xa0, 0xa0), (0x1680, 0x1680), (0x2000, 0x200a),
   (0x2028, 0x2029), (0x202f, 0x202f), (0x205f, 0x205f), (0x3000, 0x3000)]

/-- The character separates words and is otherwise ignored. -/
def isBlank (c : Char) : Bool := blankRanges.contains c

/-- Drops blank characters from both ends. -/
def trim (text : List Char) : List Char :=
  ((text.dropWhile isBlank).reverse.dropWhile isBlank).reverse

end TableQuery.Text
