/-
Views drawn as grids of characters.

A column is as wide as the longest of its name and its cells, counted in characters. The names stand
in the first line, a rule below them, then one line for each row, and the count of rows at the end.
-/
import TableQuery.Table.View

namespace TableQuery

namespace Grid

/-- Fills a text up with blanks to a width. -/
def pad (width : Nat) (text : String) : String :=
  text ++ String.ofList (List.replicate (width - text.length) ' ')

/-- One line of a grid. -/
def line (widths : List Nat) (texts : List String) : String :=
  "| " ++ String.intercalate " | " (widths.zipWith pad texts) ++ " |\n"

/-- The rule below the names. -/
def rule (widths : List Nat) : String :=
  "|-" ++
    String.intercalate "-|-" (widths.map fun w => String.ofList (List.replicate w '-')) ++ "-|\n"

/-- The widths of columns that hold texts in every line. -/
def widths (names : List String) (lines : List (List String)) : List Nat :=
  lines.foldl (fun ws texts => ws.zipWith (fun w t => max w t.length) texts)
    (names.map String.length)

/-- A text with as many blanks as it lacks is as long as the width, or as the text if that is
longer. -/
theorem length_pad (width : Nat) (text : String) :
    (pad width text).length = max width text.length := by
  simp only [pad, String.length_append, String.length_ofList, List.length_replicate]
  omega

end Grid

namespace View

/-- The texts of the cells of a row. -/
def cellTexts (v : View) (row : Row) : List String :=
  v.fields.map fun f => ((row.get? f).getD .null).display

/-- The grid of a view. -/
def grid (v : View) : String :=
  let lines := v.rows.toList.map v.cellTexts
  let widths := Grid.widths v.fields lines
  Grid.line widths v.fields ++ Grid.rule widths ++ String.join (lines.map (Grid.line widths)) ++
    s!"({v.size} rows)\n"

end View

end TableQuery
