import Likeness.Text.Width

/-!
# Likeness.Text.Table

Tables drawn with lines. Every column is as wide as its widest cell, every row as high as its
highest one, and a line parts the first row from those below it.
-/

namespace Likeness.Text

/-- A table by its rows; a row that is too short is filled up with empty cells. -/
structure Table where
  rows : List (List String)

namespace Table

/-- The lines of a cell. -/
def cellLines (cell : String) : List String := cell.splitOn "\n"

/-- The width of the widest line of a cell. -/
def cellWidth (cell : String) : Nat := ((cellLines cell).map width).foldl max 0

/-- How many columns the longest row has. -/
def columns (t : Table) : Nat := (t.rows.map List.length).foldl max 0

/-- The cell at a column of a row. -/
def cell (row : List String) (column : Nat) : String := row.getD column ""

/-- The width of each column: that of its widest cell. -/
def columnWidths (t : Table) : List Nat :=
  (List.range t.columns).map fun j => (t.rows.map fun r => cellWidth (cell r j)).foldl max 0

/-- A text with blanks behind it, so that it takes a number of columns. -/
def fill (columns : Nat) (text : String) : String :=
  text ++ String.ofList (List.replicate (columns - width text) ' ')

/-- A line between rows, by its ends and its crossings. -/
def rule (left crossing right : String) (widths : List Nat) : String :=
  left ++ crossing.intercalate
    (widths.map fun w => String.join (List.replicate (w + 2) "─")) ++ right

/-- The lines of a row. -/
def rowLines (widths : List Nat) (row : List String) : List String :=
  let cells := (List.range widths.length).map fun j => cellLines (cell row j)
  let height := (cells.map List.length).foldl max 0
  (List.range height).map fun i =>
    "│" ++ "│".intercalate
      ((cells.zip widths).map fun (lines, w) => " " ++ fill w (lines.getD i "") ++ " ") ++ "│"

/-- The lines of a table. A table of one row ends with the line that parts it from what would be
below. -/
def lines (t : Table) : List String :=
  let widths := t.columnWidths
  let top := rule "╭" "┬" "╮" widths
  let parting := rule "├" "┼" "┤" widths
  let bottom := rule "╰" "┴" "╯" widths
  match t.rows with
  | [] => []
  | [head] => top :: rowLines widths head ++ [parting]
  | head :: body =>
    top :: rowLines widths head ++ parting :: body.flatMap (rowLines widths) ++ [bottom]

/-- The table as a text, without an end of the last line. -/
def write (t : Table) : String := "\n".intercalate t.lines

end Table

end Likeness.Text
