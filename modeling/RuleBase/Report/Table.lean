import RuleBase.Text.Wrap

/-!
# Tables

Tables of texts with a frame. A column is as wide as the widest line in it, up to a limit beyond
which lines are wrapped. A row is as high as its highest cell, and every cell has a blank on either
side.

* `Cell`, `Table`, `Table.render`.
-/

namespace RuleBase.Report

/-- The side of its column that a text stands at. -/
inductive Alignment where
  | left
  | right
  deriving DecidableEq

/-- A text in a table. -/
structure Cell where
  text : String
  alignment : Alignment := .left
  deriving DecidableEq

/-- A number in a table. -/
def Cell.nat (n : Nat) : Cell := ⟨toString n, .right⟩

/-- A table; every row has a cell for each column. -/
structure Table where
  header : List Cell
  rows : List (List Cell) := []
  deriving DecidableEq

/-- The lines of a cell. -/
def Cell.lines (c : Cell) : List (List Char) := Text.lines c.text.toList

/-- How wide a cell is. -/
def Cell.width (c : Cell) : Nat := (c.lines.map Text.width).foldl max 0

/-- The widest that a column gets. -/
def maxColumnWidth : Nat := 65535

/-- The columns' widths, if they have to hold the given rows. -/
def columnWidths (rows : List (List Cell)) : List Nat :=
  rows.foldl
    (fun widths row => (widths.zip row).map fun (w, c) => max w (min maxColumnWidth c.width))
    (List.replicate ((rows.head?.map List.length).getD 0) 1)

/-- How wide the frame around a column is, which has the same limit. -/
def frameWidth (width : Nat) : Nat := min maxColumnWidth (width + 2)

/-- A line of a cell, filled up with a number of blanks, and with one on either side. -/
def fill (alignment : Alignment) (missing : Nat) (line : List Char) : List Char :=
  let blanks := List.replicate missing ' '
  match alignment with
  | .left => ' ' :: (line ++ (blanks ++ [' ']))
  | .right => ' ' :: (blanks ++ (line ++ [' ']))

/-- Texts with a mark before, between and after them. -/
def enclose (first between last : Char) (texts : List (List Char)) : List Char :=
  first :: ([between].intercalate texts ++ [last])

/-- A line between rows. -/
def border (first line between last : Char) (widths : List Nat) : List Char :=
  enclose first between last (widths.map fun w => List.replicate (frameWidth w) line)

/-- The lines of a cell in a column. -/
def Cell.linesIn (width : Nat) (c : Cell) : List (List Char) :=
  c.lines.flatMap fun line =>
    let used := Text.width line
    if used ≤ width then [fill c.alignment (width - used) line]
    else (Text.wrap width line).map fun line => fill c.alignment (width - Text.width line) line

/-- One of the lines of a row, whose cells are given as the widths and the lines. A cell that has
not so many lines is blank there. -/
def rowLine (cells : List (Nat × List (List Char))) (i : Nat) : List Char :=
  enclose '│' '┆' '│' (cells.map fun (w, lines) => lines.getD i (List.replicate (frameWidth w) ' '))

/-- The lines of a row. -/
def rowLines (widths : List Nat) (row : List Cell) : List (List Char) :=
  let cells := (widths.zip row).map fun (w, c) => (w, c.linesIn w)
  (List.range ((cells.map (·.2.length)).foldl max 0)).map (rowLine cells)

/-- The lines of a table. -/
def Table.lines (t : Table) : List (List Char) :=
  let widths := columnWidths (t.header :: t.rows)
  [border '┌' '─' '┬' '┐' widths] ++ rowLines widths t.header ++ [border '╞' '═' '╪' '╡' widths] ++
    [border '├' '╌' '┼' '┤' widths].intercalate (t.rows.map (rowLines widths)) ++
    [border '└' '─' '┴' '┘' widths]

/-- The text of a table, without a line feed at the end. -/
def Table.render (t : Table) : String := String.ofList (Text.unlines t.lines)

end RuleBase.Report
