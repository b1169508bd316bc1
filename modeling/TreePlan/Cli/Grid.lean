import TreePlan.Text.Width

/-!
# Grids

Rows of cells in a frame with round corners. A column is as wide as its widest cell, a row
as high as its highest one; cells are aligned to the left and to the top, with one blank on
either side.
-/

namespace TreePlan.Cli.Grid

/-- The lines of a cell. -/
abbrev Cell := List (List Char)

def cell (text : String) : Cell := text.toList.splitOn '\n'

def cellWidth (cell : Cell) : Nat := (cell.map Text.width).foldl max 0

/-- The larger of two widths in each column. -/
def widest : List Nat → List Nat → List Nat
  | a :: as, b :: bs => max a b :: widest as bs
  | [], bs => bs
  | as, [] => as

def widths (rows : List (List Cell)) : List Nat :=
  (rows.map fun row => row.map cellWidth).foldl widest []

def pad (width : Nat) (text : List Char) : List Char :=
  text ++ List.replicate (width - Text.width text) ' '

/-- Parts of a line between two ends, with a divider between them. -/
def framed (left divider right : Char) (parts : List (List Char)) : String :=
  String.ofList (left :: ([divider].intercalate parts ++ [right]))

def rule (widths : List Nat) (left divider right : Char) : String :=
  framed left divider right (widths.map fun width => List.replicate (width + 2) '─')

def rowLines (widths : List Nat) (row : List Cell) : List String :=
  let height := (row.map List.length).foldl max 0
  (List.range height).map fun line =>
    framed '│' '│' '│' <| (widths.zip row).map fun (width, cell) =>
      ' ' :: (pad width (cell[line]?.getD []) ++ [' '])

/-- The lines of a grid: the titles of its columns, then its rows. -/
def lines (titles : List String) (rows : List (List String)) : List String :=
  let head := titles.map cell
  let body := rows.map fun row => row.map cell
  let widths := widths (head :: body)
  [rule widths '╭' '┬' '╮'] ++ rowLines widths head ++ [rule widths '├' '┼' '┤']
    ++ body.flatMap (rowLines widths) ++ [rule widths '╰' '┴' '╯']

end TreePlan.Cli.Grid
