import ScriptAtlas.Text.Display

/-!
# Tables

Rows of cells under a header, drawn with lines. Every column is as wide as its widest cell, and a cell
with several lines makes its row as high. The last line is only drawn below rows.
-/

namespace ScriptAtlas.Report

open Text

structure Table where
  header : List String
  rows : List (List String)
deriving DecidableEq, Repr, Inhabited

namespace Table

def cellLines (cell : String) : List String := split '\n' cell

def cellWidth (cell : String) : Nat := (cellLines cell).foldl (fun n l => max n (width l)) 0

def rowHeight (row : List String) : Nat :=
  row.foldl (fun n cell => max n (cellLines cell).length) 0

def widest (widths : List Nat) (row : List String) : List Nat :=
  List.zipWith (fun n cell => max n (cellWidth cell)) widths row

def widths (t : Table) : List Nat := t.rows.foldl widest (t.header.map cellWidth)

def padded (n : Nat) (line : String) : String :=
  line ++ String.ofList (List.replicate (n - width line) ' ')

def rowLine (widths : List Nat) (row : List String) (i : Nat) : String :=
  let cells := List.zipWith (fun n cell =>
    " " ++ padded n (((cellLines cell)[i]?).getD "") ++ " ") widths row
  "│" ++ Text.join "│" cells ++ "│"

def rowLines (widths : List Nat) (row : List String) : List String :=
  (List.range (rowHeight row)).map (rowLine widths row)

def rule (left cross right : String) (widths : List Nat) : String :=
  let bars := widths.map fun n => String.ofList (List.replicate (n + 2) '─')
  left ++ Text.join cross bars ++ right

def lines (t : Table) : List String :=
  let ws := t.widths
  [rule "┌" "┬" "┐" ws] ++ rowLines ws t.header ++ [rule "├" "┼" "┤" ws]
    ++ t.rows.flatMap (rowLines ws)
    ++ (if t.rows.isEmpty then [] else [rule "└" "┴" "┘" ws])

def render (t : Table) : String := Text.join "\n" t.lines

end Table

end ScriptAtlas.Report
