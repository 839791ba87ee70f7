import Reckoner.Text.Lines
import Reckoner.Text.Width

/-!
# Screens

A screen is a grid of cells, each of which shows a cluster of characters. A cluster that takes two
cells is in the first of them, and the second one is blank.

Text that is too long for its row is cut off at the right.
-/

namespace Reckoner.Screen

/-- A row of cells. -/
abbrev Row := List String

/-- The cell that shows nothing. -/
def blank : String := " "

/-- A number of blank cells. -/
def blanks (n : Nat) : Row := List.replicate n blank

/-- The clusters of pieces of text that follow each other in a row. A newline is not shown. -/
def clustersOf (pieces : List String) : List (List Char) :=
  (pieces.flatMap fun piece ↦ Text.clusters piece.toList).filter (· ≠ ['\n'])

/-- The cells of a cluster. -/
def cellsOf (cluster : List Char) : Row :=
  String.ofList cluster :: blanks (Text.clusterWidth cluster - 1)

/-- Clusters in a row of `width` cells, of which `room` are left. A cluster that is wider than the
whole row is left out, and so is one without width. -/
def fit (width : Nat) : (room : Nat) → List (List Char) → Row
  | room, [] => blanks room
  | room, cluster :: rest =>
    let w := Text.clusterWidth cluster
    if width < w ∨ w = 0 then fit width room rest
    else if room < w then blanks room
    else cellsOf cluster ++ fit width (room - w) rest

/-- Pieces of text in a row of the given width. -/
def rowOf (width : Nat) (pieces : List String) : Row := fit width width (clustersOf pieces)

/-- Rows of text in an area of the given size. -/
def area (width height : Nat) (rows : List (List String)) : List Row :=
  let shown := (rows.take height).map (rowOf width)
  shown ++ List.replicate (height - shown.length) (blanks width)

/-! ### Boxes -/

/-- The cells of a title, as far as it fits. -/
def titleCells : (room : Nat) → List (List Char) → Row
  | _, [] => []
  | room, cluster :: rest =>
    let w := Text.clusterWidth cluster
    if room < w then []
    else if w = 0 then titleCells room rest
    else cellsOf cluster ++ titleCells (room - w) rest

/-- A row between two corners or sides. -/
def between (left right : String) (width : Nat) (cells : Row) : Row :=
  match width with
  | 0 => []
  | 1 => [left]
  | _ => left :: cells ++ [right]

/-- The upper side of a box with its title. -/
def upperSide (title : String) (width : Nat) : Row :=
  let cells := titleCells (width - 2) (clustersOf (Text.lines title))
  between "┌" "┐" width (cells ++ List.replicate (width - 2 - cells.length) "─")

/-- A box with a title around rows that are two cells shorter than the box is wide. -/
def box (title : String) (width height : Nat) (rows : List Row) : List Row :=
  match height with
  | 0 => []
  | 1 => [upperSide title width]
  | _ =>
    upperSide title width :: rows.map (between "│" "│" width) ++
      [between "└" "┘" width (List.replicate (width - 2) "─")]

/-! ### Layers -/

/-- A row with some cells put over it from a column on. -/
def putRow (column : Nat) (cells row : Row) : Row :=
  row.take column ++ cells ++ row.drop (column + cells.length)

/-- Rows with other rows put over them from a place on. -/
def put (column row : Nat) (layer rows : List Row) : List Row :=
  rows.mapIdx fun i cells ↦
    match if row ≤ i then layer[i - row]? else none with
    | some upper => putRow column upper cells
    | none => cells

/-- The cells of a row as they appear, given how many of them the last cluster still covers. -/
def settle : (covered : Nat) → Row → Row
  | _, [] => []
  | covered + 1, _ :: rest => blank :: settle covered rest
  | 0, cell :: rest => cell :: settle (Text.clusterWidth cell.toList - 1) rest

/-- The text of a row. -/
def rowText (row : Row) : String := String.join (settle 0 row)

end Reckoner.Screen
