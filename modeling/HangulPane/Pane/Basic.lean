import HangulPane.Pane.Cell
import HangulPane.Text.Blank
import HangulPane.Text.Column
import HangulPane.Text.Decimal

namespace HangulPane

/-!
The pane on which a two-dimensional program is written, and travel on it.

The pane has a row for each line of the text, and each row has as many cells as
its line has characters.  Travel wraps around at the borders.  Moving right, the
border is that of the widest row; moving vertically, a wrap goes to the first row
in the direction of travel that has a cell in the column; moving left, it goes to
the last cell of the row.
-/

/-- A position on the pane or beside it. -/
structure Position where
  row : Nat
  column : Nat
  deriving DecidableEq, Repr

namespace Position

/-- The position as text, both coordinates in columns of three characters. -/
def describe (position : Position) : String :=
  "[" ++ Text.padLeft 3 (Decimal.ofNat position.row) ++ "," ++
    Text.padLeft 3 (Decimal.ofNat position.column) ++ "]"

end Position

/-- The text of a program, as rows of characters. -/
structure Pane where
  rows : Array (Array Char)
  /-- The length of the longest row. -/
  width : Nat
  /-- The width is indeed the greatest length. -/
  width_eq : width = rows.foldl (fun widest row => max widest row.size) 0 := by rfl

namespace Pane

def ofText (text : List Char) : Pane :=
  let rows := ((Text.lines text).map List.toArray).toArray
  { rows := rows, width := rows.foldl (fun widest row => max widest row.size) 0 }

def height (pane : Pane) : Nat :=
  pane.rows.size

def isEmpty (pane : Pane) : Bool :=
  pane.width == 0

/-- The number of cells in a row; a row that does not exist has none. -/
def rowLength (pane : Pane) (row : Nat) : Nat :=
  (pane.rows[row]?.map Array.size).getD 0

def contains (pane : Pane) (position : Position) : Bool :=
  position.column < pane.rowLength position.row

def charAt? (pane : Pane) (position : Position) : Option Char :=
  pane.rows[position.row]?.bind fun row => row[position.column]?

/-- The cell at a position; where there is none, one without an effect. -/
def cellAt (pane : Pane) (position : Position) : Cell :=
  (pane.charAt? position).elim Cell.blank Cell.ofChar

/-- The first row that has a cell in a column, or the first row. -/
def firstRowWith (pane : Pane) (column : Nat) : Nat :=
  ((List.range pane.height).find? fun row => pane.contains { row, column }).getD 0

/-- The last row that has a cell in a column, or the last row. -/
def lastRowWith (pane : Pane) (column : Nat) : Nat :=
  ((List.range pane.height).reverse.find? fun row => pane.contains { row, column }).getD
    (pane.height - 1)

def advance (pane : Pane) (position : Position) (direction : Direction) (stride : Stride) :
    Position :=
  let distance := stride.toNat
  match direction with
  | .down =>
      let row := position.row + distance
      if row < pane.height then { position with row }
      else { position with row := pane.firstRowWith position.column }
  | .right =>
      let column := position.column + distance
      if column < max pane.width 1 then { position with column }
      else { position with column := 0 }
  | .up =>
      if position.row < distance then
        { position with row := pane.lastRowWith position.column }
      else
        { position with row := position.row - distance }
  | .left =>
      if position.column < distance then
        { position with column := pane.rowLength position.row - 1 }
      else
        { position with column := position.column - distance }

/-- The positions of a number of successive moves. -/
def walk (pane : Pane) (direction : Direction) (stride : Stride) :
    Nat -> Position -> List Position
  | 0, _ => []
  | moves + 1, position =>
      let next := pane.advance position direction stride
      next :: walk pane direction stride moves next

/-- The first cell at or after a position, looking at a limited number of
positions. -/
def firstCell? (pane : Pane) (direction : Direction) (stride : Stride) :
    Nat -> Position -> Option Position
  | 0, _ => none
  | attempts + 1, position =>
      if pane.contains position then some position
      else firstCell? pane direction stride attempts (pane.advance position direction stride)

/-- The first cell at or after a position.  So many positions are looked at that
travel which meets a cell at all meets it among them. -/
def nextCell? (pane : Pane) (position : Position) (direction : Direction) (stride : Stride) :
    Option Position :=
  pane.firstCell? direction stride ((pane.height + 1) * (pane.width + 2)) position

end Pane
end HangulPane
