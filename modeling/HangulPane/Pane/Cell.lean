import HangulPane.Opcode

namespace HangulPane

/-!
The cells of a pane, and how a cell turns the cursor.

A Hangul syllable has three parts that act independently: the initial consonant
spells the operation, the medial vowel the movement, and the final consonant the
operand.  Every other character occupies its cell without an effect.
-/

inductive Direction where
  | down
  | right
  | up
  | left
  deriving DecidableEq, Repr

namespace Direction

def reversed : Direction -> Direction
  | .down => .up
  | .up => .down
  | .right => .left
  | .left => .right

/-- Whether travel goes along a column. -/
def isVertical : Direction -> Bool
  | .down | .up => true
  | .right | .left => false

def name : Direction -> String
  | .down => "DOWN"
  | .right => "RIGHT"
  | .up => "UP"
  | .left => "LEFT"

/-- The number of a direction among the four. -/
def toNat : Direction -> Nat
  | .down => 0
  | .right => 1
  | .up => 2
  | .left => 3

end Direction

/-- How many cells one move covers. -/
inductive Stride where
  | one
  | two
  deriving DecidableEq, Repr

namespace Stride

def toNat : Stride -> Nat
  | .one => 1
  | .two => 2

end Stride

/-- What the medial vowel of a syllable does to the travel. -/
inductive Movement where
  /-- Travel in the given direction with the given stride from now on. -/
  | go (direction : Direction) (stride : Stride)
  /-- Turn vertical travel around. -/
  | horizontalWall
  /-- Turn horizontal travel around. -/
  | verticalWall
  /-- Turn any travel around. -/
  | wall
  /-- Travel on as before. -/
  | keep
  deriving DecidableEq, Repr

namespace Movement

/-- The movement that a medial vowel spells. -/
def ofMedial : Nat -> Movement
  | 0 => .go .right .one
  | 2 => .go .right .two
  | 4 => .go .left .one
  | 6 => .go .left .two
  | 8 => .go .up .one
  | 12 => .go .up .two
  | 13 => .go .down .one
  | 17 => .go .down .two
  | 18 => .horizontalWall
  | 19 => .wall
  | 20 => .verticalWall
  | _ => .keep

/-- Whether the travel afterwards is the same wherever the cursor came from. -/
def isAbsolute : Movement -> Bool
  | .go _ _ => true
  | _ => false

/-- The direction and stride after the movement. -/
def turn (movement : Movement) (direction : Direction) (stride : Stride) :
    Direction × Stride :=
  match movement with
  | .go newDirection newStride => (newDirection, newStride)
  | .wall => (direction.reversed, stride)
  | .horizontalWall =>
      (if direction.isVertical then direction.reversed else direction, stride)
  | .verticalWall =>
      (if direction.isVertical then direction else direction.reversed, stride)
  | .keep => (direction, stride)

end Movement

/-- A decoded cell. -/
structure Cell where
  opcode : Opcode
  movement : Movement
  /-- The index of the final consonant, at most 27. -/
  final : Nat
  deriving DecidableEq, Repr

namespace Cell

/-- The cell without an effect. -/
def blank : Cell where
  opcode := .noop
  movement := .keep
  final := 0

def isSyllable (c : Char) : Bool :=
  0xAC00 ≤ c.toNat && c.toNat ≤ 0xD7A3

def ofChar (c : Char) : Cell :=
  if isSyllable c then
    let index := c.toNat - 0xAC00
    { opcode := Opcode.ofInitial (index / 588)
      movement := Movement.ofMedial (index / 28 % 21)
      final := index % 28 }
  else
    blank

/-- The constant that each final consonant stands for: the number of strokes it
is written with. -/
def strokes : List Int64 :=
  [0, 2, 4, 4, 2, 5, 5, 3, 5, 7, 9, 9, 7, 9, 9, 8, 4, 4, 6, 2, 4, 1, 3, 4, 3, 4, 4, 3]

def constant (cell : Cell) : Int64 :=
  strokes[cell.final]?.getD 0

/-- The final consonant that makes a push or pop read or write a number. -/
def numberFinal : Nat := 21

/-- The final consonant that makes a push or pop read or write a character. -/
def characterFinal : Nat := 27

/-- The operation of the cell, where the final consonant turns a push or pop into
input or output. -/
def operation (cell : Cell) : Opcode :=
  match cell.opcode with
  | .pop =>
      if cell.final = numberFinal then .popNum
      else if cell.final = characterFinal then .popChar
      else .pop
  | .push =>
      if cell.final = numberFinal then .pushNum
      else if cell.final = characterFinal then .pushChar
      else .push
  | other => other

end Cell
end HangulPane
