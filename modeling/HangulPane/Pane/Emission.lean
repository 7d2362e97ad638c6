import HangulPane.Instruction
import HangulPane.Pane.Cell

namespace HangulPane
namespace Cell

/-!
The linear code of one cell.

An operation that needs values is preceded by a guard, which goes to the label of
the cell's underflow path if they are missing.  A branch on zero takes the same
way as its guard, because both turn the cursor around.
-/

/-- The number of the slot that the cell's final consonant names. -/
def slot (cell : Cell) : UInt8 :=
  UInt8.ofNat cell.final

def isGuarded (cell : Cell) : Bool :=
  cell.operation.requiredDepth != 0

/-- The instructions of a cell whose underflow path has the given label. -/
def emission (cell : Cell) (label : Nat) : List Instruction :=
  match cell.operation with
  | .noop => []
  | .halt => [.halt]
  | .push => [.push cell.constant]
  | .pushNum => [.pushNum]
  | .pushChar => [.pushChar]
  | .sel => [.sel cell.slot]
  | .mov => [.brPop1 label, .mov cell.slot]
  | .pop => [.brPop1 label, .pop]
  | .popNum => [.brPop1 label, .popNum]
  | .popChar => [.brPop1 label, .popChar]
  | .dup => [.brPop1 label, .dup]
  | .brz => [.brPop1 label, .brz label]
  | .div => [.brPop2 label, .div]
  | .add => [.brPop2 label, .add]
  | .mul => [.brPop2 label, .mul]
  | .mod => [.brPop2 label, .mod]
  | .cmp => [.brPop2 label, .cmp]
  | .sub => [.brPop2 label, .sub]
  | .swap => [.brPop2 label, .swap]
  | .brPop2 | .brPop1 | .jmp => []

end Cell
end HangulPane
