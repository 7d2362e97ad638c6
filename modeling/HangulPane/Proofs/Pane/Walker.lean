import HangulPane.Pane.Trace
import HangulPane.Proofs.Machine.Observation

namespace HangulPane

/-!
Running a program directly on its pane.

A walker has a cursor on the pane, a selected slot and storages.  Where there is no cell
it moves on.  At a cell it turns as the cell says and runs the cell's operation.  If the
selected storage holds too few values for it, or if a branch finds a zero, the walker
leaves the cell turned around.  On a pane without cells a walker moves on for ever.
-/

namespace Cell

/-- The instruction that a cell stands for.  A walker has no labels, so a branch carries
the label zero. -/
def action (cell : Cell) : Instruction :=
  match cell.operation with
  | .div => .div
  | .add => .add
  | .mul => .mul
  | .mod => .mod
  | .pop => .pop
  | .push => .push cell.constant
  | .dup => .dup
  | .sel => .sel cell.slot
  | .mov => .mov cell.slot
  | .cmp => .cmp
  | .brz => .brz 0
  | .sub => .sub
  | .swap => .swap
  | .halt => .halt
  | .popNum => .popNum
  | .popChar => .popChar
  | .pushNum => .pushNum
  | .pushChar => .pushChar
  | .noop | .brPop2 | .brPop1 | .jmp => .noop

end Cell

namespace Pane

/-- The cursor after the cell it stands on, travelling on. -/
def leaving (pane : Pane) (cursor : Cursor) : Cursor :=
  let (direction, stride) := (pane.cellAt cursor.position).movement.turn cursor.direction
    cursor.stride
  { position := pane.advance cursor.position direction stride, direction, stride }

/-- The cursor after the cell it stands on, turned around. -/
def turningBack (pane : Pane) (cursor : Cursor) : Cursor :=
  let (direction, stride) := (pane.cellAt cursor.position).movement.turn cursor.direction
    cursor.stride
  { position := pane.advance cursor.position direction.reversed stride
    direction := direction.reversed
    stride }

/-- The cursor moved on from where there is no cell. -/
def movingOn (pane : Pane) (cursor : Cursor) : Cursor :=
  { cursor with position := pane.advance cursor.position cursor.direction cursor.stride }

end Pane

/-- The state of a program that runs on its pane. -/
structure Walker (N : Type) where
  cursor : Cursor
  selected : Slot
  storage : Storage N

namespace Walker

variable {N : Type}

/-- The machine with the storages of a walker. -/
def machine (walker : Walker N) : Machine N where
  index := 0
  selected := walker.selected
  storage := walker.storage

/-- The walker with the storages of a machine. -/
def ofMachine (machine : Machine N) (cursor : Cursor) : Walker N where
  cursor := cursor
  selected := machine.selected
  storage := machine.storage

/-- The walker before its first step. -/
def start [Number N] : Walker N :=
  ofMachine Machine.start Pane.origin

/-- How a walker stops at a cell, with the storages of a machine. -/
def stop (machine : Machine N) (fault? : Option Fault) : Stop N where
  fault? := fault?.map (Fault.movedTo 0)
  machine := machine.movedTo 0
  inside := true

/-- What follows after a cell whose operation was run. -/
def continuation (pane : Pane) (cursor : Cursor) (stepped : Stepped N) :
    Continuation N (Walker N) :=
  match stepped.result with
  | .ok .continued => .goOn (ofMachine stepped.machine (pane.leaving cursor))
  | .ok .jumped => .goOn (ofMachine stepped.machine (pane.turningBack cursor))
  | .ok .halted => .ended (stop stepped.machine none)
  | .error fault => .ended (stop stepped.machine (some fault))

/-- The steps of a walker. -/
def process [Number N] (pane : Pane) : Process N (Walker N) := fun walker console =>
  if pane.contains walker.cursor.position then
    let cell := pane.cellAt walker.cursor.position
    if walker.machine.space.size < cell.operation.requiredDepth then
      { call := none
        console
        next := .goOn { walker with cursor := pane.turningBack walker.cursor } }
    else
      let stepped := walker.machine.perform console cell.action
      { call := walker.machine.callOf console cell.action
        console := stepped.console
        next := continuation pane walker.cursor stepped }
  else
    { call := none
      console
      next := .goOn { walker with cursor := pane.movingOn walker.cursor } }

end Walker
end HangulPane
