import HangulPane.Exploration
import HangulPane.Pane.Basic
import HangulPane.Pane.Emission
import HangulPane.Program.Basic

namespace HangulPane

/-!
Tracing a pane into a linear program.

A trace follows the cursor from cell to cell and writes down the code of each
cell it meets for the first time.  It ends at a halt, or with a jump when it meets
a cell that was already traced with the same travel.  The underflow path of a
guarded cell is left for later; those left-over paths are traced in the order in
which they were found, each under its own label.

What counts as the same travel is the cursor after an absolute movement and
before any other one, so that cells which forget where the cursor came from are
traced once.  There are eight cursors for every position, and each step of a trace
uses up a new one, which is why tracing ends.
-/

/-- A position together with the travel there. -/
structure Cursor where
  position : Position
  direction : Direction
  stride : Stride
  deriving DecidableEq, Repr

/-- Where the code of a traced cursor stands. -/
structure Landing where
  /-- The instruction of the cell itself, or the next one if it has none. -/
  code : Nat
  /-- The guard before it. -/
  guard : Option Nat
  deriving DecidableEq, Repr

/-- Where a jump to the cursor goes: to the guard, if there is one. -/
def Landing.entry (landing : Landing) : Nat :=
  landing.guard.getD landing.code

/-- A path that is still to be traced, under a label of its own. -/
structure PendingPath where
  cursor : Cursor
  label : Nat
  deriving DecidableEq, Repr

/-- A program in the making. -/
structure Tracing where
  code : Array Instruction
  labels : Table
  /-- The landing of each cursor traced so far, by its number. -/
  landings : Memo Landing
  /-- The paths left for later, in order. -/
  pending : List PendingPath
  nextLabel : Nat
  /-- Where instructions came from, in the order of tracing. -/
  origins : Array (Nat × String)

namespace Pane

/-- The number of columns that cursors are counted by. -/
def span (pane : Pane) : Nat :=
  max pane.width 1

/-- The number of a cursor among those of the pane. -/
def cursorNumber (pane : Pane) (cursor : Cursor) : Nat :=
  ((cursor.position.row * pane.span + cursor.position.column) * 4 +
    cursor.direction.toNat) * 2 + (cursor.stride.toNat - 1)

/-- How many cursors the pane has: eight for every position. -/
def cursorCount (pane : Pane) : Nat :=
  pane.height * pane.span * 8

/-- The texts that tell where the code of a cursor came from: the syllable, if
there is one, then the position and the travel. -/
def originTexts (pane : Pane) (cursor : Cursor) : List String :=
  let syllable :=
    match pane.charAt? cursor.position with
    | some c => if Cell.isSyllable c then [c.toString] else []
    | none => []
  syllable ++ [cursor.position.describe ++ " " ++ Text.padRight 5 cursor.direction.name ++
    Decimal.ofNat cursor.stride.toNat]

/-- The cursor with which the cell at a position is traced: after an absolute
movement, and before any other. -/
def tracedCursor (cell : Cell) (position : Position) (direction : Direction)
    (stride : Stride) : Cursor :=
  if cell.movement.isAbsolute then
    let (direction, stride) := cell.movement.turn direction stride
    { position, direction, stride }
  else
    { position, direction, stride }

end Pane

namespace Tracing

def start (pane : Pane) : Tracing where
  code := #[]
  labels := Table.empty
  landings := Array.replicate pane.cursorCount none
  pending := []
  nextLabel := 0
  origins := #[]

/-- Where the code of a cell will stand. -/
def landingOf (tracing : Tracing) (cell : Cell) : Landing :=
  let size := tracing.code.size
  if cell.isGuarded then { code := size + 1, guard := some size }
  else { code := size, guard := none }

/-- The tracing after the code of a cell.  The direction and stride are those with
which the cursor leaves, which the underflow path turns around. -/
def emitCell (tracing : Tracing) (pane : Pane) (cursor : Cursor) (cell : Cell)
    (direction : Direction) (stride : Stride)
    (inside : pane.cursorNumber cursor < tracing.landings.size) : Tracing :=
  let label := tracing.nextLabel
  let landing := tracing.landingOf cell
  let reversed := direction.reversed
  { code := tracing.code ++ cell.emission label
    labels := tracing.labels
    landings := tracing.landings.set (pane.cursorNumber cursor) (some landing) inside
    pending :=
      if cell.isGuarded then
        tracing.pending ++
          [{ cursor :=
              { position := pane.advance cursor.position reversed stride
                direction := reversed
                stride := stride }
             label := label }]
      else tracing.pending
    nextLabel := if cell.isGuarded then label + 1 else label
    origins := tracing.origins ++
      (pane.originTexts cursor).map fun text => (landing.code, text) }

/-- The tracing after a jump to code that is already there. -/
def closeWithJump (tracing : Tracing) (landing : Landing) : Tracing :=
  let label := tracing.nextLabel
  { tracing with
    code := tracing.code.push (.jmp label)
    labels := tracing.labels.insert label landing.entry
    nextLabel := label + 1 }

/-- Trace one path to its end. -/
def trace (pane : Pane) (tracing : Tracing) (cursor : Cursor) : Tracing :=
  match pane.nextCell? cursor.position cursor.direction cursor.stride with
  | none => tracing
  | some position =>
      let cell := pane.cellAt position
      let traced := Pane.tracedCursor cell position cursor.direction cursor.stride
      if inside : pane.cursorNumber traced < tracing.landings.size then
        match known : tracing.landings[pane.cursorNumber traced] with
        | some landing => tracing.closeWithJump landing
        | none =>
            let leaving := cell.movement.turn cursor.direction cursor.stride
            let emitted := tracing.emitCell pane traced cell leaving.1 leaving.2 inside
            if cell.operation = .halt then emitted
            else
              have : emitted.landings.unseen < tracing.landings.unseen :=
                Memo.unseen_set_lt inside _ known
              trace pane emitted
                { position := pane.advance position leaving.1 leaving.2
                  direction := leaving.1
                  stride := leaving.2 }
      else
        tracing
termination_by tracing.landings.unseen

/-- A trace uses up a cursor, or it finds no new path. -/
theorem trace_progress (pane : Pane) (tracing : Tracing) (cursor : Cursor) :
    (trace pane tracing cursor).landings.unseen < tracing.landings.unseen ∨
      ((trace pane tracing cursor).landings.unseen = tracing.landings.unseen ∧
        (trace pane tracing cursor).pending = tracing.pending) := by
  rw [trace]
  split
  · exact Or.inr ⟨rfl, rfl⟩
  · rename_i position found
    dsimp only
    split
    · rename_i inside
      split
      · exact Or.inr ⟨rfl, rfl⟩
      · rename_i known
        have fewer := Memo.unseen_set_lt inside
          (tracing.landingOf (pane.cellAt position)) known
        split
        · exact Or.inl fewer
        · left
          rcases trace_progress pane
            (tracing.emitCell pane
              (Pane.tracedCursor (pane.cellAt position) position cursor.direction cursor.stride)
              (pane.cellAt position)
              ((pane.cellAt position).movement.turn cursor.direction cursor.stride).1
              ((pane.cellAt position).movement.turn cursor.direction cursor.stride).2 inside)
            { position := pane.advance position
                ((pane.cellAt position).movement.turn cursor.direction cursor.stride).1
                ((pane.cellAt position).movement.turn cursor.direction cursor.stride).2
              direction :=
                ((pane.cellAt position).movement.turn cursor.direction cursor.stride).1
              stride :=
                ((pane.cellAt position).movement.turn cursor.direction cursor.stride).2 }
            with progress | ⟨same, _⟩
          · exact Nat.lt_trans progress fewer
          · rw [same]
            exact fewer
    · exact Or.inr ⟨rfl, rfl⟩
termination_by tracing.landings.unseen
decreasing_by exact fewer

/-- The tracing with its first pending path taken up: the path's label stands for
the code that comes next. -/
def takeUp (tracing : Tracing) (path : PendingPath) (later : List PendingPath) : Tracing :=
  { tracing with
    labels := tracing.labels.insert path.label tracing.code.size
    pending := later }

/-- Trace the pending paths in order until none is left. -/
def drain (pane : Pane) (tracing : Tracing) : Tracing :=
  match _queued : tracing.pending with
  | [] => tracing
  | path :: later => drain pane (trace pane (tracing.takeUp path later) path.cursor)
termination_by (tracing.landings.unseen, tracing.pending.length)
decreasing_by
  rcases trace_progress pane (tracing.takeUp path later) path.cursor with progress | ⟨same, kept⟩
  · exact Prod.Lex.left _ _ progress
  · rw [same, kept, _queued]
    exact Prod.Lex.right _ (Nat.lt_succ_self _)

/-- The comments of a program of the given size, gathered from the origins. -/
def commentsOf (size : Nat) (origins : Array (Nat × String)) : Array (List String) :=
  origins.foldl (fun comments origin => comments.modify origin.1 (· ++ [origin.2]))
    (Array.replicate size [])

end Tracing

namespace Pane

/-- The cursor at which every program starts: the first cell, moving down. -/
def origin : Cursor where
  position := { row := 0, column := 0 }
  direction := .down
  stride := .one

/-- The linear program of a pane, with the origin of each instruction as its
comment on request. -/
def toProgram (pane : Pane) (withComments : Bool) : Program :=
  let tracing :=
    if pane.isEmpty then Tracing.start pane
    else Tracing.drain pane (Tracing.trace pane (Tracing.start pane) origin)
  { code := tracing.code
    labels := tracing.labels
    comments :=
      if withComments then some (Tracing.commentsOf tracing.code.size tracing.origins)
      else none }

end Pane
end HangulPane
