import HangulPane.Program.Blocks
import HangulPane.Program.Collapse
import HangulPane.Program.Compact
import HangulPane.Program.Depth
import HangulPane.Program.Fold

namespace HangulPane

/-!
The levels of optimisation.  The passes of a level run in a fixed order, since
each relies on the layout that the ones before it leave.
-/

/-- How much effort goes into optimising. -/
inductive OptimizationLevel where
  /-- Leave the program as it is. -/
  | plain
  /-- Coarse depth analysis and constant folding. -/
  | coarse
  /-- Precise depth analysis, block moving and constant folding. -/
  | precise
  deriving DecidableEq, Repr

namespace OptimizationLevel

def ofNat? : Nat -> Option OptimizationLevel
  | 0 => some .plain
  | 1 => some .coarse
  | 2 => some .precise
  | _ => none

def toNat : OptimizationLevel -> Nat
  | .plain => 0
  | .coarse => 1
  | .precise => 2

end OptimizationLevel

namespace Program

/-- Collapse jumps and delete what the coarse depth analysis finds no use for. -/
def pruneCoarsely (program : Program) : Program :=
  let collapsed := program.collapseJumps
  collapsed.compact collapsed.coarselyLive

/-- Collapse jumps, delete what the precise depth analysis finds no use for, and
move blocks. -/
def prunePrecisely (program : Program) : Program :=
  let collapsed := program.collapseJumps
  (collapsed.compact collapsed.preciselyLive).reorderBlocks

/-- Fold constants, collapse jumps once more, and delete what was folded away or
is no longer reached.  Folding does not break off after the passes that come before it,
which leave no label past the end. -/
def foldAndSweep (program : Program) : Program :=
  match program.foldConstants? true with
  | none => program
  | some (folded, needed) =>
      let collapsed := folded.collapseJumps
      collapsed.compact
        (Array.zipWith (fun left right => left && right) needed collapsed.reachable)

def optimize (level : OptimizationLevel) (program : Program) : Program :=
  match level with
  | .plain => program
  | .coarse => program.pruneCoarsely.foldAndSweep
  | .precise => program.prunePrecisely.foldAndSweep

end Program
end HangulPane
