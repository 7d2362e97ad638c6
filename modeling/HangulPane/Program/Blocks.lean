import HangulPane.Program.Basic

namespace HangulPane
namespace Program

/-!
Moving blocks to the jumps that enter them.

A block starts after a jump, so that nothing falls into it, ends with a jump, and
has neither a branch nor the target of a jump after its first instruction.  When
exactly one jump leads to its start, and that jump lies outside the block, the
block can take the place of the jump, which saves the jump.  Each such move
shortens the program by one instruction, so the moves come to an end.
-/

/-- Where an unconditional jump at an index leads, if there is one. -/
def jumpDestination? (program : Program) (index : Nat) : Option Nat :=
  match program.code[index]? with
  | some (.jmp label) => some (program.target label)
  | _ => none

def jumpsTo (program : Program) (destination : Nat) : List Nat :=
  (List.range program.size).filter fun index =>
    program.jumpDestination? index == some destination

def isBranchAt (program : Program) (index : Nat) : Bool :=
  (program.code[index]?.map fun instruction => instruction.opcode.isBranch).getD false

/-- The jump that closes the block of which the given indices are the rest. -/
def closingJump? (program : Program) : List Nat -> Option Nat
  | [] => none
  | index :: later =>
      if (program.jumpDestination? index).isSome then some index
      else if !(program.jumpsTo index).isEmpty || program.isBranchAt index then none
      else closingJump? program later

/-- A block of a program of the given size, and the jump whose place it takes. -/
structure Block (size : Nat) where
  start : Nat
  /-- The closing jump. -/
  stop : Nat
  /-- The jump that enters the block. -/
  entry : Nat
  /-- The jump lies before the block or after it. -/
  apart : (entry < start ∧ start ≤ stop ∧ stop < size) ∨
    (start ≤ stop ∧ stop < entry ∧ entry < size)

/-- The block that starts at an index, if it can be moved. -/
def blockAt? (program : Program) (start : Nat) : Option (Block program.size) :=
  match program.jumpsTo start with
  | [entry] =>
      if (program.jumpDestination? (start - 1)).isSome then
        match program.closingJump? (List.range' (start + 1) (program.size - (start + 1))) with
        | none => none
        | some stop =>
            if apart : (entry < start ∧ start ≤ stop ∧ stop < program.size) ∨
                (start ≤ stop ∧ stop < entry ∧ entry < program.size) then
              some { start, stop, entry, apart }
            else
              none
      else
        none
  | _ => none

def movableBlock? (program : Program) : Option (Block program.size) :=
  (List.range' 1 (program.size - 1)).findSome? program.blockAt?

namespace Block

variable {size : Nat}

/-- The old indices in their new order: the block stands where the jump stood,
and the jump is gone. -/
def order (block : Block size) : List Nat :=
  let inside := List.range' block.start (block.stop + 1 - block.start)
  let between (first last : Nat) := List.range' first (last - first)
  if block.stop < block.entry then
    between 0 block.start ++ between (block.stop + 1) block.entry ++ inside ++
      between (block.entry + 1) size
  else
    between 0 block.entry ++ inside ++ between (block.entry + 1) block.start ++
      between (block.stop + 1) size

/-- The new index of an old one.  The removed jump passes its index on to the
block, and all that lies past the end stays there. -/
def newIndex (block : Block size) (index : Nat) : Nat :=
  if index = block.entry then block.order.idxOf block.start
  else if index < size then block.order.idxOf index
  else block.order.length

/-- Moving a block leaves out exactly the jump. -/
theorem length_order_lt (block : Block size) : block.order.length < size := by
  have apart := block.apart
  unfold order
  split
  · simp only [List.length_append, List.length_range']
    omega
  · simp only [List.length_append, List.length_range']
    omega

end Block

/-- The program with a block moved into the place of the jump that enters it. -/
def relocate (program : Program) (block : Block program.size) : Program where
  code := (block.order.filterMap fun index => program.code[index]?).toArray
  labels := program.labels.mapValues block.newIndex
  comments := program.comments.map fun _ => (block.order.map program.commentsAt).toArray

/-- Each move shortens the program. -/
theorem size_relocate_lt (program : Program) (block : Block program.size) :
    (program.relocate block).size < program.size := by
  have kept : (block.order.filterMap fun index => program.code[index]?).length ≤
      block.order.length := List.length_filterMap_le _ _
  have shorter := block.length_order_lt
  simp only [relocate, size, List.size_toArray] at *
  omega

/-- The program after moving blocks for as long as one can be moved. -/
def moveBlocks (program : Program) : Program :=
  match program.movableBlock? with
  | none => program
  | some block => moveBlocks (program.relocate block)
termination_by program.size
decreasing_by exact size_relocate_lt program block

/-- The program with its blocks moved, and without the labels that no longer serve. -/
def reorderBlocks (program : Program) : Program :=
  program.moveBlocks.removeUnusedLabels

end Program
end HangulPane
