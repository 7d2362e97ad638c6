import HangulPane.Instruction
import HangulPane.Table

namespace HangulPane

/-!
Linear programs: instructions, a table of labels, and optional comments.

A label stands for an instruction index; a label that was never bound stands for
the end of the program.  Nothing else is demanded of a program: labels may be
unused or point past the end, and the comments may be fewer than the
instructions.
-/

structure Program where
  code : Array Instruction
  /-- The index that each label stands for. -/
  labels : Table
  /-- What each instruction came from, if that was recorded. -/
  comments : Option (Array (List String))
  deriving DecidableEq

namespace Program

def empty : Program where
  code := #[]
  labels := Table.empty
  comments := none

def size (program : Program) : Nat :=
  program.code.size

/-- The index that a label stands for; unbound labels stand for the end. -/
def target (program : Program) (label : Nat) : Nat :=
  (program.labels.find? label).getD program.size

/-- Where the control instruction at an index leads, if there is one. -/
def jumpTarget? (program : Program) (index : Nat) : Option Nat :=
  (program.code[index]?.bind Instruction.label?).map program.target

/-- The instructions with every label replaced by the index it stands for.  This
is all that running a program depends on. -/
def linked (program : Program) : Array Instruction :=
  program.code.map (Instruction.mapLabel program.target)

/-- The largest index there is, and the largest label: both are words of sixty-four bits. -/
def maxIndex : Nat := 0xFFFFFFFFFFFFFFFF

/-- The label after the largest bound one, if there is one. -/
def freshLabel? (program : Program) : Option Nat :=
  match program.labels.keys.max? with
  | none => some 0
  | some largest => if largest < maxIndex then some (largest + 1) else none

/-- How many labels stand for an index. -/
def targetCount (program : Program) (index : Nat) : Nat :=
  program.labels.entries.countP fun entry => entry.2 == index

/-- How many labels stand for each index, the end of the program included. -/
def targetCounts (program : Program) : Array Nat :=
  (Array.range (program.size + 1)).map program.targetCount

/-- The indices that exactly one label stands for, each with that label. -/
def uniqueLabels (program : Program) : Table :=
  Table.ofList ((program.labels.entries.filter fun entry =>
    program.targetCount entry.2 == 1).map Prod.swap)

/-- The labels that the instructions refer to, in order, with repetitions. -/
def referredLabels (program : Program) : List Nat :=
  program.code.toList.filterMap Instruction.label?

/-- How many instructions refer to each label that is referred to. -/
def labelUses (program : Program) : Table :=
  program.referredLabels.foldl
    (fun uses label => uses.insert label ((uses.find? label).getD 0 + 1)) Table.empty

def commentsAt (program : Program) (index : Nat) : List String :=
  (program.comments.bind fun comments => comments[index]?).getD []

def commentText (program : Program) (index : Nat) : String :=
  " / ".intercalate (program.commentsAt index)

/-- The program without the labels that no instruction refers to. -/
def removeUnusedLabels (program : Program) : Program :=
  let referred := program.referredLabels
  { program with labels := program.labels.filterKeys fun label => referred.contains label }

/-- The instructions that can run directly after the one at an index: none after
a halt, the target after a jump, both after a branch, else the next one.  An
index at or past the end stands for leaving the program. -/
def successors (program : Program) (index : Nat) : List Nat :=
  match program.code[index]? with
  | none => []
  | some .halt => []
  | some (.jmp label) => [program.target label]
  | some (.brz label) | some (.brPop1 label) | some (.brPop2 label) =>
      [index + 1, program.target label]
  | some _ => [index + 1]

end Program
end HangulPane
