import HangulPane.Number.Combine
import HangulPane.Number.Word
import HangulPane.Program.Reach

namespace HangulPane
namespace Program

/-!
Constant folding.

An operation on two literals becomes the literal of its value, a duplicate of a
literal becomes that literal, and two literals before a jump to an operation that
only this jump enters are combined before the jump.  Only instructions that never
run with the queue or the passage selected are folded: the queue takes its operands
in the opposite order, and the passage duplicates its last push.  No label may stand
for an index inside what is folded.

The pass works through the program once and keeps three facts about labels up to
date as it moves them: how many stand for each index, which indices have exactly
one, and how often each is referred to.  It breaks off at a jump whose label stands
for the largest index there is, because it asks for the one after that.
-/

def maxLiteral : Int := 0xFFFFFF

/-- The index after another one, if there is one.  No program is as long as the largest index
says, so only a label past the end can stand for an index without a next one. -/
def nextIndex? (program : Program) (index : Nat) : Option Nat :=
  if index ≤ program.size ∨ index < maxIndex then some (index + 1) else none

/-- A program while it is being folded. -/
structure Folding where
  program : Program
  /-- Whether each instruction is still needed. -/
  live : Array Bool
  /-- How many labels stand for each index. -/
  targets : Array Nat
  /-- The indices that exactly one label stands for, with that label. -/
  unique : Table
  /-- How many instructions refer to each label. -/
  uses : Table

/-- The value of an operation on two literals, if it is an admissible literal. -/
def foldedValue? (instruction : Instruction) (left right : Int64) : Option Int64 :=
  match Number.combine instruction.opcode left right with
  | .ok value => if 0 ≤ value.toInt ∧ value.toInt ≤ maxLiteral then some value else none
  | .error _ => none

/-- The closest instruction before an index that is not idle. -/
def previous? (code : Array Instruction) : Nat -> Option Nat
  | 0 => none
  | index + 1 =>
      if code[index]? = some .noop then previous? code index else some index

/-- Whether an instruction only ever runs with a stack selected. -/
def isStackOnly (context : Array (Option Bool)) (index : Nat) : Bool :=
  context[index]? == some (some false)

namespace Folding

/-- The folding before anything was folded: what is reached is needed. -/
def start (program : Program) : Folding where
  program := program
  live := program.storageContext.map Option.isSome
  targets := program.targetCounts
  unique := program.uniqueLabels
  uses := program.labelUses

def at? (folding : Folding) (index : Nat) : Option Instruction :=
  folding.program.code[index]?

def replace (folding : Folding) (index : Nat) (instruction : Instruction) : Folding :=
  { folding with
    program := { folding.program with
      code := folding.program.code.setIfInBounds index instruction } }

/-- The folding with an instruction made idle and no longer needed. -/
def discard (folding : Folding) (index : Nat) : Folding :=
  let folding := folding.replace index .noop
  { folding with live := folding.live.setIfInBounds index false }

/-- Whether some label stands for an index from `first` to `last`. -/
def hasTarget (folding : Folding) (first last : Nat) : Bool :=
  (List.range' first (last + 1 - first)).any fun index =>
    0 < folding.targets[index]?.getD 0

/-- Fold the duplicate at an index if it repeats a literal. -/
def foldDuplicate (context : Array (Option Bool)) (folding : Folding) (index : Nat) :
    Folding :=
  if folding.at? index = some .dup then
    match previous? folding.program.code index with
    | none => folding
    | some before =>
        if isStackOnly context index && isStackOnly context before &&
            !folding.hasTarget (before + 1) index then
          match folding.at? before with
          | some (.push literal) => folding.replace index (.push literal)
          | _ => folding
        else
          folding
  else
    folding

/-- The comments of one instruction added to those of another. -/
def moveComments (folding : Folding) (source destination : Nat) : Folding :=
  let moved := folding.program.commentsAt source
  { folding with
    program := { folding.program with
      comments := folding.program.comments.map fun comments =>
        comments.modify destination (· ++ moved) } }

/-- A label moved from an index to the next one, with the facts about labels kept
up to date. -/
def advanceLabel (folding : Folding) (label target : Nat) : Folding :=
  let targets := (folding.targets.modify target (· - 1)).modify (target + 1) (· + 1)
  let unique := folding.unique.erase target
  { folding with
    program := { folding.program with
      labels := folding.program.labels.insert label (target + 1) }
    targets := targets
    unique :=
      if targets[target + 1]? = some 1 then unique.insert (target + 1) label
      else unique.erase (target + 1) }

/-- Fold two literals before a jump with the operation that the jump leads to, which the
label of the jump then moves past. -/
def foldWithTarget (folding : Folding) (right left label : Nat)
    (rightValue leftValue : Int64) : Folding :=
  let target := folding.program.target label
  match folding.at? target with
  | none => folding
  | some operation =>
      if operation.opcode.isBinary then
        match foldedValue? operation leftValue rightValue with
        | none => folding
        | some value =>
            ((((folding.replace right (.push value)).discard left).advanceLabel label
              target).moveComments target right)
      else
        folding

/-- Fold two literals before a jump if this jump's label alone leads to where it goes and
something comes after that.  The pass breaks off where no index comes after that. -/
def foldThroughJump? (folding : Folding) (right left label : Nat)
    (rightValue leftValue : Int64) : Option Folding :=
  let target := folding.program.target label
  if folding.unique.find? target = some label ∧ folding.uses.find? label = some 1 then
    (folding.program.nextIndex? target).map fun next =>
      if next < folding.program.size then
        folding.foldWithTarget right left label rightValue leftValue
      else
        folding
  else
    some folding

/-- The literal that a pushing instruction leaves, where a duplicate repeats the
one before it. -/
def pushedValue? (leftValue : Int64) : Option Instruction -> Option Int64
  | some (.push literal) => some literal
  | some .dup => some leftValue
  | _ => none

/-- Fold the operation or jump at an index if two literals come before it. -/
def foldOperation? (context : Array (Option Bool)) (folding : Folding) (index : Nat) :
    Option Folding :=
  match previous? folding.program.code index with
  | none => some folding
  | some right =>
      match previous? folding.program.code right with
      | none => some folding
      | some left =>
          match folding.at? left with
          | some (.push leftValue) =>
              match pushedValue? leftValue (folding.at? right) with
              | none => some folding
              | some rightValue =>
                  if isStackOnly context index && isStackOnly context right &&
                      isStackOnly context left && !folding.hasTarget (left + 1) index then
                    match folding.at? index with
                    | some (.jmp label) =>
                        folding.foldThroughJump? right left label rightValue leftValue
                    | some instruction =>
                        if instruction.opcode.isBinary then
                          match foldedValue? instruction leftValue rightValue with
                          | none => some folding
                          | some value =>
                              some (((folding.replace index (.push value)).discard right).discard
                                left)
                        else
                          some folding
                    | none => some folding
                  else
                    some folding
          | _ => some folding

end Folding

/-- The folded program, and for each instruction whether it is still needed; nothing if the
pass broke off.  Duplicates are folded on request. -/
def foldConstants? (program : Program) (duplicates : Bool) : Option (Program × Array Bool) :=
  let context := program.storageContext
  let started := Folding.start program
  let folding :=
    if duplicates then
      (List.range' 1 (program.size - 1)).foldl (Folding.foldDuplicate context) started
    else
      started
  ((List.range' 2 (program.size - 2)).foldlM (Folding.foldOperation? context) folding).map
    fun folded => (folded.program, folded.live)

end Program
end HangulPane
