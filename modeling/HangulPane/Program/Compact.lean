import HangulPane.Program.Basic

namespace HangulPane
namespace Program

/-!
Compaction: deleting the instructions that are not alive.

The survivors keep their order.  A label lands on the first survivor at or after
the index it stood for, so the new index is the number of survivors before it.
Labels are entered anew in the order in which the survivors refer to them; all
others are dropped.  The comments of deleted instructions go to the next
survivor.
-/

/-- Whether an instruction is alive; an index without an entry is not. -/
def isAlive (live : Array Bool) (index : Nat) : Bool :=
  live[index]?.getD false

def survivorsBefore (live : Array Bool) (index : Nat) : Nat :=
  (List.range index).countP (isAlive live)

def survivors (program : Program) (live : Array Bool) : List Nat :=
  (List.range program.size).filter (isAlive live)

def survivingCode (program : Program) (live : Array Bool) : List Instruction :=
  (program.survivors live).filterMap fun index => program.code[index]?

/-- The index at which a label lands. -/
def compactedTarget (program : Program) (live : Array Bool) (label : Nat) : Nat :=
  survivorsBefore live (min (program.target label) program.size)

/-- The comments of the survivors among the instructions from `index` on, where
`carried` are those of the deleted instructions directly before. -/
def gatherComments (program : Program) (live : Array Bool) (carried : List String) :
    List Nat -> List (List String)
  | [] => []
  | index :: later =>
      let gathered := carried ++ program.commentsAt index
      if isAlive live index then gathered :: gatherComments program live [] later
      else gatherComments program live gathered later

/-- The program without the instructions that are not alive. -/
def compact (program : Program) (live : Array Bool) : Program :=
  let code := program.survivingCode live
  { code := code.toArray
    labels := (code.filterMap Instruction.label?).foldl
      (fun labels label => labels.insert label (program.compactedTarget live label)) Table.empty
    comments := program.comments.map fun _ =>
      (gatherComments program live [] (List.range program.size)).toArray }

end Program
end HangulPane
