import HangulPane.Program.Basic

namespace HangulPane
namespace Program

/-!
Collapsing jumps to jumps.

A label that stands for a jump can as well stand for what that jump leads to.
One round goes through the labels in the order of their table and moves each at
most one jump ahead; a label sees the moves of those before it.  A label on a
jump to itself stays.
-/

/-- The program with one label moved past the jump it stands for, if it does and
the jump leads elsewhere. -/
def collapseLabel (program : Program) (label : Nat) : Program :=
  let target := program.target label
  match program.code[target]? with
  | some (.jmp next) =>
      let indirect := program.target next
      if indirect = target then program
      else { program with labels := program.labels.insert label indirect }
  | _ => program

/-- The program after one round of collapsing. -/
def collapseJumps (program : Program) : Program :=
  program.labels.keys.foldl collapseLabel program

end Program
end HangulPane
