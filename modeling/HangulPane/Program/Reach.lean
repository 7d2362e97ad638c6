import HangulPane.Exploration
import HangulPane.Program.Basic

namespace HangulPane
namespace Program

/-!
Which instructions control flow can reach from the first one, and with which
kind of storage selected.
-/

/-- The control-flow graph of a program, with nothing to know but arrival. -/
def reachGraph (program : Program) : Exploration Unit where
  places := program.size
  weight _ := 0
  join _ _ := none
  join_lt := by simp
  pass _ _ := none
  pass_lt := by simp
  follow index _ := (program.successors index).map fun next => (next, ())

/-- For each instruction, whether control flow reaches it from the first one. -/
def reachable (program : Program) : Array Bool :=
  (program.reachGraph.outcome [(0, ())]).map Option.isSome

/-- Whether a slot holds the queue or the passage. -/
def isSpecialSlot (slot : UInt8) : Bool :=
  slot.toNat == queueSlot || slot.toNat == passageSlot

/-- Whether the queue or the passage is selected after an instruction. -/
def specialAfter (instruction : Instruction) (special : Bool) : Bool :=
  match instruction with
  | .sel slot => isSpecialSlot slot
  | _ => special

/-- The control-flow graph of a program, with the knowledge whether the queue or
the passage may be selected. -/
def contextGraph (program : Program) : Exploration Bool where
  places := program.size
  weight special := if special then 0 else 1
  join recorded arriving := if arriving && !recorded then some true else none
  join_lt := by
    intro recorded arriving joined joining
    cases recorded <;> cases arriving <;> simp_all
  pass _ _ := none
  pass_lt := by simp
  follow index special :=
    match program.code[index]? with
    | none => []
    | some instruction =>
        (program.successors index).map fun next => (next, specialAfter instruction special)

/-- For each instruction, whether it may run with the queue or the passage selected;
nothing if it is not reached at all. -/
def storageContext (program : Program) : Array (Option Bool) :=
  program.contextGraph.outcome [(0, false)]

end Program
end HangulPane
