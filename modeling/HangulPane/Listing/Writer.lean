import HangulPane.Program.Basic
import HangulPane.Text.Column

namespace HangulPane
namespace Listing

/-!
Programs as listings, one instruction to a line.

An index that some label stands for is written before its instruction as a label
of its own, the end of the program on a line without an instruction.  Control
instructions name the index they lead to.  With comments, each line also tells its
index and what the instruction came from.
-/

/-- The name of an operation, names of three letters made as wide as those of
four. -/
def paddedName (operation : Opcode) : String :=
  Text.padRight 4 operation.name

/-- The label that stands before the instruction at an index. -/
def indexLabel (index : Nat) : String :=
  "L" ++ Decimal.ofNat index ++ ":"

def labelColumn (program : Program) (index : Nat) : String :=
  if 0 < program.targetCount index then Text.padRight 8 (indexLabel index)
  else Text.spaces 8

/-- The name of an instruction and its operand. -/
def codeColumn (program : Program) (instruction : Instruction) : String :=
  let name := paddedName instruction.opcode
  match instruction.label?, instruction.value? with
  | some label, _ =>
      name ++ " L" ++ Text.padRight 3 (Decimal.ofNat (program.target label))
  | none, some value => name ++ " " ++ Text.padRight 4 (Decimal.ofInt value)
  | none, none => name

def commentColumn (program : Program) (index : Nat) : String :=
  " ; L" ++ Text.padRight 3 (Decimal.ofNat index) ++ " " ++ program.commentText index

def line (program : Program) (commented : Bool) (index : Nat) (instruction : Instruction) :
    String :=
  labelColumn program index ++ Text.padRight 10 (codeColumn program instruction) ++
    (if commented then commentColumn program index else "") ++ "\n"

def write (program : Program) (commented : Bool) : String :=
  String.join (program.code.toList.zipIdx.map fun (instruction, index) =>
    line program commented index instruction) ++
    (if 0 < program.targetCount program.size then indexLabel program.size ++ "\n" else "")

end Listing
end HangulPane
