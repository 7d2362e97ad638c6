import HangulPane.Opcode
import HangulPane.Text.Decimal

namespace HangulPane

/-!
Instructions of linear code: an operation together with its operand.

A push carries a literal, the two storage instructions carry a slot number, and
the control instructions carry a label.  Slot numbers are bytes, so that an
instruction can name a storage that does not exist; running it is a fault.
-/

def slotCount : Nat := 28

def queueSlot : Nat := 21

def passageSlot : Nat := 27

inductive Instruction where
  | div
  | add
  | mul
  | mod
  | pop
  | push (literal : Int64)
  | dup
  | sel (slot : UInt8)
  /-- Take a value from the selected storage and push it onto another. -/
  | mov (slot : UInt8)
  | noop
  | cmp
  /-- Take a value and go to the label if it is zero. -/
  | brz (label : Nat)
  | sub
  | swap
  | halt
  | popNum
  | popChar
  | pushNum
  | pushChar
  /-- Go to the label if the selected storage holds fewer than two values. -/
  | brPop2 (label : Nat)
  /-- Go to the label if the selected storage is empty. -/
  | brPop1 (label : Nat)
  | jmp (label : Nat)
  deriving DecidableEq, Repr

namespace Instruction

def opcode : Instruction -> Opcode
  | .div => .div
  | .add => .add
  | .mul => .mul
  | .mod => .mod
  | .pop => .pop
  | .push _ => .push
  | .dup => .dup
  | .sel _ => .sel
  | .mov _ => .mov
  | .noop => .noop
  | .cmp => .cmp
  | .brz _ => .brz
  | .sub => .sub
  | .swap => .swap
  | .halt => .halt
  | .popNum => .popNum
  | .popChar => .popChar
  | .pushNum => .pushNum
  | .pushChar => .pushChar
  | .brPop2 _ => .brPop2
  | .brPop1 _ => .brPop1
  | .jmp _ => .jmp

/-- The byte of an operand that names a storage, if it names one. -/
def slot? (operand : Int64) : Option UInt8 :=
  if 0 ≤ operand.toInt ∧ operand.toInt < slotCount then
    some (UInt8.ofNat operand.toInt.toNat)
  else
    none

/-- The instruction with the given operation and operand.  A control operation
takes the operand as a label, negative ones as label zero; an operation without
an operand ignores it.  There is no instruction when the operand should name a
storage and does not. -/
def ofParts? (operation : Opcode) (operand : Int64) : Option Instruction :=
  let label := operand.toInt.toNat
  match operation with
  | .div => some .div
  | .add => some .add
  | .mul => some .mul
  | .mod => some .mod
  | .pop => some .pop
  | .push => some (.push operand)
  | .dup => some .dup
  | .sel => (slot? operand).map .sel
  | .mov => (slot? operand).map .mov
  | .noop => some .noop
  | .cmp => some .cmp
  | .brz => some (.brz label)
  | .sub => some .sub
  | .swap => some .swap
  | .halt => some .halt
  | .popNum => some .popNum
  | .popChar => some .popChar
  | .pushNum => some .pushNum
  | .pushChar => some .pushChar
  | .brPop2 => some (.brPop2 label)
  | .brPop1 => some (.brPop1 label)
  | .jmp => some (.jmp label)

def label? : Instruction -> Option Nat
  | .brz label | .brPop2 label | .brPop1 label | .jmp label => some label
  | _ => none

/-- The same instruction with its label, if it has one, replaced. -/
def mapLabel (rename : Nat -> Nat) : Instruction -> Instruction
  | .brz label => .brz (rename label)
  | .brPop2 label => .brPop2 (rename label)
  | .brPop1 label => .brPop1 (rename label)
  | .jmp label => .jmp (rename label)
  | other => other

def withLabel (label : Nat) (instruction : Instruction) : Instruction :=
  instruction.mapLabel fun _ => label

/-- The literal or slot of an instruction that is not a control instruction. -/
def value? : Instruction -> Option Int
  | .push literal => some literal.toInt
  | .sel slot | .mov slot => some slot.toNat
  | _ => none

/-- The instruction as text: its name, then its literal or slot, or its label
after an at sign. -/
def describe (instruction : Instruction) : String :=
  match instruction.value?, instruction.label? with
  | some value, _ => instruction.opcode.name ++ " " ++ Decimal.ofInt value
  | none, some label => instruction.opcode.name ++ " @" ++ Decimal.ofNat label
  | none, none => instruction.opcode.name

@[simp]
theorem opcode_mapLabel (rename : Nat -> Nat) (instruction : Instruction) :
    (instruction.mapLabel rename).opcode = instruction.opcode := by
  cases instruction <;> rfl

@[simp]
theorem label?_mapLabel (rename : Nat -> Nat) (instruction : Instruction) :
    (instruction.mapLabel rename).label? = instruction.label?.map rename := by
  cases instruction <;> rfl

@[simp]
theorem value?_mapLabel (rename : Nat -> Nat) (instruction : Instruction) :
    (instruction.mapLabel rename).value? = instruction.value? := by
  cases instruction <;> rfl

end Instruction
end HangulPane
