import HangulPane.Console.Basic
import HangulPane.Machine.Fault
import HangulPane.Storage

namespace HangulPane

/-!
The machine and one step of it.

The machine runs linked code, in which every label is the index it stands for.  A
step runs the instruction at the machine's index; an index past the end halts.  An
instruction that needs more values than the selected storage holds is a fault,
except that a guard goes to its label instead.  A fault leaves the index where it
was.
-/

structure Machine (N : Type) where
  /-- The index of the next instruction. -/
  index : Nat
  selected : Slot
  storage : Storage N

/-- How control goes on after a step. -/
inductive Progress where
  /-- To the next instruction. -/
  | continued
  /-- To the target of a jump or branch. -/
  | jumped
  /-- The program has ended. -/
  | halted
  deriving DecidableEq, Repr

/-- A step's result, with the machine and the console after it. -/
structure Stepped (N : Type) where
  result : Except Fault Progress
  machine : Machine N
  console : Console

namespace Machine

variable {N : Type}

/-- The selected storage. -/
def space (machine : Machine N) : Space N :=
  machine.storage.get machine.selected

def withSpace (machine : Machine N) (space : Space N) : Machine N :=
  { machine with storage := machine.storage.set machine.selected space }

def push (machine : Machine N) (value : N) : Machine N :=
  machine.withSpace (machine.space.push value)

def spaceFault (machine : Machine N) (fault : SpaceFault) : Fault :=
  Fault.ofSpace machine.index machine.selected.val fault

def fail (machine : Machine N) (console : Console) (fault : Fault) : Stepped N :=
  { result := .error fault, machine, console }

/-- The step that goes on with the next instruction. -/
def proceed (machine : Machine N) (console : Console) : Stepped N :=
  { result := .ok .continued, machine := { machine with index := machine.index + 1 }, console }

/-- The step that goes on elsewhere. -/
def jump (machine : Machine N) (console : Console) (target : Nat) : Stepped N :=
  { result := .ok .jumped, machine := { machine with index := target }, console }

/-- The step that ends the program. -/
def halt (machine : Machine N) (console : Console) : Stepped N :=
  { result := .ok .halted, machine, console }

/-- Take a value from the selected storage and go on with it. -/
def popThen (machine : Machine N) (console : Console)
    (next : N -> Machine N -> Stepped N) : Stepped N :=
  match machine.space.pop with
  | .error fault => machine.fail console (machine.spaceFault fault)
  | .ok (value, space) => next value (machine.withSpace space)

/-- Go on with the next instruction, the selected storage being what an operation
on it made of it. -/
def proceedWith (machine : Machine N) (console : Console)
    (changed : Except SpaceFault (Space N)) : Stepped N :=
  match changed with
  | .error fault => machine.fail console (machine.spaceFault fault)
  | .ok space => (machine.withSpace space).proceed console

/-- Select a storage, if it exists. -/
def select (machine : Machine N) (console : Console) (slot : UInt8) : Stepped N :=
  match Slot.ofByte? slot with
  | none => machine.fail console (.invalidStorage machine.index slot.toNat)
  | some slot => { machine with selected := slot }.proceed console

/-- Take a value from the selected storage and push it onto another, if that exists. -/
def move (machine : Machine N) (console : Console) (slot : UInt8) : Stepped N :=
  match Slot.ofByte? slot with
  | none => machine.fail console (.invalidStorage machine.index slot.toNat)
  | some slot =>
      machine.popThen console fun value machine =>
        { machine with
          storage := machine.storage.set slot ((machine.storage.get slot).push value) }.proceed
          console

def output (machine : Machine N) (console : Console)
    (write : Console -> N -> Except ChannelFault Unit × Console) : Stepped N :=
  machine.popThen console fun value machine =>
    match write console value with
    | (.error fault, console) => machine.fail console (.channel fault)
    | (.ok (), console) => machine.proceed console

variable [Number N]

def start : Machine N where
  index := 0
  selected := ⟨0, by decide⟩
  storage := Storage.empty

/-- Combine the next two values of the selected storage. -/
def combine (machine : Machine N) (console : Console) (operation : Opcode) : Stepped N :=
  match machine.space.binary operation with
  | (.error fault, space) => (machine.withSpace space).fail console (machine.spaceFault fault)
  | (.ok (), space) => (machine.withSpace space).proceed console

/-- Take a value and go to the target if it is zero. -/
def branchOnZero (machine : Machine N) (console : Console) (target : Nat) : Stepped N :=
  machine.popThen console fun value machine =>
    if Number.isZero value then machine.jump console target else machine.proceed console

def inputNumber (machine : Machine N) (console : Console) : Stepped N :=
  match (console.readNumber : Except ChannelFault (Option N) × Console) with
  | (.error fault, console) => machine.fail console (.channel fault)
  | (.ok none, console) => machine.fail console (.invalidNumber machine.index)
  | (.ok (some value), console) => (machine.push value).proceed console

/-- Read a character and push its code point. -/
def inputChar (machine : Machine N) (console : Console) : Stepped N :=
  match (console.readChar : Except ChannelFault N × Console) with
  | (.error fault, console) => machine.fail console (.channel fault)
  | (.ok value, console) => (machine.push value).proceed console

/-- Run an instruction for which the selected storage holds enough values. -/
def perform (machine : Machine N) (console : Console) (instruction : Instruction) : Stepped N :=
  match instruction with
  | .div => machine.combine console .div
  | .add => machine.combine console .add
  | .mul => machine.combine console .mul
  | .mod => machine.combine console .mod
  | .sub => machine.combine console .sub
  | .cmp => machine.combine console .cmp
  | .pop => machine.popThen console fun _ machine => machine.proceed console
  | .push literal => (machine.push (Number.ofLiteral literal)).proceed console
  | .dup => machine.proceedWith console machine.space.dup
  | .swap => machine.proceedWith console machine.space.swap
  | .sel slot => machine.select console slot
  | .mov slot => machine.move console slot
  | .brz target => machine.branchOnZero console target
  | .popNum => machine.output console Console.writeNumber
  | .popChar => machine.output console Console.writeChar
  | .pushNum => machine.inputNumber console
  | .pushChar => machine.inputChar console
  | .noop | .brPop1 _ | .brPop2 _ => machine.proceed console
  | .jmp target => machine.jump console target
  | .halt => machine.halt console

/-- Run an instruction.  If the selected storage holds too few values, a guard goes
to its target and any other instruction is a fault. -/
def execute (machine : Machine N) (console : Console) (instruction : Instruction) : Stepped N :=
  let required := instruction.opcode.requiredDepth
  let available := machine.space.size
  if available < required then
    match instruction with
    | .brPop1 target | .brPop2 target => machine.jump console target
    | _ =>
        machine.fail console
          (.underflow machine.index machine.selected.val required available)
  else
    machine.perform console instruction

/-- One step on linked code. -/
def step (code : Array Instruction) (machine : Machine N) (console : Console) : Stepped N :=
  match code[machine.index]? with
  | none => machine.halt console
  | some instruction => machine.execute console instruction

end Machine
end HangulPane
