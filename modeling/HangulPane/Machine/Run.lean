import HangulPane.Machine.Step
import HangulPane.Program.Basic

namespace HangulPane

/-!
Runs of a machine: step after step until the program halts, a fault ends it, or
the number of steps it may take is used up.

At the end of a run the output is flushed.  If that fails, it is what ended the run,
whatever else did.  Otherwise a run that has halted takes its result from the
selected storage, zero if that is empty.
-/

inductive Ending (N : Type) where
  /-- The program halted with a result. -/
  | finished (value : N)
  | faulted (fault : Fault)
  /-- The steps were used up before. -/
  | unfinished

/-- A run, with the machine and the console after it. -/
structure Run (N : Type) where
  ending : Ending N
  machine : Machine N
  console : Console
  /-- The number of steps, the last one included. -/
  steps : Nat

/-- One step of a run, with what it wrote. -/
structure Snapshot (N : Type) where
  result : Except Fault Progress
  machine : Machine N
  output : Array UInt8

namespace Machine

variable {N : Type} [Number N]

/-- The machine without its result, and the result: the next value of the selected
storage, or zero. -/
def takeResult (machine : Machine N) : N × Machine N :=
  match machine.space.pop with
  | .error _ => (Number.zero, machine)
  | .ok (value, space) => (value, machine.withSpace space)

/-- The run that a machine ends at a halt or, if there is one, by a fault, after the
given number of steps. -/
def conclude (machine : Machine N) (console : Console) (fault? : Option Fault) (steps : Nat) :
    Run N :=
  match console.flush with
  | (.error fault, console) => { ending := .faulted (.channel fault), machine, console, steps }
  | (.ok (), console) =>
      match fault? with
      | some fault => { ending := .faulted fault, machine, console, steps }
      | none =>
          let (value, machine) := machine.takeResult
          { ending := .finished value, machine, console, steps }

/-- Run for at most the given number of steps, some having been taken already. -/
def runFrom (code : Array Instruction) (taken : Nat) :
    Nat -> Machine N -> Console -> Run N
  | 0, machine, console => { ending := .unfinished, machine, console, steps := taken }
  | bound + 1, machine, console =>
      match machine.step code console with
      | { result := .ok .halted, machine, console } =>
          machine.conclude console none (taken + 1)
      | { result := .error fault, machine, console } =>
          machine.conclude console (some fault) (taken + 1)
      | { result := .ok _, machine, console } => runFrom code (taken + 1) bound machine console

/-- Run a program from its start for at most the given number of steps. -/
def run (program : Program) (bound : Nat) (console : Console) : Run N :=
  runFrom program.linked 0 bound start console

/-- The steps of a run, at most the given number, each with what it wrote, and the
console after them. -/
def traceFrom (code : Array Instruction) :
    Nat -> Machine N -> Console -> List (Snapshot N) × Console
  | 0, _, console => ([], console)
  | bound + 1, machine, console =>
      let stepped := machine.step code console
      let snapshot : Snapshot N :=
        { result := stepped.result
          machine := stepped.machine
          output := stepped.console.output.written }
      let console := stepped.console.withoutOutput
      match stepped.result with
      | .ok .continued | .ok .jumped =>
          let (later, console) := traceFrom code bound stepped.machine console
          (snapshot :: later, console)
      | _ => ([snapshot], console)

def trace (program : Program) (bound : Nat) (console : Console) :
    List (Snapshot N) × Console :=
  traceFrom program.linked bound start console

end Machine
end HangulPane
