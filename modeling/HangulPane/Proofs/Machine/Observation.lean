import HangulPane.Proofs.Behaviour

namespace HangulPane

/-!
The runs of a machine as histories.

The index of an instruction cannot be seen from outside, so two programs that keep
the same instructions at different indices can show the same histories.  What they
show is read off the runs of the machine; the process behind it makes the same steps
one at a time.
-/

/-- The same fault at another index. -/
def Fault.movedTo (index : Nat) : Fault -> Fault
  | .divisionByZero _ => .divisionByZero index
  | .moduloByZero _ => .moduloByZero index
  | .underflow _ slot required available => .underflow index slot required available
  | .invalidStorage _ slot => .invalidStorage index slot
  | .invalidNumber _ => .invalidNumber index
  | .overflow _ => .overflow index
  | .channel fault => .channel fault

@[simp]
theorem Fault.movedTo_movedTo (first second : Nat) (fault : Fault) :
    (fault.movedTo first).movedTo second = fault.movedTo second := by
  cases fault <;> rfl

/-- How a run on the given code ended, if it did. -/
def Run.outcome? {N : Type} (code : Array Instruction) (run : Run N) : Option (Outcome N) :=
  match run.ending with
  | .finished value =>
      some (.finished value run.machine.selected run.machine.storage
        code[run.machine.index]?.isSome)
  | .faulted fault =>
      some (.faulted (fault.movedTo 0) run.machine.selected run.machine.storage
        code[run.machine.index]?.isSome)
  | .unfinished => none

/-- Whether two runs left the same console behind and ended alike, if they did: with the
same value, or with faults that differ in their index at most, and with the same storages and
selected slot. -/
def Run.Alike {N : Type} (left right : Run N) : Prop :=
  left.console = right.console ∧
    match left.ending, right.ending with
    | .finished leftValue, .finished rightValue =>
        leftValue = rightValue ∧ left.machine.selected = right.machine.selected ∧
          left.machine.storage = right.machine.storage
    | .faulted leftFault, .faulted rightFault =>
        leftFault.movedTo 0 = rightFault.movedTo 0 ∧
          left.machine.selected = right.machine.selected ∧
          left.machine.storage = right.machine.storage
    | .unfinished, .unfinished => True
    | _, _ => False

/-- Runs with the same console and outcome are alike. -/
theorem Run.alike_of_outcome? {N : Type} {left right : Run N}
    {leftCode rightCode : Array Instruction} (sameConsole : left.console = right.console)
    (sameOutcome : left.outcome? leftCode = right.outcome? rightCode) : left.Alike right := by
  refine ⟨sameConsole, ?_⟩
  unfold outcome? at sameOutcome
  cases leftEnding : left.ending <;> cases rightEnding : right.ending <;>
    simp_all

/-- The fault by which a run ends that a fault has stopped: that of the flush at its end if
this fails, and else the one that stopped it. -/
def Console.faultAtEnd (console : Console) (fault : Fault) : Fault :=
  match console.flush.1 with
  | .error reason => .channel reason
  | .ok () => fault

namespace Machine

variable {N : Type}

/-- The machine at another index. -/
def movedTo (machine : Machine N) (index : Nat) : Machine N :=
  { machine with index }

@[simp]
theorem movedTo_index (machine : Machine N) (index : Nat) :
    (machine.movedTo index).index = index := rfl

@[simp]
theorem movedTo_space (machine : Machine N) (index : Nat) :
    (machine.movedTo index).space = machine.space := rfl

@[simp]
theorem movedTo_selected (machine : Machine N) (index : Nat) :
    (machine.movedTo index).selected = machine.selected := rfl

@[simp]
theorem movedTo_storage (machine : Machine N) (index : Nat) :
    (machine.movedTo index).storage = machine.storage := rfl

@[simp]
theorem movedTo_movedTo (machine : Machine N) (first second : Nat) :
    (machine.movedTo first).movedTo second = machine.movedTo second := rfl

@[simp]
theorem movedTo_self (machine : Machine N) : machine.movedTo machine.index = machine := rfl

/-- How a machine stops, at a halt or by a fault. -/
def stop (code : Array Instruction) (machine : Machine N) (fault? : Option Fault) : Stop N where
  fault? := fault?.map (Fault.movedTo 0)
  machine := machine.movedTo 0
  inside := code[machine.index]?.isSome

variable [Number N]

theorem takeResult_movedTo (machine : Machine N) (index : Nat) :
    (machine.movedTo index).takeResult =
      (machine.takeResult.1, machine.takeResult.2.movedTo index) := by
  unfold takeResult
  rw [movedTo_space]
  cases machine.space.pop <;> rfl

theorem takeResult_index (machine : Machine N) :
    machine.takeResult.2.index = machine.index := by
  unfold takeResult
  cases machine.space.pop <;> rfl

/-- The call that an instruction makes. -/
def callOf (machine : Machine N) (console : Console) (instruction : Instruction) :
    Option (ConsoleCall N) :=
  match instruction, machine.space.items with
  | .popNum, value :: _ => some (.writeNumber value (console.writeNumber value).1)
  | .popChar, value :: _ => some (.writeChar value (console.writeChar value).1)
  | .pushNum, _ => some (.readNumber console.readNumber.1)
  | .pushChar, _ => some (.readChar console.readChar.1)
  | _, _ => none

/-- The call that the next step makes. -/
def call? (code : Array Instruction) (machine : Machine N) (console : Console) :
    Option (ConsoleCall N) :=
  code[machine.index]?.bind (machine.callOf console)

/-- The calls of at most the given number of steps. -/
def calls (code : Array Instruction) : Nat -> Machine N -> Console -> List (ConsoleCall N)
  | 0, _, _ => []
  | bound + 1, machine, console =>
      let stepped := machine.step code console
      (machine.call? code console).toList ++
        match stepped.result with
        | .ok .continued | .ok .jumped => calls code bound stepped.machine stepped.console
        | _ => []

/-- What can be seen of at most the given number of steps of a program. -/
def history (program : Program) (bound : Nat) (console : Console) : History N :=
  let run : Run N := run program bound console
  { calls := calls program.linked bound start console
    console := run.console
    outcome := run.outcome? program.linked }

/-- What follows after a step of a machine. -/
def continuation (code : Array Instruction) (stepped : Stepped N) : Continuation N (Machine N) :=
  match stepped.result with
  | .ok .halted => .ended (stepped.machine.stop code none)
  | .error fault => .ended (stepped.machine.stop code (some fault))
  | .ok .continued | .ok .jumped => .goOn stepped.machine

/-- The steps of a machine as a process. -/
def process (code : Array Instruction) : Process N (Machine N) := fun machine console =>
  let stepped := machine.step code console
  { call := machine.call? code console
    console := stepped.console
    next := continuation code stepped }

/-- What a run is that ends at a machine, by the given fault if there is one: the flush has
failed, or that fault counts, or the result was taken. -/
inductive Concludes (machine : Machine N) (console : Console) (steps : Nat) :
    Option Fault -> Run N -> Prop where
  | unflushed (fault? : Option Fault) (fault : ChannelFault)
      (failed : console.flush.1 = .error fault) :
      Concludes machine console steps fault?
        { ending := .faulted (.channel fault), machine, console := console.flush.2, steps }
  | faulted (fault : Fault) (flushed : console.flush.1 = .ok ()) :
      Concludes machine console steps (some fault)
        { ending := .faulted fault, machine, console := console.flush.2, steps }
  | finished (flushed : console.flush.1 = .ok ()) :
      Concludes machine console steps none
        { ending := .finished machine.takeResult.1
          machine := machine.takeResult.2
          console := console.flush.2
          steps }

theorem concludes_conclude (machine : Machine N) (console : Console) (fault? : Option Fault)
    (steps : Nat) : machine.Concludes console steps fault? (machine.conclude console fault? steps) := by
  unfold conclude
  rcases attempt : console.flush with ⟨fault | _, flushed⟩
  · have failed : console.flush.1 = .error fault := by rw [attempt]
    have after : flushed = console.flush.2 := by rw [attempt]
    rw [after]
    exact .unflushed fault? fault failed
  · have succeeded : console.flush.1 = .ok () := by rw [attempt]
    have after : flushed = console.flush.2 := by rw [attempt]
    rw [after]
    cases fault? with
    | some fault => exact .faulted fault succeeded
    | none => exact .finished succeeded

namespace Concludes

variable {machine : Machine N} {console : Console} {steps : Nat} {fault? : Option Fault}
  {run : Run N} (concludes : machine.Concludes console steps fault? run)
include concludes

theorem console_eq : run.console = console.flush.2 := by
  cases concludes <;> rfl

theorem index_eq : run.machine.index = machine.index := by
  cases concludes with
  | unflushed | faulted => rfl
  | finished => exact machine.takeResult_index

theorem steps_eq : run.steps = steps := by
  cases concludes <;> rfl

theorem ending_ne : run.ending ≠ .unfinished := by
  cases concludes <;> nofun

/-- The outcome is that of the stop at the machine. -/
theorem outcome?_eq (code : Array Instruction) :
    run.outcome? code = some ((machine.stop code fault?).outcome console.flush.1) := by
  cases concludes with
  | unflushed fault? fault failed =>
      rw [failed]
      rfl
  | faulted fault flushed =>
      rw [flushed]
      rfl
  | finished flushed =>
      rw [flushed]
      simp [Run.outcome?, Stop.outcome, stop, takeResult_movedTo, takeResult_index]

omit concludes in
theorem machine_of_fault {fault : Fault}
    (concludes : machine.Concludes console steps (some fault) run) : run.machine = machine := by
  cases concludes <;> rfl

omit concludes in
theorem ending_of_fault {fault : Fault}
    (concludes : machine.Concludes console steps (some fault) run) :
    run.ending = .faulted (console.faultAtEnd fault) := by
  unfold Console.faultAtEnd
  cases concludes with
  | unflushed _ reason failed => rw [failed]
  | faulted _ flushed => rw [flushed]

end Concludes

/-- A run of the machine, started anywhere, shows what its process shows. -/
theorem history_runFrom (code : Array Instruction) (bound : Nat) :
    forall (taken : Nat) (machine : Machine N) (console : Console),
      { calls := calls code bound machine console
        console := (runFrom code taken bound machine console).console
        outcome := (runFrom code taken bound machine console).outcome? code : History N } =
      (process code).history bound machine console := by
  induction bound with
  | zero => exact fun _ _ _ => rfl
  | succ bound inductionHypothesis =>
      intro taken machine console
      rcases stepped : machine.step code console with ⟨result, next, after⟩
      cases result with
      | error fault =>
          have concludes := next.concludes_conclude after (some fault) (taken + 1)
          simp [calls, runFrom, stepped, Process.history, process, continuation,
            concludes.console_eq, concludes.outcome?_eq]
      | ok progress =>
          cases progress with
          | halted =>
              have concludes := next.concludes_conclude after none (taken + 1)
              simp [calls, runFrom, stepped, Process.history, process, continuation,
                concludes.console_eq, concludes.outcome?_eq]
          | continued | jumped =>
              have rest := inductionHypothesis (taken + 1) next after
              simp only [calls, runFrom, stepped, Process.history, process, continuation,
                ← rest, History.after]

theorem history_eq (program : Program) (bound : Nat) (console : Console) :
    (history program bound console : History N) =
      (process program.linked).history bound start console :=
  history_runFrom program.linked bound 0 start console

end Machine

/-- Whether a run of a program can show a history. -/
def Program.Shows {N : Type} [Number N] (program : Program) (console : Console)
    (history : History N) : Prop :=
  ∃ bound, Machine.history program bound console = history

theorem Program.shows_iff {N : Type} [Number N] (program : Program) (console : Console)
    (history : History N) :
    program.Shows console history <->
      (Machine.process program.linked).Shows Machine.start console history := by
  simp only [Shows, Process.Shows, Machine.history_eq]

/-- Whether two programs show the same histories, on every console. -/
def SameBehaviour (N : Type) [Number N] (left right : Program) : Prop :=
  forall (console : Console) (history : History N),
    left.Shows console history <-> right.Shows console history

namespace SameBehaviour

variable {N : Type} [Number N]

theorem refl (program : Program) : SameBehaviour N program program :=
  fun _ _ => Iff.rfl

theorem trans {first second third : Program} (left : SameBehaviour N first second)
    (right : SameBehaviour N second third) : SameBehaviour N first third :=
  fun console history => (left console history).trans (right console history)

/-- Programs that a simulation relates at their starts behave alike. -/
theorem of_simulates {left right : Program} {related : Process.Pairing (Machine N) (Machine N)}
    (simulation : Process.Simulates (Machine.process left.linked) (Machine.process right.linked)
      related)
    {leftRank rightRank : Nat}
    (pair : related leftRank rightRank Machine.start Machine.start) :
    SameBehaviour N left right := by
  intro console history
  rw [Program.shows_iff, Program.shows_iff]
  exact simulation.shows_iff pair console history

/-- All that a program shows depends on its linked code. -/
theorem of_linked_eq {left right : Program} (same : left.linked = right.linked) :
    SameBehaviour N left right := by
  intro console history
  rw [Program.shows_iff, Program.shows_iff, same]

end SameBehaviour
end HangulPane
