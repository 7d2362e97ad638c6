import HangulPane.Proofs.Machine.Observation

namespace HangulPane

/-!
Machines that run the same instructions at different indices.

An instruction does the same wherever it stands, apart from where control goes on.
So a program whose instructions were moved about behaves like the original as soon
as control meets the same instructions in the same order.  Instructions that do
nothing but pass control on may be left out.
-/

/-- Whether control can go on with the next instruction. -/
def Instruction.fallsThrough : Instruction -> Bool
  | .halt | .jmp _ => false
  | _ => true

@[simp]
theorem Instruction.fallsThrough_mapLabel (rename : Nat -> Nat) (instruction : Instruction) :
    (instruction.mapLabel rename).fallsThrough = instruction.fallsThrough := by
  cases instruction <;> rfl

/-- The same step made at another index, with its jump led to the given target. -/
def Stepped.relocated {N : Type} (index target : Nat) (stepped : Stepped N) : Stepped N where
  result := stepped.result.mapError (Fault.movedTo index)
  machine := stepped.machine.movedTo
    (match stepped.result with
      | .ok .continued => index + 1
      | .ok .jumped => target
      | _ => index)
  console := stepped.console

theorem Stepped.relocated_error {N : Type} (index target : Nat) (fault : Fault)
    (machine : Machine N) (console : Console) :
    Stepped.relocated index target { result := .error fault, machine, console } =
      { result := .error (fault.movedTo index), machine := machine.movedTo index, console } :=
  rfl

theorem Stepped.relocated_halted {N : Type} (index target : Nat) (machine : Machine N)
    (console : Console) :
    Stepped.relocated index target { result := .ok .halted, machine, console } =
      { result := .ok .halted, machine := machine.movedTo index, console } :=
  rfl

namespace Machine

variable {N : Type} (machine : Machine N) (console : Console) (index target : Nat)

theorem spaceFault_movedTo (fault : SpaceFault) :
    (machine.movedTo index).spaceFault fault = (machine.spaceFault fault).movedTo index := by
  rcases fault with _ | (_ | _ | _) <;> rfl

theorem popThen_movedTo {next nextMoved : N -> Machine N -> Stepped N}
    (same : forall value machine,
      nextMoved value (machine.movedTo index) = (next value machine).relocated index target) :
    (machine.movedTo index).popThen console nextMoved =
      (machine.popThen console next).relocated index target := by
  unfold popThen
  rw [movedTo_space]
  cases machine.space.pop with
  | error fault => simp only [fail, spaceFault_movedTo, Stepped.relocated_error]
  | ok popped => exact same popped.1 (machine.withSpace popped.2)

theorem proceedWith_movedTo (changed : Except SpaceFault (Space N)) :
    (machine.movedTo index).proceedWith console changed =
      (machine.proceedWith console changed).relocated index target := by
  cases changed with
  | error fault =>
      simp only [proceedWith, fail, spaceFault_movedTo, Stepped.relocated_error]
  | ok space => rfl

theorem select_movedTo (slot : UInt8) :
    (machine.movedTo index).select console slot =
      (machine.select console slot).relocated index target := by
  unfold select
  cases Slot.ofByte? slot <;> rfl

theorem move_movedTo (slot : UInt8) :
    (machine.movedTo index).move console slot =
      (machine.move console slot).relocated index target := by
  unfold move
  cases Slot.ofByte? slot with
  | none => rfl
  | some slot => exact machine.popThen_movedTo console index target fun _ _ => rfl

theorem output_movedTo (write : Console -> N -> Except ChannelFault Unit × Console) :
    (machine.movedTo index).output console write =
      (machine.output console write).relocated index target := by
  refine machine.popThen_movedTo console index target ?_
  intro value machine
  rcases write console value with ⟨_ | _, _⟩ <;> rfl

variable [Number N]

theorem combine_movedTo (operation : Opcode) :
    (machine.movedTo index).combine console operation =
      (machine.combine console operation).relocated index target := by
  unfold combine
  rw [movedTo_space]
  rcases machine.space.binary operation with ⟨fault | _, space⟩
  · simp only [spaceFault_movedTo]
    rfl
  · rfl

theorem branchOnZero_movedTo (old : Nat) :
    (machine.movedTo index).branchOnZero console target =
      (machine.branchOnZero console old).relocated index target := by
  refine machine.popThen_movedTo console index target ?_
  intro value machine
  split <;> rfl

theorem inputNumber_movedTo :
    (machine.movedTo index).inputNumber console =
      (machine.inputNumber console).relocated index target := by
  unfold inputNumber
  rcases (console.readNumber : Except ChannelFault (Option N) × Console) with
    ⟨_ | _ | _, _⟩ <;> rfl

theorem inputChar_movedTo :
    (machine.movedTo index).inputChar console =
      (machine.inputChar console).relocated index target := by
  unfold inputChar
  rcases (console.readChar : Except ChannelFault N × Console) with ⟨_ | _, _⟩ <;> rfl

/-- The label to which a control instruction leads after a renaming; zero for any
other instruction. -/
def destination (rename : Nat -> Nat) (instruction : Instruction) : Nat :=
  (instruction.label?.map rename).getD 0

theorem perform_movedTo (rename : Nat -> Nat) (instruction : Instruction) :
    (machine.movedTo index).perform console (instruction.mapLabel rename) =
      (machine.perform console instruction).relocated index (destination rename instruction) := by
  cases instruction with
  | div | add | mul | mod | cmp | sub => exact machine.combine_movedTo console index _ _
  | pop =>
      change (machine.movedTo index).popThen console (fun _ machine => machine.proceed console) =
        (machine.popThen console (fun _ machine => machine.proceed console)).relocated index _
      exact machine.popThen_movedTo console index _ fun _ _ => rfl
  | push | noop | brPop1 | brPop2 | jmp | halt => rfl
  | dup | swap => exact machine.proceedWith_movedTo console index _ _
  | sel slot => exact machine.select_movedTo console index _ slot
  | mov slot => exact machine.move_movedTo console index _ slot
  | brz label => exact machine.branchOnZero_movedTo console index (rename label) label
  | popNum | popChar => exact machine.output_movedTo console index _ _
  | pushNum => exact machine.inputNumber_movedTo console index _
  | pushChar => exact machine.inputChar_movedTo console index _

/-- Running an instruction at another index and with another label. -/
theorem execute_movedTo (rename : Nat -> Nat) (instruction : Instruction) :
    (machine.movedTo index).execute console (instruction.mapLabel rename) =
      (machine.execute console instruction).relocated index (destination rename instruction) := by
  unfold execute
  rw [Instruction.opcode_mapLabel, movedTo_space]
  dsimp only
  split
  · cases instruction <;> rfl
  · exact machine.perform_movedTo console index rename instruction

/-- Only a control instruction jumps. -/
theorem label?_isSome_of_jumped {instruction : Instruction}
    (jumped : (machine.execute console instruction).result = .ok .jumped) :
    instruction.label?.isSome := by
  cases instruction with
  | brz | brPop1 | brPop2 | jmp => rfl
  | _ =>
      simp only [execute, perform, combine, popThen, proceedWith, select, move, output,
        inputNumber, inputChar, fail, proceed, halt] at jumped
      grind

/-- Control goes on with the next instruction only from one that falls through. -/
theorem fallsThrough_of_continued {instruction : Instruction}
    (continued : (machine.execute console instruction).result = .ok .continued) :
    instruction.fallsThrough = true := by
  cases instruction with
  | halt | jmp =>
      simp [execute, perform, halt, jump, Instruction.opcode, Opcode.requiredDepth] at continued
  | _ => rfl

theorem callOf_movedTo (rename : Nat -> Nat) (instruction : Instruction) :
    (machine.movedTo index).callOf console (instruction.mapLabel rename) =
      machine.callOf console instruction := by
  cases instruction <;> rfl

theorem step_of_fetch {code : Array Instruction} {instruction : Instruction}
    (fetched : code[machine.index]? = some instruction) :
    machine.step code console = machine.execute console instruction := by
  simp only [step, fetched]

/-- Where control may go from an instruction that stands at two indices, under a
renaming of its label for each. -/
def Follows (instruction : Instruction) (renameLeft renameRight : Nat -> Nat)
    (left right leftNext rightNext : Nat) : Prop :=
  (instruction.fallsThrough = true ∧ leftNext = left + 1 ∧ rightNext = right + 1) ∨
    ∃ label, instruction.label? = some label ∧ leftNext = renameLeft label ∧
      rightNext = renameRight label

/-- Two machines that differ in their index make the same step on two codes, and go
on to indices of which the given relation holds. -/
inductive InStep (left right : Array Instruction) (machine : Machine N) (index : Nat)
    (console : Console) (follows : Nat -> Nat -> Prop) : Prop where
  | ended (call : Option (ConsoleCall N)) (after : Console) (stop : Stop N)
      (leftMoves : process left machine console =
        { call, console := after, next := .ended stop })
      (rightMoves : process right (machine.movedTo index) console =
        { call, console := after, next := .ended stop })
  | both (call : Option (ConsoleCall N)) (after : Console) (next : Machine N) (nextIndex : Nat)
      (leftMoves : process left machine console =
        { call, console := after, next := .goOn next })
      (rightMoves : process right (machine.movedTo index) console =
        { call, console := after, next := .goOn (next.movedTo nextIndex) })
      (goes : follows next.index nextIndex)

/-- The process at an instruction, in terms of what the instruction does with its
own label at the machine's own index. -/
theorem process_of_fetch {code : Array Instruction} {instruction : Instruction}
    {rename : Nat -> Nat} (fetched : code[index]? = some (instruction.mapLabel rename)) :
    process code (machine.movedTo index) console =
      { call := machine.callOf console instruction
        console := (machine.execute console instruction).console
        next := continuation code ((machine.execute console instruction).relocated index
          (destination rename instruction)) } := by
  have fetchedHere : code[(machine.movedTo index).index]? =
      some (instruction.mapLabel rename) := fetched
  simp only [process, step_of_fetch _ console fetchedHere, execute_movedTo, call?,
    fetchedHere, Option.bind_some, callOf_movedTo]
  rfl

/-- The same instruction at two indices makes two machines move in step. -/
theorem inStep_of_fetch {left right : Array Instruction} {instruction : Instruction}
    {renameLeft renameRight : Nat -> Nat}
    (leftFetched : left[machine.index]? = some (instruction.mapLabel renameLeft))
    (rightFetched : right[index]? = some (instruction.mapLabel renameRight)) :
    InStep left right machine index console
      (Follows instruction renameLeft renameRight machine.index index) := by
  have leftMoves := machine.process_of_fetch console machine.index leftFetched
  have rightMoves := machine.process_of_fetch console index rightFetched
  rw [movedTo_self] at leftMoves
  rcases stepped : machine.execute console instruction with ⟨result, next, after⟩
  rw [stepped] at leftMoves rightMoves
  cases result with
  | error fault =>
      refine .ended (machine.callOf console instruction) after
        { fault? := some (fault.movedTo 0), machine := next.movedTo 0, inside := true }
        (leftMoves.trans ?_) (rightMoves.trans ?_)
      · simp [continuation, Stepped.relocated_error, stop, leftFetched]
      · simp [continuation, Stepped.relocated_error, stop, rightFetched]
  | ok progress =>
      cases progress with
      | halted =>
          refine .ended (machine.callOf console instruction) after
            { fault? := none, machine := next.movedTo 0, inside := true }
            (leftMoves.trans ?_) (rightMoves.trans ?_)
          · simp [continuation, Stepped.relocated_halted, stop, leftFetched]
          · simp [continuation, Stepped.relocated_halted, stop, rightFetched]
      | continued =>
          refine .both _ after (next.movedTo (machine.index + 1)) (index + 1) leftMoves
            rightMoves (Or.inl ⟨?_, rfl, rfl⟩)
          exact machine.fallsThrough_of_continued console (by rw [stepped])
      | jumped =>
          have labelled : instruction.label?.isSome :=
            machine.label?_isSome_of_jumped console (by rw [stepped])
          rcases Option.isSome_iff_exists.mp labelled with ⟨label, found⟩
          refine .both _ after (next.movedTo (destination renameLeft instruction))
            (destination renameRight instruction) leftMoves rightMoves
            (Or.inr ⟨label, found, ?_, ?_⟩) <;> simp [destination, found]

/-- Past the end of both codes both machines end. -/
theorem inStep_of_end {left right : Array Instruction} {follows : Nat -> Nat -> Prop}
    (leftOver : left[machine.index]? = none) (rightOver : right[index]? = none) :
    InStep left right machine index console follows := by
  refine .ended none console
    { fault? := none, machine := machine.movedTo 0, inside := false } ?_ ?_
  · simp [process, step, call?, leftOver, halt, continuation, stop]
  · simp [process, step, call?, rightOver, halt, continuation, stop]

/-- Whether the next step of a machine only leads to the given machine. -/
def Silently (code : Array Instruction) (machine next : Machine N) : Prop :=
  forall console, process code machine console = { call := none, console, next := .goOn next }

theorem silently_jmp {code : Array Instruction} {machine : Machine N} {target : Nat}
    (fetched : code[machine.index]? = some (.jmp target)) :
    Silently code machine (machine.movedTo target) := by
  intro console
  simp only [process, step_of_fetch _ console fetched, call?, fetched]
  rfl

theorem silently_noop {code : Array Instruction} {machine : Machine N}
    (fetched : code[machine.index]? = some .noop) :
    Silently code machine (machine.movedTo (machine.index + 1)) := by
  intro console
  simp only [process, step_of_fetch _ console fetched, call?, fetched]
  rfl

/-- A guard that the selected storage satisfies. -/
theorem silently_guard {code : Array Instruction} {machine : Machine N}
    {instruction : Instruction} (fetched : code[machine.index]? = some instruction)
    (guarding : instruction.opcode.isGuard = true)
    (enough : instruction.opcode.requiredDepth ≤ machine.space.size) :
    Silently code machine (machine.movedTo (machine.index + 1)) := by
  intro console
  have satisfied : ¬ machine.space.size < instruction.opcode.requiredDepth := by omega
  simp only [process, step_of_fetch _ console fetched, call?, fetched, execute,
    if_neg satisfied]
  cases instruction with
  | brPop1 | brPop2 => rfl
  | _ => contradiction

/-- A guard that the selected storage does not satisfy. -/
theorem silently_guard_jump {code : Array Instruction} {machine : Machine N}
    {instruction : Instruction} {target : Nat}
    (fetched : code[machine.index]? = some instruction)
    (guarding : instruction.opcode.isGuard = true) (labelled : instruction.label? = some target)
    (short : machine.space.size < instruction.opcode.requiredDepth) :
    Silently code machine (machine.movedTo target) := by
  intro console
  simp only [process, step_of_fetch _ console fetched, call?, fetched, execute, if_pos short]
  cases instruction with
  | brPop1 | brPop2 =>
      cases labelled
      rfl
  | _ => contradiction

/-- How a machine on the left code and the same machine at another index of the right
code can move on: both are past the end, both meet the same instruction, or the left one
passes over an instruction alone. -/
inductive Meets (left right : Array Instruction) (moved : Nat -> Nat -> Prop)
    (rank : Nat -> Nat -> Nat) (machine : Machine N) (index : Nat) : Prop where
  | past (leftOver : left[machine.index]? = none) (rightOver : right[index]? = none)
  | same (instruction : Instruction) (renameLeft renameRight : Nat -> Nat)
      (leftFetched : left[machine.index]? = some (instruction.mapLabel renameLeft))
      (rightFetched : right[index]? = some (instruction.mapLabel renameRight))
      (leads : forall leftNext rightNext,
        Follows instruction renameLeft renameRight machine.index index leftNext rightNext ->
        moved leftNext rightNext)
  | passed (next : Nat) (silently : Silently left machine (machine.movedTo next))
      (leads : moved next index) (falls : rank next index < rank machine.index index)

/-- Whether what holds of a machine still holds after each of its steps. -/
def Maintains (code : Array Instruction) (holds : Machine N -> Prop) : Prop :=
  forall machine console call after next, holds machine ->
    process code machine console = { call, console := after, next := .goOn next } -> holds next

/-- The pairs of a machine of which something is known and the same machine at an index
that belongs to its own. -/
def Reindexed (holds : Machine N -> Prop) (moved : Nat -> Nat -> Prop)
    (rank : Nat -> Nat -> Nat) : Process.Pairing (Machine N) (Machine N) :=
  fun leftRank _ machine other =>
    holds machine ∧ ∃ index, moved machine.index index ∧ other = machine.movedTo index ∧
      leftRank = rank machine.index index

theorem InStep.tandem {left right : Array Instruction} {machine : Machine N} {index : Nat}
    {console : Console} {follows moved : Nat -> Nat -> Prop} {holds : Machine N -> Prop}
    {rank : Nat -> Nat -> Nat} (inStep : InStep left right machine index console follows)
    (leads : forall leftNext rightNext, follows leftNext rightNext -> moved leftNext rightNext)
    (maintained : Maintains left holds) (held : holds machine) (leftRank rightRank : Nat) :
    Process.Tandem (process left) (process right) (Reindexed holds moved rank) console
      leftRank rightRank machine (machine.movedTo index) := by
  rcases inStep with ⟨call, after, stop, leftMoves, rightMoves⟩ |
    ⟨call, after, next, nextIndex, leftMoves, rightMoves, goes⟩
  · exact .ended call after stop leftMoves rightMoves
  · exact .both call after next (next.movedTo nextIndex) (rank next.index nextIndex) 0 leftMoves
      rightMoves ⟨maintained machine console call after next held leftMoves, nextIndex,
        leads _ _ goes, rfl, rfl⟩

/-- If control meets the same instructions in the same order, the reindexed machines
move on together. -/
theorem simulates_reindexed {left right : Array Instruction} {holds : Machine N -> Prop}
    {moved : Nat -> Nat -> Prop} {rank : Nat -> Nat -> Nat} (maintained : Maintains left holds)
    (meets : forall machine index, holds machine -> moved machine.index index ->
      Meets left right moved rank machine index) :
    Process.Simulates (process left) (process right) (Reindexed holds moved rank) := by
  rintro leftRank rightRank machine _ ⟨held, index, pair, rfl, rfl⟩ console
  rcases meets machine index held pair with ⟨leftOver, rightOver⟩ |
    ⟨instruction, renameLeft, renameRight, leftFetched, rightFetched, leads⟩ |
    ⟨next, silently, leads, falls⟩
  · have inStep : InStep left right machine index console moved :=
      machine.inStep_of_end console index leftOver rightOver
    exact inStep.tandem (fun _ _ goes => goes) maintained held _ _
  · have inStep := machine.inStep_of_fetch console index leftFetched rightFetched
    exact inStep.tandem leads maintained held _ _
  · exact .leftOnly (machine.movedTo next) (rank next index) 0 (silently console) falls
      ⟨maintained machine console none console _ held (silently console), index, leads, rfl, rfl⟩

end Machine

/-- The instruction at an index of linked code. -/
theorem Program.getElem?_linked (program : Program) (index : Nat) :
    program.linked[index]? = program.code[index]?.map (Instruction.mapLabel program.target) := by
  simp [linked]

/-- Moving instructions about keeps the behaviour if control meets the same ones.  The
invariant says what is known of the machines on the left code. -/
theorem SameBehaviour.of_reindexing {N : Type} [Number N] {left right : Program}
    (holds : Machine N -> Prop) (moved : Nat -> Nat -> Prop) (rank : Nat -> Nat -> Nat)
    (maintained : Machine.Maintains left.linked holds)
    (meets : forall machine index, holds machine -> moved machine.index index ->
      Machine.Meets left.linked right.linked moved rank machine index)
    (holdsAtStart : holds Machine.start) (movedAtStart : moved 0 0) :
    SameBehaviour N left right := by
  have simulation := Machine.simulates_reindexed maintained meets
  have pair : Machine.Reindexed holds moved rank (rank 0 0) 0 Machine.start Machine.start :=
    ⟨holdsAtStart, 0, movedAtStart, rfl, rfl⟩
  exact SameBehaviour.of_simulates simulation pair

end HangulPane
