import HangulPane.Proofs.Console.Numeral
import HangulPane.Proofs.Machine.Image
import HangulPane.Proofs.Machine.Output
import HangulPane.Proofs.Number.ExitStatus

namespace HangulPane

/-!
Machines with words and machines with integers of any size.

A machine with words has an image that holds the integers for which the words stand.  A step
of the machine and the same step of its image agree, with one exception: the exact result of
an operation, or the number that was read, may be outside the range of a word.  The machine
with words stops there.  So a run with words is the same as the run with integers up to such
a step, and it has written what the run with integers had written by then.
-/

/-- Whether an instruction, run on the given machine, has an exact result that no word holds,
and the fault that this is. -/
inductive Instruction.Exceeds (instruction : Instruction) (machine : Machine Int64)
    (console : Console) : Fault -> Prop where
  /-- The value of a binary operation is outside the range of a word. -/
  | combines (left right : Int64) (rest : List Int64) (value : Int)
      (isBinary : instruction.opcode.isBinary = true)
      (operands : machine.space.items = right :: left :: rest)
      (exactly : Number.combine instruction.opcode left.toInt right.toInt = .ok value)
      (outside : Decimal.fitsWord value = false) :
      Exceeds instruction machine console (.overflow machine.index)
  /-- The number that was read is outside the range of a word. -/
  | reads (value : Int) (isRead : instruction = .pushNum)
      (exactly : (console.readNumber : Except ChannelFault (Option Int) × Console).1 =
        .ok (some value))
      (outside : Decimal.fitsWord value = false) :
      Exceeds instruction machine console (.invalidNumber machine.index)

/-- Whether the step of a machine with words at an instruction is matched by a step with
integers: it has that step as its image, or it fails because its exact result exceeds a word,
and has written nothing. -/
inductive Stepped.Matches (instruction : Instruction) (machine : Machine Int64)
    (console : Console) (words : Stepped Int64) (integers : Stepped Int) : Prop where
  | alike (same : integers = words.map Int64.toInt)
  | stopped (fault : Fault) (exceeds : instruction.Exceeds machine console fault)
      (failed : words.result = .error fault) (silent : words.console.output = console.output)

/-! Words come out of a console as the integers for which they stand. -/

theorem Console.writeNumber_toInt (console : Console) (value : Int64) :
    console.writeNumber value.toInt = console.writeNumber value := by
  unfold writeNumber
  rw [Number.toDecimal_toInt]

theorem Console.writeChar_toInt (console : Console) (value : Int64) :
    console.writeChar value.toInt = console.writeChar value := by
  unfold writeChar
  rw [Number.toChar?_toInt, Number.toHex_toInt]

theorem Console.readChar_toInt (console : Console) :
    (console.readChar : Except ChannelFault Int × Console) =
      ((console.readChar : Except ChannelFault Int64 × Console).1.map Int64.toInt,
        (console.readChar : Except ChannelFault Int64 × Console).2) := by
  simp only [readChar, flushThen]
  rcases console.flush with ⟨_ | _, flushed⟩
  · rfl
  · dsimp only
    rcases flushed.input.readChar with ⟨_ | _, input⟩
    · rfl
    · rfl

/-- Combining two values of a storage and of its image, unless the exact result exceeds a
word. -/
theorem Space.binary_image (operation : Opcode) (space : Space Int64) :
    (space.map Int64.toInt).binary operation =
        ((space.binary operation).1, (space.binary operation).2.map Int64.toInt) ∨
      ∃ right left rest value, space.items = right :: left :: rest ∧
        Number.combine operation left.toInt right.toInt = .ok value ∧
        Decimal.fitsWord value = false ∧
        (space.binary operation).1 = .error (.arithmetic .overflow) := by
  unfold binary
  rw [items_map]
  match items : space.items with
  | [] => exact Or.inl rfl
  | [_] => exact Or.inl rfl
  | right :: left :: rest =>
      have words := Number.combine_words operation left right
      simp only [List.map_cons]
      cases exactly : Number.combine operation left.toInt right.toInt with
      | error fault =>
          rw [exactly] at words
          have failed : Number.combine operation left right = .error fault := words
          refine Or.inl ?_
          simp only [failed, map_keepAfterFailure]
      | ok value =>
          rw [exactly] at words
          have holds : Number.combine operation left right = WordArithmetic.held value := words
          cases fits : Decimal.fitsWord value with
          | true =>
              rw [WordArithmetic.held_of_fitsWord fits] at holds
              refine Or.inl ?_
              simp only [holds, map_putResult, WordArithmetic.toInt_ofInt_of_fitsWord fits]
          | false =>
              rw [(WordArithmetic.held_eq_error_iff value .overflow).mpr ⟨rfl, fits⟩] at holds
              refine Or.inr ⟨right, left, rest, value, rfl, exactly, fits, ?_⟩
              simp only [holds]

namespace Machine

variable (machine : Machine Int64) (console : Console)

theorem matches_combine (instruction : Instruction) (isBinary : instruction.opcode.isBinary = true) :
    Stepped.Matches instruction machine console (machine.combine console instruction.opcode)
      ((machine.map Int64.toInt).combine console instruction.opcode) := by
  rcases machine.space.binary_image instruction.opcode with
    same | ⟨right, left, rest, value, operands, exactly, outside, overflows⟩
  · refine .alike ?_
    unfold combine
    rw [space_map, same]
    rcases machine.space.binary instruction.opcode with ⟨fault | _, space⟩
    · simp only [← map_withSpace]
      rfl
    · simp only [← map_withSpace]
      rfl
  · have combined : machine.space.binary instruction.opcode =
        (.error (.arithmetic .overflow), (machine.space.binary instruction.opcode).2) :=
      Prod.ext overflows rfl
    refine .stopped (.overflow machine.index)
      (.combines left right rest value isBinary operands exactly outside) ?_ ?_
    · rw [combine, combined]
      rfl
    · rw [combine, combined]
      rfl

theorem matches_inputNumber :
    Stepped.Matches .pushNum machine console (machine.inputNumber console)
      ((machine.map Int64.toInt).inputNumber console) := by
  have words := console.readNumber_words
  have silent := console.output_readNumber (N := Int)
  unfold inputNumber
  rcases integers : (console.readNumber : Except ChannelFault (Option Int) × Console) with
    ⟨fault | _ | value, after⟩
  · rw [words, integers]
    exact .alike rfl
  · rw [words, integers]
    exact .alike rfl
  · rw [words, integers]
    rw [integers] at silent
    cases fits : Decimal.fitsWord value with
    | true =>
        refine .alike ?_
        have pushed := machine.proceed_push_map Int64.toInt after (Int64.ofInt value)
        rw [WordArithmetic.toInt_ofInt_of_fitsWord fits] at pushed
        simp only [Except.map, Option.bind_some, WordArithmetic.held_of_fitsWord fits,
          Except.toOption]
        exact pushed
    | false =>
        have lost := (WordArithmetic.held_eq_error_iff value .overflow).mpr ⟨rfl, fits⟩
        simp only [Except.map, Option.bind_some, lost, Except.toOption]
        exact .stopped (.invalidNumber machine.index)
          (.reads value rfl (congrArg Prod.fst integers) fits) rfl silent

theorem matches_inputChar :
    Stepped.Matches .pushChar machine console (machine.inputChar console)
      ((machine.map Int64.toInt).inputChar console) := by
  refine .alike ?_
  have integers := console.readChar_toInt
  unfold inputChar
  rcases words : (console.readChar : Except ChannelFault Int64 × Console) with ⟨fault | value, after⟩
  · rw [integers, words]
    rfl
  · rw [integers, words]
    exact machine.proceed_push_map Int64.toInt after value

/-- Performing an instruction with words is matched by performing it with integers. -/
theorem matches_perform (instruction : Instruction) :
    Stepped.Matches instruction machine console (machine.perform console instruction)
      ((machine.map Int64.toInt).perform console instruction) := by
  cases instruction with
  | add => exact machine.matches_combine console .add rfl
  | sub => exact machine.matches_combine console .sub rfl
  | mul => exact machine.matches_combine console .mul rfl
  | div => exact machine.matches_combine console .div rfl
  | mod => exact machine.matches_combine console .mod rfl
  | cmp => exact machine.matches_combine console .cmp rfl
  | pop =>
      refine .alike ?_
      simp only [perform]
      exact machine.popThen_map Int64.toInt console fun _ _ => rfl
  | push literal => exact .alike (machine.proceed_push_map Int64.toInt console literal)
  | dup =>
      refine .alike ?_
      simp only [perform, space_map, Space.dup_map]
      exact machine.proceedWith_map _ console _
  | swap =>
      refine .alike ?_
      simp only [perform, space_map, Space.swap_map]
      exact machine.proceedWith_map _ console _
  | sel slot => exact .alike (machine.select_map _ console slot)
  | mov slot => exact .alike (machine.move_map _ console slot)
  | brz target =>
      refine .alike ?_
      simp only [perform, branchOnZero]
      refine machine.popThen_map Int64.toInt console ?_
      intro value machine
      rw [Number.isZero_toInt]
      split
      · rfl
      · rfl
  | popNum => exact .alike (machine.output_map _ console console.writeNumber_toInt)
  | popChar => exact .alike (machine.output_map _ console console.writeChar_toInt)
  | pushNum => exact machine.matches_inputNumber console
  | pushChar => exact machine.matches_inputChar console
  | noop | brPop1 | brPop2 | jmp | halt => exact .alike rfl

/-- Running an instruction with words is matched by running it with integers. -/
theorem matches_execute (instruction : Instruction) :
    Stepped.Matches instruction machine console (machine.execute console instruction)
      ((machine.map Int64.toInt).execute console instruction) := by
  unfold execute
  rw [space_map, Space.size_map]
  dsimp only
  split
  · refine .alike ?_
    cases instruction <;> rfl
  · exact machine.matches_perform console instruction

end Machine

/-- Whether the runs of at most a number of steps with words and with integers match on the
given code.  The one with integers is the image of the one with words, or an instruction
exceeded a word and stopped the one with words. -/
inductive RunsMatch (code : Array Instruction) (words : Nat -> Run Int64)
    (integers : Nat -> Run Int) (bound : Nat) : Prop where
  | alike (same : integers bound = (words bound).map Int64.toInt)
  | stopped (before : Nat) (instruction : Instruction) (fault : Fault) (earlier : before < bound)
      (unfinished : (words before).ending = .unfinished)
      (fetched : code[(words before).machine.index]? = some instruction)
      (exceeds : instruction.Exceeds (words before).machine (words before).console fault)
      (ends : (words bound).ending = .faulted
        (((words before).machine.step code (words before).console).console.faultAtEnd fault))
      (steps : (words bound).steps = (words before).steps + 1)
      (silent : (words bound).console.output = (words before).console.output)

/-- Runs match if the runs after their first step match. -/
theorem RunsMatch.after_step {code : Array Instruction} {words later : Nat -> Run Int64}
    {integers laterIntegers : Nat -> Run Int} {bound : Nat}
    (goesOn : forall bound, words (bound + 1) = later bound)
    (integersGoOn : forall bound, integers (bound + 1) = laterIntegers bound)
    (rest : RunsMatch code later laterIntegers bound) :
    RunsMatch code words integers (bound + 1) := by
  cases rest with
  | alike same =>
      refine .alike ?_
      rw [goesOn, integersGoOn, same]
  | stopped before instruction fault earlier unfinished fetched exceeds ends steps silent =>
      rw [← goesOn] at unfinished fetched exceeds ends steps silent
      rw [← goesOn] at ends steps silent
      exact .stopped (before + 1) instruction fault (Nat.succ_lt_succ earlier) unfinished fetched
        exceeds ends steps silent

namespace Machine

variable {code : Array Instruction} {machine : Machine Int64} {console : Console} {bound : Nat}

/-- Runs whose first steps agree match, if what comes after the first step does. -/
theorem runsMatch_of_alike
    (same : (machine.map Int64.toInt).step code console =
      (machine.step code console).map Int64.toInt)
    (rest : forall (taken : Nat) (machine : Machine Int64) (console : Console),
      RunsMatch code (fun bound => runFrom code taken bound machine console)
        (fun bound => runFrom code taken bound (machine.map Int64.toInt) console) bound)
    (taken : Nat) :
    RunsMatch code (fun bound => runFrom code taken bound machine console)
      (fun bound => runFrom code taken bound (machine.map Int64.toInt) console) (bound + 1) := by
  rcases stepped : machine.step code console with ⟨result, next, after⟩
  rw [stepped] at same
  cases result with
  | error fault =>
      refine .alike ?_
      simp only [runFrom, stepped, same, Stepped.map]
      exact next.conclude_map Int64.toInt after rfl (some fault) (taken + 1)
  | ok progress =>
      cases progress with
      | halted =>
          refine .alike ?_
          simp only [runFrom, stepped, same, Stepped.map]
          exact next.conclude_map Int64.toInt after rfl none (taken + 1)
      | continued | jumped =>
          refine .after_step ?_ ?_ (rest (taken + 1) next after)
          · intro bound
            simp only [runFrom, stepped]
          · intro bound
            simp only [runFrom, same, Stepped.map]

/-- Runs whose first step exceeds a word match, for the one with words stops there. -/
theorem runsMatch_of_stopped {instruction : Instruction} {fault : Fault}
    (fetched : code[machine.index]? = some instruction)
    (exceeds : instruction.Exceeds machine console fault)
    (failed : (machine.execute console instruction).result = .error fault)
    (silent : (machine.execute console instruction).console.output = console.output)
    (taken : Nat) (integers : Nat -> Run Int) :
    RunsMatch code (fun bound => runFrom code taken bound machine console) integers
      (bound + 1) := by
  rw [← machine.step_of_fetch console fetched] at failed silent
  rcases stepped : machine.step code console with ⟨result, next, after⟩
  rw [stepped] at failed silent
  cases failed
  have concludes := next.concludes_conclude after (some fault) (taken + 1)
  refine .stopped 0 instruction fault (Nat.succ_pos bound) rfl fetched exceeds ?_ ?_ ?_
  · simp only [runFrom, stepped, concludes.ending_of_fault]
  · simp only [runFrom, stepped, concludes.steps_eq]
  · simp only [runFrom, stepped, concludes.console_eq]
    exact silent

/-- Runs with words match runs with integers from any machine on. -/
theorem runsMatch_runFrom (code : Array Instruction) (bound : Nat) :
    forall (taken : Nat) (machine : Machine Int64) (console : Console),
      RunsMatch code (fun bound => runFrom code taken bound machine console)
        (fun bound => runFrom code taken bound (machine.map Int64.toInt) console) bound := by
  induction bound with
  | zero => exact fun _ _ _ => .alike rfl
  | succ bound inductionHypothesis =>
      intro taken machine console
      cases fetched : code[machine.index]? with
      | none =>
          have imageFetched : code[(machine.map Int64.toInt).index]? = none := fetched
          refine runsMatch_of_alike ?_ inductionHypothesis taken
          rw [step, step, fetched, imageFetched]
          rfl
      | some instruction =>
          have imageFetched : code[(machine.map Int64.toInt).index]? = some instruction := fetched
          cases machine.matches_execute console instruction with
          | alike same =>
              refine runsMatch_of_alike ?_ inductionHypothesis taken
              rw [step_of_fetch _ _ fetched, step_of_fetch _ _ imageFetched, same]
          | stopped fault exceeds failed silent =>
              exact runsMatch_of_stopped fetched exceeds failed silent taken _

/-- Runs of a program with words match its runs with integers. -/
theorem runsMatch_run (program : Program) (console : Console) (bound : Nat) :
    RunsMatch program.linked (fun bound => run program bound console)
      (fun bound => run program bound console) bound := by
  have matched := runsMatch_runFrom program.linked bound 0 start console
  rw [map_start Int64.toInt rfl] at matched
  exact matched

/-- What a run with words has written is the beginning of what each run with integers of at
least as many steps has written. -/
theorem extends_words (program : Program) (console : Console) {bound other : Nat}
    (shorter : bound ≤ other) :
    (run program other console : Run Int).console.Extends
      (run program bound console : Run Int64).console := by
  cases runsMatch_run program console bound with
  | alike same =>
      have consoles : (run program bound console : Run Int).console =
          (run program bound console : Run Int64).console := congrArg Run.console same
      rw [← consoles]
      exact extends_run program console shorter
  | stopped before instruction fault earlier unfinished fetched exceeds ends steps silent =>
      have consoles : (run program before console : Run Int).console =
          (run program before console : Run Int64).console := by
        cases runsMatch_run program console before with
        | alike same => exact congrArg Run.console same
        | stopped _ _ _ _ _ _ _ ended =>
            rw [ended] at unfinished
            cases unfinished
      have outputs : (run program before console : Run Int64).console.Extends
          (run program bound console : Run Int64).console := .of_output_eq silent.symm
      rw [← consoles] at outputs
      exact (extends_run program console (by omega)).trans outputs

/-- The machine with words refines the machine with integers of any size.  After every number
of steps their runs are alike: the same index, selected slot, console and number of steps, and
storages and result that are the same integers; or the run with words was stopped by an
instruction whose exact result no word holds.  Runs that end normally have the same result and
exit status, and what the run with words has written is a prefix of what the run with integers
writes. -/
theorem run_words_refines_integers (program : Program) (console : Console) (bound : Nat) :
    RunsMatch program.linked (fun bound => run program bound console)
        (fun bound => run program bound console) bound ∧
      (forall value, (run program bound console : Run Int64).ending = .finished value ->
        (run program bound console : Run Int).ending = .finished value.toInt ∧
          Number.exitStatus value.toInt = Number.exitStatus value) ∧
      forall other, bound ≤ other ->
        (run program bound console : Run Int64).console.output.written.toList <+:
          (run program other console : Run Int).console.output.written.toList := by
  refine ⟨runsMatch_run program console bound, ?_, fun other => extends_words program console⟩
  intro value finished
  refine ⟨?_, Number.exitStatus_toInt value⟩
  cases runsMatch_run program console bound with
  | alike same =>
      rw [same, Run.map, finished]
      rfl
  | stopped _ _ _ _ _ _ _ ended =>
      rw [finished] at ended
      cases ended

end Machine
end HangulPane
