import HangulPane.Proofs.Machine.Effect
import HangulPane.Proofs.Number.Word

namespace HangulPane

/-!
How a run ends.

The last step of a run that has ended tells why it ended: an instruction failed, a halt was
met, or there was nothing more to run.  An instruction that finds enough values and names
only storages that exist can fail for few reasons, which lie in the values it meets and in
the console.
-/

/-- Whether a fault lies in the values or in the console.  An overflow is such a fault only
where numbers are bounded. -/
def Fault.isAdmissible (bounded : Bool) : Fault -> Bool
  | .divisionByZero _ | .moduloByZero _ | .invalidNumber _ | .channel _ => true
  | .overflow _ => bounded
  | .underflow .. | .invalidStorage .. => false

@[simp]
theorem Fault.isAdmissible_movedTo (bounded : Bool) (index : Nat) (fault : Fault) :
    (fault.movedTo index).isAdmissible bounded = fault.isAdmissible bounded := by
  cases fault <;> rfl

/-- Whether the storage that an instruction names exists, if it names one. -/
def Instruction.hasSlot : Instruction -> Bool
  | .sel slot | .mov slot => (Slot.ofByte? slot).isSome
  | _ => true

/-- Whether operations overflow only if numbers are bounded. -/
def Number.Overflows (N : Type) [Number N] (bounded : Bool) : Prop :=
  forall operation (left right : N),
    combine operation left right = .error .overflow -> bounded = true

theorem Number.overflows_words : Overflows Int64 true :=
  fun _ _ _ _ => rfl

/-- Integers of any size never overflow. -/
theorem Number.overflows_integers : Overflows Int false := by
  intro operation left right failed
  cases operation with
  | div =>
      simp only [combine, div] at failed
      split at failed <;> cases failed
  | mod =>
      simp only [combine, rem] at failed
      split at failed <;> cases failed
  | _ => cases failed

namespace Space

variable {N : Type} {space : Space N}

theorem exists_cons_of_size (enough : 1 ≤ space.size) :
    ∃ value rest, space.items = value :: rest := by
  cases items : space.items with
  | nil => simp [size_of_items items] at enough
  | cons value rest => exact ⟨value, rest, rfl⟩

theorem exists_cons_cons_of_size (enough : 2 ≤ space.size) :
    ∃ first second rest, space.items = first :: second :: rest := by
  rcases exists_cons_of_size (Nat.le_of_succ_le enough) with ⟨first, others, items⟩
  cases others with
  | nil => simp [size_of_items items] at enough
  | cons second rest => exact ⟨first, second, rest, items⟩

end Space

namespace Machine

variable {N : Type} {machine : Machine N} {console : Console} {bounded : Bool} {fault : Fault}

theorem isAdmissible_popThen {next : N -> Machine N -> Stepped N}
    (enough : 1 ≤ machine.space.size)
    (later : forall value machine, (next value machine).result = .error fault ->
      fault.isAdmissible bounded = true)
    (failed : (machine.popThen console next).result = .error fault) :
    fault.isAdmissible bounded = true := by
  rcases Space.exists_cons_of_size enough with ⟨value, rest, items⟩
  unfold popThen Space.pop at failed
  rw [items] at failed
  exact later _ _ failed

variable [Number N]

theorem isAdmissible_combine (limits : Number.Overflows N bounded) {operation : Opcode}
    (enough : 2 ≤ machine.space.size)
    (failed : (machine.combine console operation).result = .error fault) :
    fault.isAdmissible bounded = true := by
  rcases Space.exists_cons_cons_of_size enough with ⟨right, left, rest, items⟩
  unfold combine Space.binary at failed
  rw [items] at failed
  cases combined : Number.combine operation left right with
  | ok value => simp [combined, proceed] at failed
  | error reason =>
      simp only [combined, fail, Except.error.injEq] at failed
      rw [← failed]
      cases reason with
      | divisionByZero | moduloByZero => rfl
      | overflow => exact limits operation left right combined

theorem isAdmissible_perform (limits : Number.Overflows N bounded) {instruction : Instruction}
    (enough : instruction.opcode.requiredDepth ≤ machine.space.size)
    (hasSlot : instruction.hasSlot = true)
    (failed : (machine.perform console instruction).result = .error fault) :
    fault.isAdmissible bounded = true := by
  cases instruction with
  | add | sub | mul | div | mod | cmp => exact isAdmissible_combine limits enough failed
  | pop => exact isAdmissible_popThen enough (fun _ _ failed => by cases failed) failed
  | dup =>
      rcases Space.exists_cons_of_size enough with ⟨value, rest, items⟩
      simp [perform, Space.dup, items, proceedWith, proceed] at failed
  | swap =>
      rcases Space.exists_cons_cons_of_size enough with ⟨first, second, rest, items⟩
      simp [perform, Space.swap, items, proceedWith, proceed] at failed
  | sel byte =>
      rcases Option.isSome_iff_exists.mp hasSlot with ⟨slot, named⟩
      simp [perform, select, named, proceed] at failed
  | mov byte =>
      rcases Option.isSome_iff_exists.mp hasSlot with ⟨slot, named⟩
      simp only [perform, move, named] at failed
      exact isAdmissible_popThen enough (fun _ _ failed => by cases failed) failed
  | brz target =>
      refine isAdmissible_popThen enough ?_ failed
      intro value machine failed
      split at failed <;> cases failed
  | popNum | popChar =>
      refine isAdmissible_popThen enough ?_ failed
      intro value machine failed
      split at failed
      · cases failed
        rfl
      · cases failed
  | pushNum =>
      simp only [perform, inputNumber] at failed
      split at failed <;> cases failed <;> rfl
  | pushChar =>
      simp only [perform, inputChar] at failed
      split at failed <;> cases failed
      rfl
  | push | noop | brPop1 | brPop2 | jmp | halt => cases failed

/-- An instruction that finds enough values and whose storage exists fails for a reason that
lies in the values or in the console. -/
theorem isAdmissible_execute (limits : Number.Overflows N bounded) {instruction : Instruction}
    (enough : instruction.opcode.requiredDepth ≤ machine.space.size)
    (hasSlot : instruction.hasSlot = true)
    (failed : (machine.execute console instruction).result = .error fault) :
    fault.isAdmissible bounded = true := by
  unfold execute at failed
  dsimp only at failed
  rw [if_neg (Nat.not_lt_of_le enough)] at failed
  exact isAdmissible_perform limits enough hasSlot failed

/-- Only a halt halts. -/
theorem eq_halt_of_halted {instruction : Instruction}
    (halted : (machine.execute console instruction).result = .ok .halted) :
    instruction = .halt := by
  cases instruction with
  | halt => rfl
  | _ =>
      simp only [execute, perform, combine, popThen, proceedWith, select, move, output,
        branchOnZero, inputNumber, inputChar, fail, proceed, jump] at halted
      grind

/-- A step that does not go on leaves the index where it was. -/
theorem index_of_stopped {instruction : Instruction}
    (stopped : ¬ GoesOn (machine.execute console instruction)) :
    (machine.execute console instruction).machine.index = machine.index := by
  have sameLabels : instruction.mapLabel id = instruction := by
    cases instruction <;> rfl
  have relocated := machine.execute_movedTo console machine.index id instruction
  rw [movedTo_self, sameLabels] at relocated
  have index := congrArg (fun stepped => stepped.machine.index) relocated
  simp only [Stepped.relocated, movedTo_index] at index
  rw [index]
  split
  · rename_i continued
    exact absurd (Or.inl continued) stopped
  · rename_i jumped
    exact absurd (Or.inr jumped) stopped
  · rfl

end Machine

namespace Run

variable {N : Type} [Number N]

/-- The run carried on for a number of further steps, unless it has ended. -/
def resumed (code : Array Instruction) (bound : Nat) (run : Run N) : Run N :=
  match run.ending with
  | .unfinished => Machine.runFrom code run.steps bound run.machine run.console
  | _ => run

/-- Whether a run is inside its code and has ended, if it has ended normally, at a halt. -/
structure Inside (code : Array Instruction) (run : Run N) : Prop where
  index : run.machine.index < code.size
  halt : forall value, run.ending = .finished value -> code[run.machine.index]? = some .halt

end Run

namespace Machine

variable {N : Type} [Number N] {code : Array Instruction}

/-- A run that has ended is not carried on. -/
theorem Concludes.resumed_eq {machine : Machine N} {console : Console} {steps bound : Nat}
    {fault? : Option Fault} {run : Run N}
    (concludes : machine.Concludes console steps fault? run) : run.resumed code bound = run := by
  cases concludes <;> rfl

/-- A run that has ended at a machine inside its code, at a halt or by a fault, is inside it. -/
theorem Concludes.inside {machine : Machine N} {console : Console} {steps : Nat}
    {fault? : Option Fault} {run : Run N} (concludes : machine.Concludes console steps fault? run)
    (index : machine.index < code.size)
    (halt : fault? = none -> code[machine.index]? = some .halt) : run.Inside code where
  index := by
    rw [concludes.index_eq]
    exact index
  halt := by
    intro value finished
    rw [concludes.index_eq]
    cases concludes with
    | finished => exact halt rfl
    | unflushed | faulted => cases finished

/-- A run can be made in two parts. -/
theorem runFrom_add (first second : Nat) :
    forall (taken : Nat) (machine : Machine N) (console : Console),
      runFrom code taken (first + second) machine console =
        (runFrom code taken first machine console).resumed code second := by
  induction first with
  | zero =>
      intro taken machine console
      rw [Nat.zero_add]
      rfl
  | succ first inductionHypothesis =>
      intro taken machine console
      rw [Nat.succ_add]
      rcases stepped : machine.step code console with ⟨result, next, after⟩
      cases result with
      | error fault =>
          simp only [runFrom, stepped]
          exact (next.concludes_conclude ..).resumed_eq.symm
      | ok progress =>
          cases progress with
          | halted =>
              simp only [runFrom, stepped]
              exact (next.concludes_conclude ..).resumed_eq.symm
          | continued | jumped =>
              simp only [runFrom, stepped]
              exact inductionHypothesis (taken + 1) next after

/-- One step from inside the code is inside it, if it ends the run or stays there. -/
theorem inside_of_step {machine : Machine N} {console : Console} {taken : Nat}
    (index : machine.index < code.size)
    (stillInside : (runFrom code taken 1 machine console).ending = .unfinished ->
      (runFrom code taken 1 machine console).machine.index < code.size) :
    (runFrom code taken 1 machine console).Inside code := by
  have fetched : code[machine.index]? = some code[machine.index] :=
    Array.getElem?_eq_getElem index
  have step := machine.step_of_fetch console fetched
  rcases stepped : machine.step code console with ⟨result, next, after⟩
  rw [step] at stepped
  have stays : ¬ GoesOn (machine.execute console code[machine.index]) ->
      next.index = machine.index := by
    intro stopped
    rw [← index_of_stopped stopped, stepped]
  cases result with
  | error fault =>
      have stopped := stays (by simp [GoesOn, stepped])
      simp only [runFrom, step, stepped]
      refine (next.concludes_conclude ..).inside (stopped ▸ index) ?_
      intro halted
      cases halted
  | ok progress =>
      cases progress with
      | halted =>
          have stopped := stays (by simp [GoesOn, stepped])
          have halts : code[machine.index] = .halt :=
            eq_halt_of_halted (congrArg Stepped.result stepped)
          simp only [runFrom, step, stepped]
          refine (next.concludes_conclude ..).inside (stopped ▸ index) fun _ => ?_
          rw [stopped, fetched, halts]
      | continued | jumped =>
          simp only [runFrom, step, stepped] at stillInside ⊢
          exact ⟨stillInside trivial, fun _ finished => by cases finished⟩

/-- A run that has used up its code ends at once, and not inside the code. -/
theorem outcome?_of_end {machine : Machine N} (outside : ¬ machine.index < code.size)
    (taken : Nat) (console : Console) :
    ∃ outcome, (runFrom code taken 1 machine console).outcome? code = some outcome ∧
      outcome.isInside = false := by
  have nothing : code[machine.index]? = none := Array.getElem?_eq_none (Nat.le_of_not_lt outside)
  simp only [runFrom, step, nothing, halt]
  refine ⟨_, (machine.concludes_conclude ..).outcome?_eq code, ?_⟩
  rw [Stop.isInside_outcome]
  simp [stop, nothing]

/-- Runs that end inside the code if at all are inside the code all the time. -/
theorem inside_of_outcome? {machine : Machine N} {console : Console} {taken : Nat}
    (always : forall bound outcome,
      (runFrom code taken bound machine console).outcome? code = some outcome ->
      outcome.isInside = true) (bound : Nat) :
    (runFrom code taken bound machine console).Inside code := by
  have index : forall bound, (runFrom code taken bound machine console).ending = .unfinished ->
      (runFrom code taken bound machine console).machine.index < code.size := by
    intro bound unfinished
    refine Decidable.byContradiction fun outside => ?_
    have ends := always (bound + 1)
    rw [runFrom_add, Run.resumed, unfinished] at ends
    obtain ⟨outcome, ended, left⟩ := outcome?_of_end outside _ _
    rw [ends outcome ended] at left
    cases left
  induction bound with
  | zero => exact ⟨index 0 rfl, fun _ finished => by cases finished⟩
  | succ bound inductionHypothesis =>
      have stillInside := index (bound + 1)
      rw [runFrom_add, Run.resumed] at stillInside ⊢
      cases ending : (runFrom code taken bound machine console).ending with
      | finished | faulted => exact inductionHypothesis
      | unfinished =>
          simp only [ending] at stillInside ⊢
          exact inside_of_step (index bound ending) stillInside

end Machine
end HangulPane
