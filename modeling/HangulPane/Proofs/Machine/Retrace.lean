import HangulPane.Proofs.Machine.Effect

namespace HangulPane

/-!
Runs that coincide to the index.

Two codes that keep their instructions where they are, and differ only in how control gets from
one to the next, can be told apart by nothing but the number of steps.  Then a run on the one
code is retraced by a run on the other one: the same calls, the same console, and, once it has
ended, the same machine at the same index with the same value or the very same fault.

One code drives and the other one follows.  They move together where both are at the same
instruction, and either may follow a jump alone.
-/

/-- Whether two runs left the same console behind and ended, if they did, in the same way on the
same machine.  A fault carries its index, so that is the same too. -/
structure Run.Coincides {N : Type} (left right : Run N) : Prop where
  console : left.console = right.console
  ending : left.ending = right.ending
  machine : left.ending ≠ .unfinished -> left.machine = right.machine

namespace Run.Coincides

variable {N : Type} {first second third : Run N}

theorem trans (left : first.Coincides second) (right : second.Coincides third) :
    first.Coincides third where
  console := left.console.trans right.console
  ending := left.ending.trans right.ending
  machine := fun ended =>
    (left.machine ended).trans (right.machine (left.ending ▸ ended))

end Run.Coincides

namespace Machine

variable {N : Type} [Number N]

section GoingOn

variable {code : Array Instruction} {machine : Machine N} {console : Console}

/-- A run whose first step goes on is the rest of it. -/
theorem runFrom_succ_of_goesOn (goesOn : GoesOn (machine.step code console)) (taken bound : Nat) :
    runFrom code taken (bound + 1) machine console =
      runFrom code (taken + 1) bound (machine.step code console).machine
        (machine.step code console).console := by
  rcases stepped : machine.step code console with ⟨result, next, after⟩
  rw [stepped] at goesOn
  rcases goesOn with continued | jumped
  · cases continued
    simp only [runFrom, stepped]
  · cases jumped
    simp only [runFrom, stepped]

/-- The calls of a run whose first step goes on. -/
theorem calls_succ_of_goesOn (goesOn : GoesOn (machine.step code console)) (bound : Nat) :
    calls code (bound + 1) machine console = (machine.call? code console).toList ++
      calls code bound (machine.step code console).machine
        (machine.step code console).console := by
  rcases stepped : machine.step code console with ⟨result, next, after⟩
  rw [stepped] at goesOn
  rcases goesOn with continued | jumped
  · cases continued
    simp only [calls, stepped]
  · cases jumped
    simp only [calls, stepped]

end GoingOn

/-- Whether a number of steps on the driving code and a number of steps on the following one make
the same calls and coincide. -/
structure Abreast (driving following : Array Instruction) (bound other : Nat)
    (machine partner : Machine N) (console : Console) : Prop where
  calls : calls following other partner console = calls driving bound machine console
  runs : forall taken otherTaken, (runFrom driving taken bound machine console).Coincides
    (runFrom following otherTaken other partner console)

/-- Whether the following code retraces a number of steps on the driving one. -/
def Retraced (driving following : Array Instruction) (bound : Nat)
    (machine partner : Machine N) (console : Console) : Prop :=
  ∃ other, Abreast driving following bound other machine partner console

section Steps

variable {driving following : Array Instruction} {bound target : Nat}
  {machine partner : Machine N} {console : Console}

theorem retraced_zero (driving following : Array Instruction) (machine partner : Machine N)
    (console : Console) : Retraced driving following 0 machine partner console :=
  ⟨0, rfl, fun _ _ => ⟨rfl, rfl, fun ended => absurd rfl ended⟩⟩

/-- Both go on, with the same call and to the same console. -/
theorem Retraced.both (goesOn : GoesOn (machine.step driving console))
    (partnerGoesOn : GoesOn (partner.step following console))
    (sameCall : partner.call? following console = machine.call? driving console)
    (sameConsole : (partner.step following console).console =
      (machine.step driving console).console)
    (rest : Retraced driving following bound (machine.step driving console).machine
      (partner.step following console).machine (machine.step driving console).console) :
    Retraced driving following (bound + 1) machine partner console := by
  rcases rest with ⟨other, sameCalls, runs⟩
  refine ⟨other + 1, ?_, ?_⟩
  · rw [calls_succ_of_goesOn goesOn, calls_succ_of_goesOn partnerGoesOn, sameCall, sameConsole,
      sameCalls]
  · intro taken otherTaken
    rw [runFrom_succ_of_goesOn goesOn, runFrom_succ_of_goesOn partnerGoesOn, sameConsole]
    exact runs (taken + 1) (otherTaken + 1)

/-- The number of steps makes no difference to how a run ends. -/
theorem coincides_conclude (machine : Machine N) (console : Console) (fault? : Option Fault)
    (steps other : Nat) : (machine.conclude console fault? steps).Coincides
      (machine.conclude console fault? other) := by
  unfold conclude
  rcases console.flush with ⟨_ | _, flushed⟩
  · exact ⟨rfl, rfl, fun _ => rfl⟩
  · cases fault? <;> exact ⟨rfl, rfl, fun _ => rfl⟩

/-- Both make the same step, which does not go on. -/
theorem retraced_of_stopped
    (sameStep : partner.step following console = machine.step driving console)
    (stopped : ¬ GoesOn (machine.step driving console))
    (sameCall : partner.call? following console = machine.call? driving console) :
    Retraced driving following (bound + 1) machine partner console := by
  rcases stepped : machine.step driving console with ⟨result, next, after⟩
  rw [stepped] at sameStep stopped
  cases result with
  | error fault =>
      refine ⟨1, ?_, fun taken otherTaken => ?_⟩
      · simp only [calls, stepped, sameStep, sameCall]
      · simp only [runFrom, stepped, sameStep]
        exact coincides_conclude next after (some fault) (taken + 1) (otherTaken + 1)
  | ok progress =>
      cases progress with
      | halted =>
          refine ⟨1, ?_, fun taken otherTaken => ?_⟩
          · simp only [calls, stepped, sameStep, sameCall]
          · simp only [runFrom, stepped, sameStep]
            exact coincides_conclude next after none (taken + 1) (otherTaken + 1)
      | continued => exact absurd (Or.inl rfl) stopped
      | jumped => exact absurd (Or.inr rfl) stopped

theorem step_of_jmp {code : Array Instruction} {machine : Machine N} {target : Nat}
    (fetched : code[machine.index]? = some (.jmp target)) (console : Console) :
    machine.step code console = machine.jump console target :=
  machine.step_of_fetch console fetched

theorem call?_of_jmp {code : Array Instruction} {machine : Machine N} {target : Nat}
    (fetched : code[machine.index]? = some (.jmp target)) (console : Console) :
    machine.call? code console = none := by
  simp only [call?, fetched, Option.bind_some, callOf]

/-- The driving machine follows a jump alone. -/
theorem Retraced.driver_jumps (fetched : driving[machine.index]? = some (.jmp target))
    (rest : Retraced driving following bound (machine.movedTo target) partner console) :
    Retraced driving following (bound + 1) machine partner console := by
  rcases rest with ⟨other, sameCalls, runs⟩
  have jumps := step_of_jmp fetched console
  have goesOn : GoesOn (machine.step driving console) := jumps ▸ Or.inr rfl
  refine ⟨other, ?_, ?_⟩
  · rw [calls_succ_of_goesOn goesOn, call?_of_jmp fetched, jumps]
    exact sameCalls
  · intro taken otherTaken
    rw [runFrom_succ_of_goesOn goesOn, jumps]
    exact runs (taken + 1) otherTaken

/-- The following machine follows a jump alone. -/
theorem Retraced.follower_jumps (fetched : following[partner.index]? = some (.jmp target))
    (rest : Retraced driving following bound machine (partner.movedTo target) console) :
    Retraced driving following bound machine partner console := by
  rcases rest with ⟨other, sameCalls, runs⟩
  have jumps := step_of_jmp fetched console
  have goesOn : GoesOn (partner.step following console) := jumps ▸ Or.inr rfl
  refine ⟨other + 1, ?_, ?_⟩
  · rw [calls_succ_of_goesOn goesOn, call?_of_jmp fetched, jumps]
    exact sameCalls
  · intro taken otherTaken
    rw [runFrom_succ_of_goesOn goesOn, jumps]
    exact runs taken (otherTaken + 1)

end Steps

section Instructions

variable {driving following code : Array Instruction} {bound : Nat} {machine : Machine N}
  {instruction : Instruction} {rename : Nat -> Nat}

/-- A step in terms of what the instruction does with its own label. -/
theorem step_eq_relocated
    (fetched : code[machine.index]? = some (instruction.mapLabel rename)) (console : Console) :
    machine.step code console = (machine.execute console instruction).relocated machine.index
      (destination rename instruction) := by
  have moved := machine.execute_movedTo console machine.index rename instruction
  rw [movedTo_self] at moved
  rw [machine.step_of_fetch console fetched, moved]

theorem call?_eq_callOf
    (fetched : code[machine.index]? = some (instruction.mapLabel rename)) (console : Console) :
    machine.call? code console = machine.callOf console instruction := by
  have moved := machine.callOf_movedTo console machine.index rename instruction
  rw [movedTo_self] at moved
  rw [call?, fetched, Option.bind_some, moved]

/-- Both are at the same instruction, and its label may lead to different places.  The step ends
both runs alike, or both go on. -/
theorem retraced_of_fetch {renameDriving renameFollowing : Nat -> Nat}
    (fetched : driving[machine.index]? = some (instruction.mapLabel renameDriving))
    (followingFetched :
      following[machine.index]? = some (instruction.mapLabel renameFollowing))
    (console : Console)
    (rest : forall (next : Machine N) after nextIndex partnerIndex,
      Follows instruction renameDriving renameFollowing machine.index machine.index nextIndex
        partnerIndex ->
      Retraced driving following bound (next.movedTo nextIndex) (next.movedTo partnerIndex)
        after) :
    Retraced driving following (bound + 1) machine machine console := by
  have steps := step_eq_relocated fetched console
  have partnerSteps := step_eq_relocated followingFetched console
  have sameCall : machine.call? following console = machine.call? driving console :=
    (call?_eq_callOf followingFetched console).trans (call?_eq_callOf fetched console).symm
  rcases executed : machine.execute console instruction with ⟨result, next, after⟩
  rw [executed] at steps partnerSteps
  cases result with
  | error fault =>
      apply retraced_of_stopped (partnerSteps.trans steps.symm) _ sameCall
      rw [steps]
      simp [GoesOn, Stepped.relocated_error]
  | ok progress =>
      cases progress with
      | halted =>
          apply retraced_of_stopped (partnerSteps.trans steps.symm) _ sameCall
          rw [steps]
          simp [GoesOn, Stepped.relocated_halted]
      | continued =>
          apply Retraced.both (steps ▸ Or.inl rfl) (partnerSteps ▸ Or.inl rfl) sameCall
          · rw [steps, partnerSteps]
            rfl
          · rw [steps, partnerSteps]
            refine rest next after _ _ (Or.inl ⟨?_, rfl, rfl⟩)
            exact machine.fallsThrough_of_continued console (by rw [executed])
      | jumped =>
          have labelled := machine.label?_isSome_of_jumped console (by rw [executed])
          rcases Option.isSome_iff_exists.mp labelled with ⟨label, found⟩
          apply Retraced.both (steps ▸ Or.inr rfl) (partnerSteps ▸ Or.inr rfl) sameCall
          · rw [steps, partnerSteps]
            rfl
          · rw [steps, partnerSteps]
            refine rest next after _ _ (Or.inr ⟨label, found, ?_, ?_⟩) <;>
              simp [destination, found]

/-- Past the end of both codes both runs end. -/
theorem retraced_of_end (ended : driving[machine.index]? = none)
    (followingEnded : following[machine.index]? = none) (console : Console) :
    Retraced driving following (bound + 1) machine machine console := by
  apply retraced_of_stopped
  · simp only [step, ended, followingEnded]
  · simp [step, ended, halt, GoesOn]
  · simp only [call?, ended, followingEnded]

end Instructions
end Machine

/-- Whether every number of steps of the left program has a number of steps of the right program
with the same calls and a run that coincides. -/
def Program.RunsExactly (N : Type) [Number N] (left right : Program) : Prop :=
  forall (console : Console) (bound : Nat), ∃ other : Nat,
    (Machine.calls right.linked other Machine.start console : List (ConsoleCall N)) =
        Machine.calls left.linked bound Machine.start console ∧
      (Machine.run left bound console : Run N).Coincides (Machine.run right other console)

namespace Program.RunsExactly

variable {N : Type} [Number N]

theorem refl (program : Program) : RunsExactly N program program :=
  fun _ bound => ⟨bound, rfl, rfl, rfl, fun _ => rfl⟩

theorem trans {first second third : Program} (left : RunsExactly N first second)
    (right : RunsExactly N second third) : RunsExactly N first third := by
  intro console bound
  rcases left console bound with ⟨middle, sameCalls, coincides⟩
  rcases right console middle with ⟨other, sameCallsOther, coincidesOther⟩
  exact ⟨other, sameCallsOther.trans sameCalls, coincides.trans coincidesOther⟩

theorem of_retraced {left right : Program}
    (retraced : forall bound console,
      Machine.Retraced left.linked right.linked bound (Machine.start (N := N)) Machine.start
        console) : RunsExactly N left right := by
  intro console bound
  rcases retraced bound console with ⟨other, sameCalls, runs⟩
  exact ⟨other, sameCalls, runs 0 0⟩

end Program.RunsExactly
end HangulPane
