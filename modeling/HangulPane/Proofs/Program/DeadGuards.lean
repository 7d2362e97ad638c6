import HangulPane.Proofs.Machine.Ending
import HangulPane.Proofs.Program.Depth

namespace HangulPane

/-!
What a run meets of the code that the depth analyses find no use for.

An instruction without a use may be met by a run, but then it is a guard, and the selected
storage holds the values that it asks for, so control falls through it.  Whatever else a run
meets is marked as live, and so is every guard that a run jumps from.
-/

namespace Machine

variable {N : Type} [Number N] {code : Array Instruction}

/-- A step that does not go on leaves the index where it was, past the end of the code as
well as inside. -/
theorem step_index_of_stopped {machine : Machine N} {console : Console}
    (stopped : ¬ GoesOn (machine.step code console)) :
    (machine.step code console).machine.index = machine.index := by
  cases fetched : code[machine.index]? with
  | none => simp only [step, fetched, halt]
  | some instruction =>
      rw [machine.step_of_fetch console fetched] at stopped ⊢
      exact index_of_stopped stopped

/-- A machine that a run leaves behind is one of which the invariant holds, or it stands where
the last step of the run ended it. -/
theorem holds_or_stopped_runFrom {holds : Machine N -> Prop} (maintained : Maintains code holds)
    (bound : Nat) :
    forall (taken : Nat) (machine : Machine N) (console : Console), holds machine ->
      holds (runFrom code taken bound machine console).machine ∨
        ∃ (last : Machine N) (before : Console), holds last ∧
          last.index = (runFrom code taken bound machine console).machine.index ∧
          ¬ GoesOn (last.step code before) := by
  induction bound with
  | zero =>
      intro taken machine console held
      exact Or.inl held
  | succ bound inductionHypothesis =>
      intro taken machine console held
      rcases stepped : machine.step code console with ⟨result, next, after⟩
      cases result with
      | error fault =>
          have stopped : ¬ GoesOn (machine.step code console) := by simp [stepped, GoesOn]
          have stays := step_index_of_stopped stopped
          rw [stepped] at stays
          refine Or.inr ⟨machine, console, held, ?_, stopped⟩
          simp only [runFrom, stepped, (next.concludes_conclude ..).index_eq]
          exact stays.symm
      | ok progress =>
          cases progress with
          | halted =>
              have stopped : ¬ GoesOn (machine.step code console) := by simp [stepped, GoesOn]
              have stays := step_index_of_stopped stopped
              rw [stepped] at stays
              refine Or.inr ⟨machine, console, held, ?_, stopped⟩
              simp only [runFrom, stepped, (next.concludes_conclude ..).index_eq]
              exact stays.symm
          | continued | jumped =>
              have heldNext : holds next := by
                apply maintained machine console (machine.call? code console) after next held
                simp only [process, stepped, continuation]
              simp only [runFrom, stepped]
              exact inductionHypothesis (taken + 1) next after heldNext

end Machine

namespace Program

variable {N : Type} {program : Program} {machine : Machine N}

/-- Whether a machine is at a guard and its selected storage holds the values that the guard
asks for. -/
inductive AtSatisfiedGuard (program : Program) (machine : Machine N) : Prop where
  | one (label : Nat) (fetched : program.code[machine.index]? = some (.brPop1 label))
      (enough : 1 ≤ machine.space.size)
  | two (label : Nat) (fetched : program.code[machine.index]? = some (.brPop2 label))
      (enough : 2 ≤ machine.space.size)

theorem atSatisfiedGuard_of_satisfiesGuard {instruction : Instruction} {depth : Nat}
    (fetched : program.code[machine.index]? = some instruction)
    (satisfied : satisfiesGuard instruction depth = true) (deep : depth ≤ machine.space.size) :
    program.AtSatisfiedGuard machine := by
  unfold satisfiesGuard at satisfied
  simp only [Bool.and_eq_true, decide_eq_true_eq] at satisfied
  have enough := Nat.le_trans satisfied.2 deep
  cases instruction with
  | brPop1 label => exact .one label fetched enough
  | brPop2 label => exact .two label fetched enough
  | _ => cases satisfied.1

variable [Number N]

/-- Control falls through a satisfied guard, and nothing else happens. -/
theorem AtSatisfiedGuard.step_eq_proceed (guarded : program.AtSatisfiedGuard machine)
    (console : Console) : machine.step program.linked console = machine.proceed console := by
  rcases guarded with ⟨label, fetched, enough⟩ | ⟨label, fetched, enough⟩
  · have linked : program.linked[machine.index]? = some (.brPop1 (program.target label)) := by
      rw [getElem?_linked, fetched]
      rfl
    rw [machine.step_of_fetch console linked]
    exact if_neg (Nat.not_lt.mpr enough)
  · have linked : program.linked[machine.index]? = some (.brPop2 (program.target label)) := by
      rw [getElem?_linked, fetched]
      rfl
    rw [machine.step_of_fetch console linked]
    exact if_neg (Nat.not_lt.mpr enough)

/-- Whether a marking has a mark for every instruction, and whatever a run meets unmarked is a
guard that only lets it through. -/
structure SoundlyMarked (N : Type) [Number N] (program : Program) (live : Array Bool) : Prop where
  size : live.size = program.size
  guarded : forall (console : Console) (bound : Nat),
    live[(Machine.run program bound console : Run N).machine.index]? = some false ->
      program.AtSatisfiedGuard (Machine.run program bound console : Run N).machine
  falls : forall (console later : Console) (bound : Nat),
    live[(Machine.run program bound console : Run N).machine.index]? = some false ->
      (Machine.run program bound console : Run N).machine.step program.linked later =
        (Machine.run program bound console : Run N).machine.proceed later

/-- A marking is sound if an invariant of the run shows it to be.  The last step of a run is
not made by an unmarked instruction, because it would have gone on. -/
theorem soundlyMarked_of_maintains {live : Array Bool} {holds : Machine N -> Prop}
    (size : live.size = program.size) (maintained : Machine.Maintains program.linked holds)
    (held : holds Machine.start)
    (guarded : forall machine, holds machine -> live[machine.index]? = some false ->
      program.AtSatisfiedGuard machine) : SoundlyMarked N program live := by
  have met : forall (console : Console) (bound : Nat),
      live[(Machine.run program bound console : Run N).machine.index]? = some false ->
        program.AtSatisfiedGuard (Machine.run program bound console : Run N).machine := by
    intro console bound dead
    rcases Machine.holds_or_stopped_runFrom maintained bound 0 Machine.start console held with
      heldHere | ⟨last, before, heldLast, sameIndex, stopped⟩
    · exact guarded _ heldHere dead
    · have deadLast : live[last.index]? = some false := sameIndex ▸ dead
      have falls := (guarded last heldLast deadLast).step_eq_proceed before
      rw [falls] at stopped
      exact absurd (Or.inl rfl) stopped
  exact ⟨size, met, fun console later bound dead => (met console bound dead).step_eq_proceed later⟩

theorem size_coarselyLive (program : Program) : program.coarselyLive.size = program.size := by
  rw [coarselyLive, Array.size_map, Exploration.size_outcome]
  rfl

theorem size_preciselyLive (program : Program) : program.preciselyLive.size = program.size := by
  simp only [preciselyLive, Array.size_map, Array.size_range]

theorem atSatisfiedGuard_of_not_coarselyLive
    (described : Analyses.Described program.coarseGraph (fun known fact => known ≤ fact) [(0, 0)]
      Machine.index (fun depth machine => depth ≤ machine.space.size) machine)
    (dead : program.coarselyLive[machine.index]? = some false) :
    program.AtSatisfiedGuard machine := by
  have index : machine.index < program.size := by
    rw [← program.size_coarselyLive]
    exact (Array.getElem?_eq_some_iff.mp dead).1
  have dead : isAlive program.coarselyLive machine.index = false := by simp [isAlive, dead]
  rcases program.analyses_coarseGraph.exists_pass_of_unrecorded described index
    (unrecorded_of_not_coarselyLive dead) with ⟨depth, next, deep, passing⟩
  rcases coarseGraph_pass_eq_some_iff.mp passing with ⟨instruction, fetched, satisfied, _⟩
  exact atSatisfiedGuard_of_satisfiesGuard fetched satisfied deep

theorem atSatisfiedGuard_of_not_preciselyLive
    (described : Analyses.Described program.preciseGraph Depths.Covers [(0, Depths.zero)]
      placeOf (fun depths machine => depths.Describes machine.storage) machine)
    (dead : program.preciselyLive[machine.index]? = some false) :
    program.AtSatisfiedGuard machine := by
  have index : machine.index < program.size := by
    rw [← program.size_preciselyLive]
    exact (Array.getElem?_eq_some_iff.mp dead).1
  have dead : isAlive program.preciselyLive machine.index = false := by simp [isAlive, dead]
  rcases program.analyses_preciseGraph.exists_pass_of_unrecorded described index
    (unrecorded_of_not_preciselyLive index dead) with ⟨depths, next, deep, passing⟩
  rcases satisfiesGuard_of_preciseGraph_pass passing with ⟨instruction, fetched, satisfied, _⟩
  exact atSatisfiedGuard_of_satisfiesGuard fetched satisfied (deep machine.selected)

/-- Both depth analyses are sound: whatever a run meets that they find no use for is a guard
whose values are there, with numbers of every kind and whatever the program and the console
are. -/
theorem soundlyMarked_depths (N : Type) [Number N] (program : Program) :
    SoundlyMarked N program program.coarselyLive ∧
      SoundlyMarked N program program.preciselyLive := by
  have coarse := analyses_coarseGraph (N := N) program
  have precise := analyses_preciseGraph (N := N) program
  constructor
  · apply soundlyMarked_of_maintains program.size_coarselyLive
      (coarse.maintains_described [(0, 0)]) (coarse.described_start (Nat.zero_le _))
    intro machine described dead
    exact atSatisfiedGuard_of_not_coarselyLive described dead
  · apply soundlyMarked_of_maintains program.size_preciselyLive
      (precise.maintains_described [(0, Depths.zero)]) program.described_start_preciseGraph
    intro machine described dead
    exact atSatisfiedGuard_of_not_preciselyLive described dead

/-- A guard that comes after a push. -/
def guardedPush : Program where
  code := #[.push 1, .brPop1 0, .halt]
  labels := Table.empty
  comments := none

/-- A run meets the guard after the push, for which the coarse analysis finds no use. -/
theorem guardedPush_soundlyMarked :
    guardedPush.coarselyLive[(Machine.run guardedPush 1 (Console.start (Input.ofBytes []) none
        (Warnings.fresh 3 none)) : Run Int).machine.index]? = some false ∧
      guardedPush.AtSatisfiedGuard (Machine.run guardedPush 1 (Console.start (Input.ofBytes [])
        none (Warnings.fresh 3 none)) : Run Int).machine := by
  have unmarked : guardedPush.coarselyLive[1]? = some false := by cbv
  have met : (Machine.run guardedPush 1 (Console.start (Input.ofBytes []) none
      (Warnings.fresh 3 none)) : Run Int).machine.index = 1 := by decide +kernel
  rw [← met] at unmarked
  exact ⟨unmarked, (soundlyMarked_depths Int guardedPush).1.guarded _ _ unmarked⟩

end Program
end HangulPane
