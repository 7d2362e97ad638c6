import HangulPane.Program.Optimize
import HangulPane.Proofs.Program.Blocks
import HangulPane.Proofs.Program.Collapse
import HangulPane.Proofs.Program.Compact
import HangulPane.Proofs.Program.Depth
import HangulPane.Proofs.Program.Fold

namespace HangulPane
namespace Program

/-!
Optimising keeps the behaviour.

Every pass of a level shows the histories that the program before it showed, so the
levels do as well, with words and with integers of any size.
-/

theorem respects_reachGraph (program : Program) :
    program.reachGraph.Respects fun _ _ => True where
  refl := fun _ => trivial
  refused := fun _ _ _ => trivial
  arrived := fun _ _ _ _ => trivial
  kept := fun _ _ _ _ _ _ => trivial

theorem analyses_reachGraph {N : Type} [Number N] (program : Program) :
    program.Analyses program.reachGraph (fun _ _ => True) (Machine.index (N := N))
      (fun _ _ => True) where
  respects := program.respects_reachGraph
  wider := fun _ _ _ _ _ => trivial
  inside := fun _ index => index
  passes := by
    intro _ _ _ _ passing
    simp [reachGraph] at passing
  follows := by
    intro _ machine _ next _ _ successor _
    exact ⟨(), List.mem_map.mpr ⟨next.index, successor, rfl⟩, trivial⟩

theorem isAlive_reachable_of_accounted {program : Program} {index : Nat}
    (accounted : program.reachGraph.Accounted (fun _ _ => True)
      (program.reachGraph.outcome [(0, ())]) [] index ())
    (inside : index < program.size) : isAlive program.reachable index = true := by
  cases accounted with
  | waiting listed => cases listed
  | outside beyond => exact absurd inside (Nat.not_lt.mpr beyond)
  | passed next passing _ => cases passing
  | recorded known found _ => simp [isAlive, reachable, found]

/-- What a run meets is reachable. -/
theorem isAlive_reachable {N : Type} {program : Program} {machine : Machine N}
    (described : Analyses.Described program.reachGraph (fun _ _ => True) [(0, ())]
      Machine.index (fun _ _ => True) machine)
    (inside : machine.index < program.size) :
    isAlive program.reachable machine.index = true := by
  rcases described with ⟨_, accounted, _⟩
  exact isAlive_reachable_of_accounted accounted inside

/-- An instruction is alive in two respects if it is alive in each. -/
theorem isAlive_zipWith_and (first second : Array Bool) (index : Nat) :
    isAlive (Array.zipWith (fun left right => left && right) first second) index =
      (isAlive first index && isAlive second index) := by
  unfold isAlive
  rw [Array.getElem?_zipWith]
  cases first[index]? with
  | none => rfl
  | some left =>
      cases second[index]? with
      | none => simp
      | some right => rfl

section Levels

variable {N : Type} [Number N]

theorem sameBehaviour_pruneCoarsely (program : Program) :
    SameBehaviour N program program.pruneCoarsely :=
  program.sameBehaviour_collapseJumps.trans
    program.collapseJumps.sameBehaviour_compact_coarselyLive

theorem sameBehaviour_prunePrecisely (program : Program) :
    SameBehaviour N program program.prunePrecisely := by
  have collapsed := program.sameBehaviour_collapseJumps (N := N)
  have pruned := program.collapseJumps.sameBehaviour_compact_preciselyLive (N := N)
  exact (collapsed.trans pruned).trans (sameBehaviour_reorderBlocks _)

variable [LiteralNumber N]

/-- Folding constants and sweeping what is left over keeps the behaviour.  What a run meets
is reachable, and has a context that folding has kept, so if it is not needed it does
nothing. -/
theorem sameBehaviour_foldAndSweep (program : Program) :
    SameBehaviour N program program.foldAndSweep := by
  unfold foldAndSweep
  split
  · exact .refl program
  rename_i folded needed found
  obtain ⟨folding, rfl, rfl, consistent, same⟩ := foldConstants?_preserves (N := N) found
  have closed := consistent.closed.collapseJumps
  have reach := analyses_reachGraph (N := N) folding.program.collapseJumps
  refine (same.trans folding.program.sameBehaviour_collapseJumps).trans ?_
  refine sameBehaviour_compact _ _
    (fun machine => InContext folding.program.collapseJumps program.storageContext machine ∧
      Analyses.Described folding.program.collapseJumps.reachGraph (fun _ _ => True) [(0, ())]
        Machine.index (fun _ _ => True) machine) ?_
    ⟨closed.inContext_start, reach.described_start trivial⟩ ?_
  · rintro machine console call after next ⟨inContext, described⟩ moves
    exact ⟨closed.maintains machine console call after next inContext moves,
      reach.maintains_described _ machine console call after next described moves⟩
  · rintro machine ⟨inContext, described⟩ inside dead
    rw [isAlive_zipWith_and, isAlive_reachable described inside, Bool.and_true] at dead
    rcases inContext.allowed inside with ⟨known, found, _⟩
    have insideFolded : machine.index < folding.program.size := by
      rw [size, code_collapseJumps] at inside
      exact inside
    apply Machine.silently_noop
    rw [getElem?_linked, code_collapseJumps, consistent.noop_of_dead found dead insideFolded]
    rfl

/-- Optimising keeps the behaviour, at every level. -/
theorem sameBehaviour_optimize (program : Program) (level : OptimizationLevel) :
    SameBehaviour N program (program.optimize level) := by
  cases level with
  | plain => exact .refl program
  | coarse => exact program.sameBehaviour_pruneCoarsely.trans (sameBehaviour_foldAndSweep _)
  | precise => exact program.sameBehaviour_prunePrecisely.trans (sameBehaviour_foldAndSweep _)

end Levels

/-- Whether every number of steps of the left program has a number of steps of the right
program with the same calls and an alike run. -/
def RunsAlike (N : Type) [Number N] (left right : Program) : Prop :=
  forall (console : Console) (bound : Nat), ∃ other : Nat,
    (Machine.calls right.linked other Machine.start console : List (ConsoleCall N)) =
        Machine.calls left.linked bound Machine.start console ∧
      (Machine.run left bound console : Run N).Alike (Machine.run right other console)

/-- A program runs like another one that shows all its histories. -/
theorem runsAlike_of_shows {N : Type} [Number N] {left right : Program}
    (shown : forall (console : Console) (history : History N),
      left.Shows console history -> right.Shows console history) : RunsAlike N left right := by
  intro console bound
  rcases shown console (Machine.history left bound console) ⟨bound, rfl⟩ with ⟨other, equal⟩
  refine ⟨other, congrArg History.calls equal, ?_⟩
  exact Run.alike_of_outcome? (congrArg History.console equal).symm
    (congrArg History.outcome equal).symm

theorem runsAlike_of_sameBehaviour {N : Type} [Number N] {left right : Program}
    (same : SameBehaviour N left right) : RunsAlike N left right ∧ RunsAlike N right left := by
  constructor
  · exact runsAlike_of_shows fun console history => (same console history).mp
  · exact runsAlike_of_shows fun console history => (same console history).mpr

/-- An optimised program runs like the program it was made from, at every level, with
words and with integers of any size, and whatever the program and the console are. -/
theorem optimize_runsAlike (program : Program) (level : OptimizationLevel) :
    (RunsAlike Int program (program.optimize level) ∧
        RunsAlike Int (program.optimize level) program) ∧
      (RunsAlike Int64 program (program.optimize level) ∧
        RunsAlike Int64 (program.optimize level) program) :=
  ⟨runsAlike_of_sameBehaviour (sameBehaviour_optimize program level),
    runsAlike_of_sameBehaviour (sameBehaviour_optimize program level)⟩

end Program
end HangulPane
