import HangulPane.Proofs.Machine.Ending
import HangulPane.Proofs.Pane.Compile
import HangulPane.Proofs.Program.Optimize

namespace HangulPane

/-!
Programs of a pane run safely.

A walker runs the operation of a cell only if it finds enough values for it, and every cell
names a storage that exists.  So all that can stop a walker is a halt, or a fault that lies in
the values or in the console.  The program of a pane with a cell ends as the walker ends,
optimised or not; from that it follows that no run leaves the code, for it would end there
without a halt.
-/

/-- A process that has ended was stopped by one of its steps. -/
theorem Process.ends_of_outcome {N State : Type} [Number N] {process : Process N State}
    {outcome : Outcome N} (bound : Nat) : forall (state : State) (console : Console),
      (process.history bound state console).outcome = some outcome ->
      ∃ last before stop flushed, (process last before).next = .ended stop ∧
        outcome = stop.outcome flushed := by
  induction bound with
  | zero =>
      intro state console ended
      cases ended
  | succ bound inductionHypothesis =>
      intro state console ended
      rw [history] at ended
      cases next : (process state console).next with
      | goOn later =>
          rw [next] at ended
          exact inductionHypothesis later _ ended
      | ended stop =>
          rw [next] at ended
          cases ended
          exact ⟨state, console, stop, _, next, rfl⟩

/-- The fault that ended a process, if one did. -/
def Outcome.fault? {N : Type} : Outcome N -> Option Fault
  | .finished .. => none
  | .faulted fault .. => some fault

/-- Whether an outcome is a normal end or an admissible fault.  If there was a cell, the process
is inside its code. -/
structure Outcome.IsOrderly {N : Type} (bounded nonempty : Bool) (outcome : Outcome N) : Prop where
  faults : forall fault, outcome.fault? = some fault -> fault.isAdmissible bounded = true
  inside : nonempty = true -> outcome.isInside = true

/-- A stop by nothing but admissible faults has an orderly outcome, also if the flush fails. -/
theorem Stop.isOrderly_outcome {N : Type} [Number N] {stop : Stop N} {bounded nonempty : Bool}
    (admissible : forall fault, stop.fault? = some fault -> fault.isAdmissible bounded = true)
    (inside : nonempty = true -> stop.inside = true) (flushed : Except ChannelFault Unit) :
    (stop.outcome flushed).IsOrderly bounded nonempty where
  faults := by
    intro fault faulted
    cases flushed with
    | error reason =>
        cases faulted
        rfl
    | ok done =>
        refine admissible fault ?_
        simp only [outcome] at faulted
        cases cause : stop.fault? with
        | none =>
            rw [cause] at faulted
            cases faulted
        | some other =>
            rw [cause] at faulted
            exact faulted
  inside := by
    rw [stop.isInside_outcome]
    exact inside

theorem Cell.hasSlot_action {cell : Cell} (wellFormed : cell.WellFormed) :
    cell.action.hasSlot = true := by
  have named : (Slot.ofByte? cell.slot).isSome = true := by
    have small : cell.final < 28 := wellFormed.final
    have byte : cell.slot.toNat = cell.final :=
      UInt8.toNat_ofNat_of_lt' (Nat.lt_trans small (by decide))
    simp [Slot.ofByte?, byte, wellFormed.final]
  unfold action
  cases cell.operation with
  | sel | mov => exact named
  | _ => rfl

namespace Walker

variable {N : Type} [Number N] {bounded : Bool}

/-- A cell with enough values for its operation stops a walker on the pane, and by nothing but
an admissible fault, if it stops it. -/
theorem admissible_of_continuation (limits : Number.Overflows N bounded) {pane : Pane}
    {walker : Walker N} {console : Console} {stopped : Stop N}
    (enough : (pane.cellAt walker.cursor.position).operation.requiredDepth ≤
      walker.machine.space.size)
    (ended : continuation pane walker.cursor (walker.machine.execute console
      (pane.cellAt walker.cursor.position).action) = .ended stopped) :
    stopped.inside = true ∧
      forall fault, stopped.fault? = some fault -> fault.isAdmissible bounded = true := by
  have wellFormed := pane.wellFormed_cellAt walker.cursor.position
  unfold continuation at ended
  split at ended
  · cases ended
  · cases ended
  · cases ended
    exact ⟨rfl, nofun⟩
  · rename_i fault failed
    cases ended
    refine ⟨rfl, ?_⟩
    rintro _ ⟨⟩
    refine (Fault.isAdmissible_movedTo bounded 0 fault).trans ?_
    refine Machine.isAdmissible_execute limits ?_ (Cell.hasSlot_action wellFormed) failed
    rw [Cell.opcode_action wellFormed]
    exact enough

/-- Each end of a walker is orderly. -/
theorem isOrderly_of_ended (limits : Number.Overflows N bounded) {pane : Pane}
    {walker : Walker N} {console : Console} {stopped : Stop N} {nonempty : Bool}
    (ended : (process pane walker console).next = .ended stopped)
    (flushed : Except ChannelFault Unit) :
    (stopped.outcome flushed).IsOrderly bounded nonempty := by
  cases cell : pane.contains walker.cursor.position with
  | false =>
      rw [process_beside cell] at ended
      cases ended
  | true =>
      by_cases short : walker.machine.space.size <
          (pane.cellAt walker.cursor.position).operation.requiredDepth
      · rw [process_short cell short] at ended
        cases ended
      · rw [process_enough cell short] at ended
        obtain ⟨inside, admissible⟩ :=
          admissible_of_continuation limits (Nat.le_of_not_lt short) ended
        exact Stop.isOrderly_outcome admissible (fun _ => inside) flushed

end Walker

namespace Pane

variable {N : Type} [Number N] [LiteralNumber N] {bounded : Bool}

/-- The optimised program of a pane ends orderly. -/
theorem isOrderly_outcome? (limits : Number.Overflows N bounded) (pane : Pane)
    (withComments : Bool) (level : OptimizationLevel) (bound : Nat) (console : Console)
    {outcome : Outcome N}
    (ended : (Machine.run ((pane.toProgram withComments).optimize level) bound console :
      Run N).outcome? ((pane.toProgram withComments).optimize level).linked = some outcome) :
    outcome.IsOrderly bounded !pane.isEmpty := by
  have same := Program.sameBehaviour_optimize (N := N) (pane.toProgram withComments) level
  have shown := (same console _).mpr ⟨bound, rfl⟩
  cases empty : pane.isEmpty with
  | true =>
      rcases shown with ⟨steps, ran⟩
      have outcomes := (congrArg History.outcome ran).trans ended
      cases steps with
      | zero => cases outcomes
      | succ steps =>
          rw [history_toProgram_of_isEmpty empty, ← outcome_stop_start] at outcomes
          cases outcomes
          exact Stop.isOrderly_outcome (fun _ faulted => by cases faulted)
            (fun nonempty => by cases nonempty) _
  | false =>
      rcases (walker_shows_iff empty withComments console _).mpr shown with ⟨steps, walked⟩
      have outcomes := congrArg History.outcome walked
      obtain ⟨last, before, stopped, flushed, next, rfl⟩ :=
        Process.ends_of_outcome steps _ _ (outcomes.trans ended)
      exact Walker.isOrderly_of_ended limits next flushed

end Pane

/-- Whether a run of a program is safe: only an admissible fault ends it, and if there was
anything to run it is inside the program and ends normally only at a halt. -/
structure Run.IsSafe {N : Type} (program : Program) (bounded nonempty : Bool) (run : Run N) :
    Prop where
  faults : forall fault, run.ending = .faulted fault -> fault.isAdmissible bounded = true
  index : nonempty = true -> run.machine.index < program.size
  halts : nonempty = true -> forall value, run.ending = .finished value ->
    program.code[run.machine.index]? = some .halt

/-- Runs of which each outcome is orderly are safe. -/
theorem Machine.isSafe_run {N : Type} [Number N] {program : Program} {bounded nonempty : Bool}
    {console : Console}
    (orderly : forall bound outcome,
      (run program bound console : Run N).outcome? program.linked = some outcome ->
      outcome.IsOrderly bounded nonempty) (bound : Nat) :
    (run program bound console : Run N).IsSafe program bounded nonempty := by
  have inside : nonempty = true -> (run program bound console : Run N).Inside program.linked := by
    intro someCell
    apply inside_of_outcome?
    intro other outcome ended
    exact (orderly other outcome ended).inside someCell
  refine ⟨?_, ?_, ?_⟩
  · intro fault faulted
    have ended : (run program bound console : Run N).outcome? program.linked =
        some (.faulted (fault.movedTo 0) (run program bound console : Run N).machine.selected
          (run program bound console : Run N).machine.storage
          program.linked[(run program bound console : Run N).machine.index]?.isSome) := by
      simp only [Run.outcome?, faulted]
    have admissible := (orderly bound _ ended).faults _ rfl
    exact (Fault.isAdmissible_movedTo bounded 0 fault).symm.trans admissible
  · intro someCell
    have index := (inside someCell).index
    rw [Program.linked, Array.size_map] at index
    exact index
  · intro someCell value finished
    have halt := (inside someCell).halt value finished
    rw [Program.getElem?_linked, Option.map_eq_some_iff] at halt
    rcases halt with ⟨instruction, fetched, halts⟩
    rw [fetched]
    cases instruction <;> simp_all [Instruction.mapLabel]

namespace Pane

/-- The program of a text, optimised at any level, runs safely with integers of any size and
with words: no storage is ever short of values or missing, no index leaves the program, and
only words overflow. -/
theorem optimize_toProgram_isSafe (text : List Char) (withComments : Bool)
    (level : OptimizationLevel) (console : Console) (bound : Nat) :
    (Machine.run (((ofText text).toProgram withComments).optimize level) bound console :
        Run Int).IsSafe (((ofText text).toProgram withComments).optimize level) false
        (!(ofText text).isEmpty) ∧
      (Machine.run (((ofText text).toProgram withComments).optimize level) bound console :
        Run Int64).IsSafe (((ofText text).toProgram withComments).optimize level) true
        (!(ofText text).isEmpty) := by
  constructor
  · apply Machine.isSafe_run
    intro bound outcome ended
    exact isOrderly_outcome? Number.overflows_integers _ withComments level bound console ended
  · apply Machine.isSafe_run
    intro bound outcome ended
    exact isOrderly_outcome? Number.overflows_words _ withComments level bound console ended

end Pane
end HangulPane
