import HangulPane.Listing.Writer
import HangulPane.Program.Load
import HangulPane.Proofs.Listing.WellFormed
import HangulPane.Proofs.Pane.WellFormed
import HangulPane.Proofs.Records.RoundTrip
import Mathlib.Logic.Relation

namespace HangulPane

/-!
Every program that is loaded is well formed, and stays so through every revision.

A revision is one run of a pass, or writing the program and reading it again.  Reading
establishes well-formedness on its own, whatever was written, so only the passes rely on what
was there before.
-/

namespace Records

theorem hasSlot_of_decodeRecord {index : Nat} {low middle high code : UInt8}
    {instruction : Instruction}
    (decoded : decodeRecord index low middle high code = .ok instruction) :
    instruction.hasSlot = true := by
  unfold decodeRecord at decoded
  dsimp only at decoded
  split at decoded
  · cases decoded
  · split at decoded
    · cases decoded
    · rename_i made
      cases decoded
      exact (Instruction.opcode_of_ofParts? made).2

theorem hasSlot_of_decodeFrom {index : Nat} {bytes : List UInt8}
    {instructions : List Instruction} (decoded : decodeFrom index bytes = .ok instructions)
    {instruction : Instruction} (member : instruction ∈ instructions) :
    instruction.hasSlot = true := by
  fun_induction decodeFrom index bytes generalizing instructions with
  | case1 => cases decoded
  | case2 =>
      cases decoded
      contradiction
  | case3 => cases decoded
  | case4 => cases decoded
  | case5 index low middle high code rest other first record later remaining
      inductionHypothesis =>
      cases decoded
      rcases List.mem_cons.mp member with rfl | rest
      · exact hasSlot_of_decodeRecord record
      · exact inductionHypothesis remaining rest
  | case6 => cases decoded

theorem wellFormed_programOf {instructions : List Instruction}
    (inside : firstEscape? instructions.length 0 instructions = none)
    (slots : forall instruction, instruction ∈ instructions -> instruction.hasSlot = true) :
    (programOf instructions).WellFormed where
  bound := by
    intro label referred
    refine ⟨label, ?_⟩
    rw [find?_programOf, if_pos]
    exact referred
  targets := by
    intro label target found
    rw [find?_programOf] at found
    split at found
    · rename_i referred
      cases found
      rcases List.mem_filterMap.mp referred with ⟨instruction, member, labelled⟩
      exact (firstEscape?_eq_none_iff ..).mp inside instruction member label labelled
    · contradiction
  slots := fun instruction member => slots instruction (List.mem_toArray.mp member)
  comments := by
    intro comments recorded
    contradiction

theorem wellFormed_decode {bytes : List UInt8} {program : Program}
    (decoded : decode bytes = .ok program) : program.WellFormed := by
  unfold decode at decoded
  split at decoded
  · cases decoded
  · rename_i instructions records
    split at decoded
    · cases decoded
    · rename_i inside
      cases decoded
      exact wellFormed_programOf inside fun _ member => hasSlot_of_decodeFrom records member

end Records

namespace Program

theorem wellFormed_load {format : SourceFormat} {withComments : Bool} {bytes : List UInt8}
    {program : Program} (loaded : load format withComments bytes = .ok program) :
    program.WellFormed := by
  cases format with
  | bytecode => exact Records.wellFormed_decode loaded
  | asm =>
      simp only [load] at loaded
      split at loaded
      · cases loaded
      · exact Listing.wellFormed_read loaded
  | text =>
      simp only [load] at loaded
      split at loaded
      · cases loaded
      · cases loaded
        exact Pane.wellFormed_toProgram _ withComments

/-- Whether a program is made of another one by one pass, or by writing and reading it. -/
inductive Revises (before : Program) : Program -> Prop where
  | collapse : Revises before before.collapseJumps
  /-- The instructions to keep are told by any array, however long. -/
  | compact (live : Array Bool) : Revises before (before.compact live)
  | reorder : Revises before before.reorderBlocks
  | removeUnused : Revises before before.removeUnusedLabels
  | fold {duplicates : Bool} {folded : Program} {needed : Array Bool}
      (found : before.foldConstants? duplicates = some (folded, needed)) : Revises before folded
  | optimize (level : OptimizationLevel) : Revises before (before.optimize level)
  | records {bytes : List UInt8} {after : Program} (written : Records.encode before = .ok bytes)
      (decoded : Records.decode bytes = .ok after) : Revises before after
  | listing (commented : Bool) {after : Program}
      (read : Listing.read (Listing.write before commented).toList = .ok after) :
      Revises before after

theorem WellFormed.revised {before after : Program} (wellFormed : before.WellFormed)
    (revises : Revises before after) : after.WellFormed := by
  cases revises with
  | collapse => exact wellFormed.collapseJumps
  | compact live => exact wellFormed.compact live
  | reorder => exact wellFormed.reorderBlocks
  | removeUnused => exact wellFormed.removeUnusedLabels
  | fold found => exact wellFormed.foldConstants? found
  | optimize level => exact wellFormed.optimize level
  | records written decoded => exact Records.wellFormed_decode decoded
  | listing commented read => exact Listing.wellFormed_read read

/-- What is loaded, from any bytes in any form, is well formed, and any number of revisions in
any order make well-formed programs of well-formed programs.  Folding, the one pass that may
break off, goes through to its end on these. -/
theorem wellFormed_of_load_and_revisions :
    (forall (format : SourceFormat) (withComments : Bool) (bytes : List UInt8)
        (program : Program),
      load format withComments bytes = .ok program -> program.WellFormed) ∧
      (forall before after : Program, before.WellFormed ->
        Relation.ReflTransGen Revises before after -> after.WellFormed) ∧
      forall program : Program, program.WellFormed -> forall duplicates,
        ∃ folded needed, program.foldConstants? duplicates = some (folded, needed) := by
  refine ⟨?_, ?_, fun program wellFormed => wellFormed.targets.exists_foldConstants?⟩
  · intro format withComments bytes program loaded
    exact wellFormed_load loaded
  · intro before after wellFormed revisions
    induction revisions with
    | refl => exact wellFormed
    | tail _ revises inductionHypothesis => exact inductionHypothesis.revised revises

/-- A loop as it is loaded from its records. -/
def loadedLoop : Program :=
  Records.programOf [.push 2, .brz 4, .sel 21, .jmp 0]

/-- The loop without its third instruction, as it comes back from its listing. -/
def shortLoop : Program where
  code := #[.push 2, .brz 0, .jmp 1]
  labels := Table.ofList [(0, 3), (1, 0)]
  comments := some #[[], [], []]

/-- The loop is loaded, an instruction is deleted, the rest is written and read as a listing,
and that is optimised. -/
theorem wellFormed_of_load_and_revisions_loop :
    load .bytecode false
        [2, 0, 0, 7, 4, 0, 0, 14, 21, 0, 0, 9, 0, 0, 0, 255, 255, 255, 255, 255] =
      .ok loadedLoop ∧
      Relation.ReflTransGen Revises loadedLoop (shortLoop.optimize .precise) ∧
      (shortLoop.optimize .precise).WellFormed := by
  have loaded : load .bytecode false
      [2, 0, 0, 7, 4, 0, 0, 14, 21, 0, 0, 9, 0, 0, 0, 255, 255, 255, 255, 255] =
      .ok loadedLoop := rfl
  have read : Listing.read (Listing.write (loadedLoop.compact #[true, true, false, true])
      true).toList = .ok shortLoop := by decide +kernel
  have revisions : Relation.ReflTransGen Revises loadedLoop (shortLoop.optimize .precise) :=
    ((Relation.ReflTransGen.refl.tail (.compact #[true, true, false, true])).tail
      (.listing true read)).tail (.optimize .precise)
  refine ⟨loaded, revisions, ?_⟩
  exact wellFormed_of_load_and_revisions.2.1 _ _
    (wellFormed_of_load_and_revisions.1 _ _ _ _ loaded) revisions

end Program
end HangulPane
