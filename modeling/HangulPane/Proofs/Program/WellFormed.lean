import HangulPane.Program.Optimize
import HangulPane.Proofs.Program.Agreement
import HangulPane.Proofs.Program.Blocks
import HangulPane.Proofs.Program.Compact
import HangulPane.Proofs.Program.Fold

namespace HangulPane
namespace Program

/-!
Well-formed programs, and the passes that keep them so.

The passes change labels in three ways: they give one label a new index, they enter all labels
that are still used anew, or they send all of them through one map of indices.  Each time the
new index is at most the new size, since it counts or numbers instructions that are still
there.  No pass adds a label to the code, and comments are gathered along with the code, so
there is always one entry for each instruction.
-/

/-- Whether every label that is referred to is bound, no label stands for an index past the
end, every storage that is named exists, and each instruction has its comments if comments
were recorded at all. -/
structure WellFormed (program : Program) : Prop where
  bound : forall label, label ∈ program.referredLabels ->
    ∃ target, program.labels.find? label = some target
  targets : program.LabelsInside
  slots : forall instruction, instruction ∈ program.code -> instruction.hasSlot = true
  comments : forall comments, program.comments = some comments -> comments.size = program.size

namespace WellFormed

variable {program : Program} (wellFormed : program.WellFormed)
include wellFormed

theorem target_le (label : Nat) : program.target label ≤ program.size :=
  wellFormed.targets.target_le label

theorem insert (label : Nat) {index : Nat} (inside : index ≤ program.size) :
    { program with labels := program.labels.insert label index }.WellFormed where
  bound := by
    intro other referred
    rw [Table.find?_insert]
    split
    · exact ⟨index, rfl⟩
    · exact wellFormed.bound other referred
  targets := by
    intro other target found
    rw [Table.find?_insert] at found
    split at found
    · cases found
      exact inside
    · exact wellFormed.targets other target found
  slots := wellFormed.slots
  comments := wellFormed.comments

theorem collapseLabel (label : Nat) : (program.collapseLabel label).WellFormed := by
  unfold Program.collapseLabel
  dsimp only
  split
  · rename_i next found
    split
    · exact wellFormed
    · exact wellFormed.insert label (wellFormed.target_le next)
  · exact wellFormed

theorem collapseJumps : program.collapseJumps.WellFormed := by
  unfold Program.collapseJumps
  generalize program.labels.keys = labels
  induction labels generalizing program with
  | nil => exact wellFormed
  | cons label later inductionHypothesis =>
      exact inductionHypothesis (wellFormed.collapseLabel label)

end WellFormed

theorem survivorsBefore_le (live : Array Bool) {index bound : Nat} (least : index ≤ bound) :
    survivorsBefore live index ≤ survivorsBefore live bound :=
  (List.range_sublist.mpr least).countP_le

theorem Block.newIndex_le {size : Nat} (block : Block size) (index : Nat) :
    block.newIndex index ≤ block.order.length := by
  unfold newIndex
  split
  · exact List.idxOf_le_length
  · split
    · exact List.idxOf_le_length
    · exact Nat.le_refl _

/-! The labels of the programs that the passes make. -/

theorem labelsInside_compact (program : Program) (live : Array Bool) :
    (program.compact live).LabelsInside := by
  intro label target found
  rw [find?_compact] at found
  split at found
  · cases found
    rw [size_compact]
    exact survivorsBefore_le live (Nat.min_le_right ..)
  · cases found

theorem labelsInside_relocate (program : Program) (block : Block program.size) :
    (program.relocate block).LabelsInside := by
  intro label target found
  rw [Program.relocate, Table.find?_mapValues, Option.map_eq_some_iff] at found
  rcases found with ⟨before, _, rfl⟩
  rw [size_relocate, ← block.length_order]
  exact block.newIndex_le before

namespace LabelsInside

variable {program : Program} (inside : program.LabelsInside)
include inside

theorem moveBlocks : program.moveBlocks.LabelsInside := by
  induction program using moveBlocks.induct with
  | case1 program none_movable =>
      rw [Program.moveBlocks, none_movable]
      exact inside
  | case2 program block found inductionHypothesis =>
      rw [Program.moveBlocks, found]
      exact inductionHypothesis (program.labelsInside_relocate block)

theorem removeUnusedLabels : program.removeUnusedLabels.LabelsInside := by
  intro label target found
  rw [← Table.mem_entries_iff] at found
  exact inside label target ((Table.mem_entries_iff ..).mp (List.mem_filter.mp found).1)

theorem reorderBlocks : program.reorderBlocks.LabelsInside :=
  inside.moveBlocks.removeUnusedLabels

theorem foldAndSweep : program.foldAndSweep.LabelsInside := by
  unfold Program.foldAndSweep
  split
  · exact inside
  · exact labelsInside_compact _ _

end LabelsInside

theorem length_gatherComments (program : Program) (live : Array Bool) (carried : List String)
    (indices : List Nat) :
    (gatherComments program live carried indices).length =
      indices.countP (isAlive live) := by
  induction indices generalizing carried with
  | nil => rfl
  | cons index later inductionHypothesis =>
      rw [gatherComments, List.countP_cons]
      split
      · rw [List.length_cons, inductionHypothesis]
      · rw [inductionHypothesis, Nat.add_zero]

theorem mem_code_of_mem_filterMap {program : Program} {indices : List Nat}
    {instruction : Instruction}
    (member : instruction ∈ (indices.filterMap fun index => program.code[index]?).toArray) :
    instruction ∈ program.code := by
  rcases List.mem_filterMap.mp (List.mem_toArray.mp member) with ⟨index, _, fetched⟩
  exact Array.mem_of_getElem? fetched

namespace WellFormed

variable {program : Program} (wellFormed : program.WellFormed)
include wellFormed

theorem compact (live : Array Bool) : (program.compact live).WellFormed where
  bound := by
    intro label referred
    refine ⟨program.compactedTarget live label, ?_⟩
    rw [find?_compact, if_pos referred]
  targets := program.labelsInside_compact live
  slots := fun instruction member =>
    wellFormed.slots instruction (mem_code_of_mem_filterMap member)
  comments := by
    intro comments recorded
    rcases Option.map_eq_some_iff.mp recorded with ⟨_, _, rfl⟩
    rw [List.size_toArray, length_gatherComments, size_compact]
    rfl

theorem relocate (block : Block program.size) : (program.relocate block).WellFormed where
  bound := by
    intro label referred
    rcases mem_referredLabels.mp referred with ⟨instruction, member, labelled⟩
    have kept : instruction ∈ program.code := mem_code_of_mem_filterMap member
    rcases wellFormed.bound label (mem_referredLabels.mpr ⟨instruction, kept, labelled⟩) with
      ⟨target, found⟩
    refine ⟨block.newIndex target, ?_⟩
    rw [Program.relocate, Table.find?_mapValues, found]
    rfl
  targets := program.labelsInside_relocate block
  slots := fun instruction member =>
    wellFormed.slots instruction (mem_code_of_mem_filterMap member)
  comments := by
    intro comments recorded
    rcases Option.map_eq_some_iff.mp recorded with ⟨_, _, rfl⟩
    rw [List.size_toArray, List.length_map, size_relocate, block.length_order]

theorem moveBlocks : program.moveBlocks.WellFormed := by
  induction program using moveBlocks.induct with
  | case1 program none_movable =>
      rw [Program.moveBlocks, none_movable]
      exact wellFormed
  | case2 program block found inductionHypothesis =>
      rw [Program.moveBlocks, found]
      exact inductionHypothesis (wellFormed.relocate block)

theorem removeUnusedLabels : program.removeUnusedLabels.WellFormed where
  bound := by
    intro label referred
    rcases wellFormed.bound label referred with ⟨target, found⟩
    refine ⟨target, ?_⟩
    rw [Program.removeUnusedLabels, Table.find?_filterKeys, found]
    exact List.contains_iff_mem.mpr referred
  targets := wellFormed.targets.removeUnusedLabels
  slots := wellFormed.slots
  comments := wellFormed.comments

theorem reorderBlocks : program.reorderBlocks.WellFormed :=
  wellFormed.moveBlocks.removeUnusedLabels

theorem withCode (index : Nat) {instruction : Instruction}
    (unlabelled : instruction.label? = none) (named : instruction.hasSlot = true) :
    (program.withCode index instruction).WellFormed where
  bound := by
    intro label referred
    rcases mem_referredLabels.mp referred with ⟨other, member, labelled⟩
    rcases Array.mem_or_eq_of_mem_setIfInBounds member with kept | rfl
    · exact wellFormed.bound label (mem_referredLabels.mpr ⟨other, kept, labelled⟩)
    · rw [unlabelled] at labelled
      contradiction
  targets := by
    intro label target found
    rw [size_withCode]
    exact wellFormed.targets label target found
  slots := by
    intro other member
    rcases Array.mem_or_eq_of_mem_setIfInBounds member with kept | rfl
    · exact wellFormed.slots other kept
    · exact named
  comments := by
    rw [size_withCode]
    exact wellFormed.comments

end WellFormed

namespace WellFormed

variable {folding : Folding} (wellFormed : folding.program.WellFormed)
include wellFormed

theorem replace_push (index : Nat) (literal : Int64) :
    (folding.replace index (.push literal)).program.WellFormed :=
  wellFormed.withCode index rfl rfl

theorem discard (index : Nat) : (folding.discard index).program.WellFormed :=
  wellFormed.withCode index rfl rfl

theorem advanceLabel (label : Nat) {target : Nat} (inside : target + 1 ≤ folding.program.size) :
    (folding.advanceLabel label target).program.WellFormed :=
  wellFormed.insert label inside

theorem moveComments (source destination : Nat) :
    (folding.moveComments source destination).program.WellFormed where
  bound := wellFormed.bound
  targets := wellFormed.targets
  slots := wellFormed.slots
  comments := by
    intro comments recorded
    rcases Option.map_eq_some_iff.mp recorded with ⟨before, recordedBefore, rfl⟩
    rw [Array.size_modify]
    exact wellFormed.comments before recordedBefore

theorem folds {context : Array (Option Bool)} {first last : Nat} {after : Folding}
    (folds : folding.Folds context first last after) : after.program.WellFormed := by
  cases folds with
  | @duplicate literal => exact wellFormed.replace_push last literal
  | @operation right _ _ value =>
      exact ((wellFormed.replace_push last value).discard right).discard first
  | @jump right label _ _ value _ _ _ _ _ inside =>
      -- The operation that the label moves past is not the last instruction.
      apply moveComments
      apply advanceLabel
      · exact (wellFormed.replace_push right value).discard first
      · simpa [Folding.discard, Folding.replace, size] using Nat.le_of_lt inside

end WellFormed

namespace WellFormed

variable {program : Program} (wellFormed : program.WellFormed)
include wellFormed

theorem foldConstants? {duplicates : Bool} {folded : Program} {needed : Array Bool}
    (found : program.foldConstants? duplicates = some (folded, needed)) : folded.WellFormed := by
  obtain ⟨folding, rfl, _, held⟩ := foldConstants?_induction
    (motive := fun folding => folding.program.WellFormed) wellFormed
    (fun _ _ _ _ before folds => before.folds folds) found
  exact held

theorem foldAndSweep : program.foldAndSweep.WellFormed := by
  unfold Program.foldAndSweep
  split
  · exact wellFormed
  · rename_i folded needed found
    exact (wellFormed.foldConstants? found).collapseJumps.compact _

theorem optimize (level : OptimizationLevel) : (program.optimize level).WellFormed := by
  cases level with
  | plain => exact wellFormed
  | coarse => exact (wellFormed.collapseJumps.compact _).foldAndSweep
  | precise => exact (wellFormed.collapseJumps.compact _).reorderBlocks.foldAndSweep

end WellFormed

end Program
end HangulPane
