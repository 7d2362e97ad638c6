import HangulPane.Proofs.Pane.WellFormed
import HangulPane.Proofs.Records.Layout

namespace HangulPane

/-!
A program that records can hold stays so when it is optimised.

A record holds an operand of three bytes.  No pass makes a program longer, and the compaction
at the end of every level leaves no label past the end, so that destinations fit as long as the
program has no more instructions than a record can number.  Literals are copied or come from
folding, which produces only what a record can hold.  A pane spells small literals only, so that
nothing but its length can keep the program of a pane from being stored.
-/

namespace Program

/-- Whether a program is no longer than another one, and pushes only what that one pushes or
what folding may produce. -/
structure Abridges (source program : Program) : Prop where
  size : program.size ≤ source.size
  literals : forall literal, .push literal ∈ program.code ->
    .push literal ∈ source.code ∨ 0 ≤ literal.toInt ∧ literal.toInt ≤ maxLiteral

theorem abridges_self (program : Program) : program.Abridges program :=
  ⟨Nat.le_refl _, fun _ pushed => Or.inl pushed⟩

/-- What folding produces is an admissible literal. -/
theorem literal_of_foldedValue? {operation : Instruction} {left right value : Int64}
    (folded : foldedValue? operation left right = some value) :
    0 ≤ value.toInt ∧ value.toInt ≤ maxLiteral := by
  unfold foldedValue? at folded
  split at folded
  · split at folded
    · rename_i admissible
      cases folded
      exact admissible
    · contradiction
  · contradiction

namespace Abridges

variable {source program : Program} (abridges : source.Abridges program)
include abridges

/-- A selection of the instructions pushes nothing new. -/
theorem select {result : Program} (shorter : result.size ≤ program.size)
    (drawn : forall instruction, instruction ∈ result.code -> instruction ∈ program.code) :
    source.Abridges result where
  size := Nat.le_trans shorter abridges.size
  literals := fun literal pushed => abridges.literals literal (drawn _ pushed)

theorem collapseJumps : source.Abridges program.collapseJumps := by
  apply abridges.select
  · rw [Program.size, code_collapseJumps]
    exact Nat.le_refl _
  · intro instruction member
    rwa [code_collapseJumps] at member

theorem compact (live : Array Bool) : source.Abridges (program.compact live) := by
  apply abridges.select
  · rw [size_compact, survivorsBefore]
    exact Nat.le_trans List.countP_le_length (Nat.le_of_eq List.length_range)
  · intro instruction member
    exact mem_code_of_mem_filterMap member

theorem moveBlocks : source.Abridges program.moveBlocks := by
  induction program using moveBlocks.induct with
  | case1 program none_movable =>
      rw [Program.moveBlocks, none_movable]
      exact abridges
  | case2 program block found inductionHypothesis =>
      rw [Program.moveBlocks, found]
      apply inductionHypothesis
      apply abridges.select
      · exact Nat.le_of_lt (size_relocate_lt program block)
      · intro instruction member
        exact mem_code_of_mem_filterMap member

theorem reorderBlocks : source.Abridges program.reorderBlocks :=
  ⟨abridges.moveBlocks.size, abridges.moveBlocks.literals⟩

/-- An instruction may be replaced by one that pushes nothing new. -/
theorem withCode (index : Nat) {instruction : Instruction}
    (admissible : forall literal, instruction = .push literal ->
      .push literal ∈ source.code ∨ 0 ≤ literal.toInt ∧ literal.toInt ≤ maxLiteral) :
    source.Abridges (program.withCode index instruction) where
  size := by
    rw [size_withCode]
    exact abridges.size
  literals := by
    intro literal pushed
    rcases Array.mem_or_eq_of_mem_setIfInBounds pushed with kept | replaced
    · exact abridges.literals literal kept
    · exact admissible literal replaced.symm

end Abridges

namespace Abridges

variable {source : Program} {folding : Folding} (abridges : source.Abridges folding.program)
include abridges

theorem discard (index : Nat) : source.Abridges (folding.discard index).program :=
  abridges.withCode index fun _ replaced => by cases replaced

/-- The value of an operation may be put in the place of an instruction. -/
theorem replace_folded (index : Nat) {operation : Instruction} {left right value : Int64}
    (folded : foldedValue? operation left right = some value) :
    source.Abridges (folding.replace index (.push value)).program := by
  apply abridges.withCode index
  rintro literal ⟨⟩
  exact Or.inr (literal_of_foldedValue? folded)

theorem folds {context : Array (Option Bool)} {first last : Nat} {after : Folding}
    (folds : folding.Folds context first last after) : source.Abridges after.program := by
  cases folds with
  | @duplicate literal _ push =>
      apply abridges.withCode last
      rintro _ ⟨⟩
      exact abridges.literals literal (Array.mem_of_getElem? push)
  | @operation right _ _ _ _ _ _ _ folded =>
      exact ((abridges.replace_folded last folded).discard right).discard first
  | @jump right _ _ _ _ _ _ _ _ _ _ _ _ folded =>
      -- Moving the label and the comments leaves the instructions alone.
      have replaced := (abridges.replace_folded right folded).discard first
      exact ⟨replaced.size, replaced.literals⟩

end Abridges

namespace Abridges

variable {source program : Program} (abridges : source.Abridges program)
include abridges

theorem foldConstants? {duplicates : Bool} {folded : Program} {needed : Array Bool}
    (found : program.foldConstants? duplicates = some (folded, needed)) :
    source.Abridges folded := by
  obtain ⟨folding, rfl, _, held⟩ := foldConstants?_induction
    (motive := fun folding => source.Abridges folding.program) abridges
    (fun _ _ _ _ before folds => before.folds folds) found
  exact held

theorem foldAndSweep : source.Abridges program.foldAndSweep := by
  unfold Program.foldAndSweep
  split
  · exact abridges
  · rename_i folded needed found
    exact (abridges.foldConstants? found).collapseJumps.compact _

end Abridges

/-- Each level leaves a program that is no longer and pushes nothing that a record cannot hold
unless it was pushed before. -/
theorem abridges_optimize (program : Program) (level : OptimizationLevel) :
    program.Abridges (program.optimize level) := by
  have itself := program.abridges_self
  cases level with
  | plain => exact itself
  | coarse => exact (itself.collapseJumps.compact _).foldAndSweep
  | precise => exact (itself.collapseJumps.compact _).reorderBlocks.foldAndSweep

end Program

/-! ## What a pane spells -/

theorem Cell.constant_mem_strokes (cell : Cell) : cell.constant ∈ strokes := by
  unfold constant
  cases found : strokes[cell.final]? with
  | none => decide
  | some literal => exact List.mem_of_getElem? found

theorem Cell.mem_strokes_of_mem_emission {cell : Cell} {label : Nat} {literal : Int64}
    (member : .push literal ∈ cell.emission label) : literal ∈ strokes := by
  unfold emission at member
  cases spelt : cell.operation with
  | push =>
      simp only [spelt, List.mem_singleton, Instruction.push.injEq] at member
      rw [member]
      exact cell.constant_mem_strokes
  | _ => simp [spelt] at member

namespace Tracing

/-- Whether all literals of the code are constants of final consonants. -/
def PushesStrokes (tracing : Tracing) : Prop :=
  forall literal, .push literal ∈ tracing.code -> literal ∈ Cell.strokes

theorem PushesStrokes.emitAt {tracing : Tracing} (spelt : tracing.PushesStrokes) {pane : Pane}
    (cursor : Cursor)
    (inside : pane.cursorNumber (pane.tracedAt cursor) < tracing.landings.size) :
    (tracing.emitAt pane cursor inside).PushesStrokes := by
  intro literal pushed
  rcases mem_code_emitAt.mp pushed with earlier | emitted
  · exact spelt literal earlier
  · exact Cell.mem_strokes_of_mem_emission emitted

theorem PushesStrokes.trace {pane : Pane} {tracing : Tracing} {cursor : Cursor}
    (spelt : tracing.PushesStrokes) : (Tracing.trace pane tracing cursor).PushesStrokes := by
  fun_induction Tracing.trace pane tracing cursor with
  | case1 tracing cursor missing => exact spelt
  | case2 tracing cursor position found cell traced inside landing known =>
      intro literal pushed
      rcases Array.mem_push.mp pushed with earlier | jump
      · exact spelt literal earlier
      · cases jump
  | case3 tracing cursor position found cell traced inside fresh leaving emitted halts =>
      exact spelt.emitAt { cursor with position } inside
  | case4 tracing cursor position found cell traced inside fresh leaving emitted running _
      inductionHypothesis =>
      exact inductionHypothesis (spelt.emitAt { cursor with position } inside)
  | case5 tracing cursor position found cell traced outside => exact spelt

theorem PushesStrokes.drain {pane : Pane} {tracing : Tracing} (spelt : tracing.PushesStrokes) :
    (Tracing.drain pane tracing).PushesStrokes := by
  fun_induction Tracing.drain pane tracing with
  | case1 tracing queued => exact spelt
  | case2 tracing path later queued inductionHypothesis =>
      have takenUp : (tracing.takeUp path later).PushesStrokes := spelt
      exact inductionHypothesis takenUp.trace

end Tracing

theorem Pane.mem_strokes_of_mem_toProgram {pane : Pane} {withComments : Bool} {literal : Int64}
    (pushed : .push literal ∈ (pane.toProgram withComments).code) : literal ∈ Cell.strokes := by
  have started : (Tracing.start pane).PushesStrokes := by
    intro other member
    simp [Tracing.start] at member
  unfold toProgram at pushed
  dsimp only at pushed
  split at pushed
  · exact started literal pushed
  · exact started.trace.drain literal pushed

namespace Records

variable {program : Program}

/-- A record can hold an instruction if its destination and its literal are small; slots always
are. -/
theorem fits_of_small {instruction : Instruction}
    (targets : forall label, instruction.label? = some label -> program.target label ≤ 0xFFFFFF)
    (literals : forall literal, instruction = .push literal ->
      0 ≤ literal.toInt ∧ literal.toInt ≤ maxOperand) :
    Fits (instruction.mapLabel program.target) := by
  cases instruction with
  | brz label | brPop1 label | brPop2 label | jmp label =>
      have small := targets label rfl
      have whole : (Int64.ofNat (program.target label)).toInt = program.target label :=
        Int64.toInt_ofNat_of_lt (by omega)
      simp only [Fits, linkedOperand, Instruction.mapLabel, Instruction.label?, whole, maxOperand]
      omega
  | push literal => exact literals literal rfl
  | sel slot | mov slot =>
      have byte := slot.toNat_lt
      simp only [Fits, linkedOperand, Instruction.mapLabel, Instruction.label?,
        Instruction.value?, Option.getD_some, maxOperand]
      omega
  | _ =>
      change (0 : Int) ≤ 0 ∧ (0 : Int) ≤ maxOperand
      decide

theorem exists_encode_iff :
    (∃ bytes, encode program = .ok bytes) <->
      forall instruction, instruction ∈ program.code ->
        Fits (instruction.mapLabel program.target) := by
  simp only [encode_eq_ok_iff, exists_and_left, exists_eq, and_true, Program.linked,
    Array.toList_map, List.forall_mem_map, Array.mem_toList_iff]

/-- A program can be stored if its destinations and its literals are small. -/
theorem exists_encode_of_small (targets : forall label, program.target label ≤ 0xFFFFFF)
    (literals : forall literal, .push literal ∈ program.code ->
      0 ≤ literal.toInt ∧ literal.toInt ≤ maxOperand) :
    ∃ bytes, encode program = .ok bytes := by
  apply exists_encode_iff.mpr
  intro instruction member
  apply fits_of_small
  · exact fun label _ => targets label
  · rintro literal rfl
    exact literals literal member

theorem literal_of_encode {bytes : List UInt8} (written : encode program = .ok bytes)
    {literal : Int64} (pushed : .push literal ∈ program.code) :
    0 ≤ literal.toInt ∧ literal.toInt ≤ maxOperand :=
  exists_encode_iff.mp ⟨bytes, written⟩ (.push literal) pushed

/-- What can be stored and is not too long can be stored at every level. -/
theorem exists_encode_optimize (level : OptimizationLevel) (short : program.size ≤ 0xFFFFFF)
    (encodable : ∃ bytes, encode program = .ok bytes) :
    ∃ bytes, encode (program.optimize level) = .ok bytes := by
  have abridges := program.abridges_optimize level
  have literals : forall literal, .push literal ∈ (program.optimize level).code ->
      0 ≤ literal.toInt ∧ literal.toInt ≤ maxOperand := by
    intro literal pushed
    rcases encodable with ⟨bytes, written⟩
    rcases abridges.literals literal pushed with kept | folded
    · exact literal_of_encode written kept
    · exact folded
  have size := Nat.le_trans abridges.size short
  cases level with
  | plain => exact encodable
  | coarse =>
      have inside : (program.optimize .coarse).LabelsInside :=
        (Program.labelsInside_compact _ _).foldAndSweep
      exact exists_encode_of_small (fun label => Nat.le_trans (inside.target_le label) size)
        literals
  | precise =>
      have inside : (program.optimize .precise).LabelsInside :=
        (Program.labelsInside_compact _ _).reorderBlocks.foldAndSweep
      exact exists_encode_of_small (fun label => Nat.le_trans (inside.target_le label) size)
        literals

/-- The program of a pane can be stored unless it is too long. -/
theorem exists_encode_toProgram {pane : Pane} {withComments : Bool}
    (short : (pane.toProgram withComments).size ≤ 0xFFFFFF) :
    ∃ bytes, encode (pane.toProgram withComments) = .ok bytes := by
  apply exists_encode_of_small
  · intro label
    exact Nat.le_trans ((pane.wellFormed_toProgram withComments).target_le label) short
  · intro literal pushed
    have small : Cell.strokes.all fun literal =>
        0 ≤ literal.toInt ∧ literal.toInt ≤ maxOperand := by decide
    have constant := Pane.mem_strokes_of_mem_toProgram pushed
    exact of_decide_eq_true (List.all_eq_true.mp small literal constant)

/-- Each level keeps a program that is not too long storable and pushes only literals of the
program or ones that a record can hold; in particular the program of every pane can be stored at
each level unless it is too long. -/
theorem optimize_keeps_encodable :
    (forall (program : Program) (level : OptimizationLevel) (bytes : List UInt8),
        program.size ≤ 0xFFFFFF -> encode program = .ok bytes ->
        ∃ optimized, encode (program.optimize level) = .ok optimized) ∧
      (forall (program : Program) (level : OptimizationLevel) (literal : Int64),
        .push literal ∈ (program.optimize level).code ->
        .push literal ∈ program.code ∨ 0 ≤ literal.toInt ∧ literal.toInt ≤ 0xFFFFFF) ∧
      forall (text : List Char) (withComments : Bool) (level : OptimizationLevel),
        ((Pane.ofText text).toProgram withComments).size ≤ 0xFFFFFF ->
        ∃ bytes, encode (((Pane.ofText text).toProgram withComments).optimize level) =
          .ok bytes := by
  refine ⟨?_, ?_, ?_⟩
  · intro program level bytes short written
    exact exists_encode_optimize level short ⟨bytes, written⟩
  · intro program level literal pushed
    exact (program.abridges_optimize level).literals literal pushed
  · intro text withComments level short
    exact exists_encode_optimize level short (exists_encode_toProgram short)

/-- A sum of two literals. -/
def literalSum : Program where
  code := #[.push 2, .push 3, .add, .halt]
  labels := Table.empty
  comments := none

/-- The sum can be stored as it is and at the other levels, and so can the program of a pane. -/
theorem optimize_keeps_encodable_sum :
    encode literalSum = .ok [2, 0, 0, 7, 3, 0, 0, 7, 0, 0, 0, 3, 0, 0, 0, 18, 255, 255, 255, 255] ∧
      (∃ optimized, encode (literalSum.optimize .coarse) = .ok optimized) ∧
      (∃ optimized, encode (literalSum.optimize .precise) = .ok optimized) ∧
      (.push 3 ∈ literalSum.code ∨ 0 ≤ (3 : Int64).toInt ∧ (3 : Int64).toInt ≤ 0xFFFFFF) ∧
      ∃ bytes,
        encode (((Pane.ofText ['희']).toProgram false).optimize .precise) = .ok bytes := by
  have written : encode literalSum =
      .ok [2, 0, 0, 7, 3, 0, 0, 7, 0, 0, 0, 3, 0, 0, 0, 18, 255, 255, 255, 255] := rfl
  have pushed : (literalSum.optimize .plain).code[1]? = some (.push 3) := rfl
  have short : ((Pane.ofText ['희']).toProgram false).size ≤ 0xFFFFFF := by
    -- The only cell halts, so that one path is traced and none is left.
    change (Tracing.drain _ (Tracing.trace _ _ _)).code.size ≤ _
    rw [Tracing.trace, Tracing.drain]
    decide
  rcases optimize_keeps_encodable with ⟨stored, literals, panes⟩
  exact ⟨written, stored literalSum .coarse _ (by decide) written,
    stored literalSum .precise _ (by decide) written,
    literals literalSum .plain 3 (Array.mem_of_getElem? pushed), panes _ false .precise short⟩

end Records
end HangulPane
