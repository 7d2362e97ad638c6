import HangulPane.Proofs.Listing.Statement

namespace HangulPane
namespace Listing

/-!
The lines of a listing, and the draft that they are read as.

Line by line, reading enters into the draft what was written: the transcript of the
instruction, and the name of its index if some label stands for it.  Below the instructions
stands the name of the end, if that has one, and the empty line after the last line feed.
-/

section Lines

variable (program : Program) (commented : Bool)

/-- The lines of instructions that stand in the program from an index on. -/
def linesFrom (index : Nat) (instructions : List Instruction) : List (List Char) :=
  (instructions.zipIdx index).map fun (instruction, index) =>
    lineText program commented index instruction

/-- What stands below the instructions: the name of the end, if some label stands for it, and
the empty line after the last line feed. -/
def trailer : List (List Char) :=
  if 0 < program.targetCount program.size then [(indexLabel program.size).toList, []] else [[]]

theorem toList_write :
    (write program commented).toList =
      (linesFrom program commented 0 program.code.toList).flatMap (fun text => text ++ ['\n']) ++
        (if 0 < program.targetCount program.size then
          [(indexLabel program.size).toList].flatMap (fun text => text ++ ['\n']) else []) := by
  have instructions : (program.code.toList.zipIdx.map fun (instruction, index) =>
      line program commented index instruction).flatMap String.toList =
        (linesFrom program commented 0 program.code.toList).flatMap
          (fun text => text ++ ['\n']) := by
    rw [linesFrom, List.flatMap_map, List.flatMap_map]
    congr 1
    funext ⟨instruction, index⟩
    exact toList_line program commented index instruction
  rw [write, String.toList_append, String.toList_join, instructions]
  split
  · rw [String.toList_append]
    simp
  · rfl

/-- The lines of a listing, if no comment breaks one. -/
theorem lines_write (oneLine : forall index, index < program.size ->
      '\n' ∉ (program.commentText index).toList) :
    Text.lines (write program commented).toList =
      linesFrom program commented 0 program.code.toList ++ trailer program := by
  have instructions : forall text, text ∈ linesFrom program commented 0 program.code.toList ->
      '\n' ∉ text := by
    intro text member
    rcases List.mem_map.mp member with ⟨⟨instruction, index⟩, present, rfl⟩
    apply not_mem_lineText
    intro _
    apply oneLine
    simpa [Program.size] using List.snd_lt_of_mem_zipIdx present
  have label : forall text, text ∈ [(indexLabel program.size).toList] -> '\n' ∉ text := by
    intro text member
    rw [List.mem_singleton.mp member, toList_indexLabel, List.mem_append, not_or]
    exact ⟨not_mem_indexName (by decide) program.size, by decide⟩
  rw [toList_write, Text.lines_flatMap instructions]
  congr 1
  unfold trailer
  split
  · rw [← List.append_nil (List.flatMap _ _), Text.lines_flatMap label]
    rfl
  · rfl

/-- The names with that of an index, if some label stands for it. -/
def withName (index : Nat) (names : List (String × Nat)) : List (String × Nat) :=
  if 0 < program.targetCount index then (indexName index, index) :: names else names

/-- The draft after the line of one more instruction. -/
def enter (draft : Draft) (instruction : Instruction) : Draft where
  statements := draft.statements.push
    (transcript program commented draft.statements.size instruction)
  names := withName program draft.statements.size draft.names

theorem size_enter (draft : Draft) (instruction : Instruction) :
    (enter program commented draft instruction).statements.size =
      draft.statements.size + 1 :=
  Array.size_push ..

theorem readLine_lineText (draft : Draft) {instruction : Instruction}
    (named : instruction.hasSlot = true) :
    readLine draft (draft.statements.size + 1)
        (Line.ofText (lineText program commented draft.statements.size instruction)) =
      .ok (enter program commented draft instruction) := by
  rw [ofText_lineText]
  simp only [readLine, readStatement_transcript named, enter, withName]
  by_cases counted : 0 < program.targetCount draft.statements.size
  · simp [counted]
  · simp [counted]

theorem readLines_linesFrom {instructions : List Instruction}
    (slots : forall instruction, instruction ∈ instructions -> instruction.hasSlot = true)
    (draft : Draft) (rest : List (List Char)) :
    readLines draft (draft.statements.size + 1)
        (linesFrom program commented draft.statements.size instructions ++ rest) =
      readLines (instructions.foldl (enter program commented) draft)
        (draft.statements.size + instructions.length + 1) rest := by
  induction instructions generalizing draft with
  | nil => rfl
  | cons instruction later inductionHypothesis =>
      have entered := readLine_lineText program commented draft
        (slots instruction List.mem_cons_self)
      have remaining := inductionHypothesis
        (fun other member => slots other (List.mem_cons_of_mem _ member))
        (enter program commented draft instruction)
      rw [size_enter] at remaining
      rw [linesFrom, List.zipIdx_cons, List.map_cons, List.cons_append, readLines]
      simp only [entered]
      rw [← linesFrom, remaining, List.foldl_cons, List.length_cons]
      congr 1
      omega

theorem readLines_trailer {draft : Draft} (complete : draft.statements.size = program.size)
    (number : Nat) :
    readLines draft number (trailer program) =
      .ok { draft with names := withName program program.size draft.names } := by
  have blank : Line.ofText [] = { label := none, words := [], comment := none } := rfl
  unfold trailer withName
  split
  · simp only [readLines, readLine, ofText_indexLabel, blank, String.ofList_toList, complete]
  · simp only [readLines, readLine, blank]

end Lines

section Draft

variable {program : Program} {commented : Bool}

/-- Whether the names are those of the indices below a bound that labels stand for, each with
its index. -/
def Names (program : Program) (bound : Nat) (names : List (String × Nat)) : Prop :=
  forall index, names.lookup (indexName index) =
    if index < bound ∧ 0 < program.targetCount index then some index else none

theorem Names.withName {bound : Nat} {names : List (String × Nat)}
    (own : Names program bound names) :
    Names program (bound + 1) (withName program bound names) := by
  intro index
  unfold Listing.withName
  by_cases last : index = bound
  · subst last
    split
    · rename_i counted
      simp [counted]
    · rename_i uncounted
      simp [own index, uncounted]
  · have other : indexName index ≠ indexName bound := fun same =>
      last (indexName_injective same)
    have below : index < bound + 1 <-> index < bound := by omega
    simp only [below]
    rw [← own index]
    split
    · rw [List.lookup_cons, beq_eq_false_iff_ne.mpr other]
    · rfl

/-- Whether a draft is what the lines of the first instructions of a program hold. -/
structure Transcribed (program : Program) (commented : Bool) (draft : Draft) : Prop where
  statements : forall index, index < draft.statements.size ->
    draft.statements[index]? = program.code[index]?.map (transcript program commented index)
  names : Names program draft.statements.size draft.names

theorem Transcribed.enter {draft : Draft} (own : Transcribed program commented draft)
    {instruction : Instruction}
    (fetched : program.code[draft.statements.size]? = some instruction) :
    Transcribed program commented (enter program commented draft instruction) where
  statements := by
    intro index below
    rw [size_enter, Nat.lt_succ_iff] at below
    rw [Listing.enter, Array.getElem?_push]
    split
    · rename_i last
      rw [last, fetched, Option.map_some]
    · rename_i other
      exact own.statements index (Nat.lt_of_le_of_ne below other)
  names := by
    rw [size_enter]
    exact own.names.withName

theorem Transcribed.foldl {instructions : List Instruction} {draft : Draft}
    (own : Transcribed program commented draft)
    (rest : program.code.toList.drop draft.statements.size = instructions) :
    Transcribed program commented (instructions.foldl (Listing.enter program commented) draft) ∧
      (instructions.foldl (Listing.enter program commented) draft).statements.size =
        draft.statements.size + instructions.length := by
  -- The size of the draft tells which instructions are left, so both change together.
  induction instructions generalizing draft with
  | nil => exact ⟨own, rfl⟩
  | cons instruction later inductionHypothesis =>
      have fetched : program.code[draft.statements.size]? = some instruction := by
        rw [← Array.getElem?_toList, ← List.head?_drop, rest]
        rfl
      have remaining : program.code.toList.drop
          (Listing.enter program commented draft instruction).statements.size = later := by
        rw [size_enter, ← List.tail_drop, rest]
        rfl
      rcases inductionHypothesis (own.enter fetched) remaining with ⟨done, size⟩
      rw [size_enter] at size
      refine ⟨done, ?_⟩
      rw [List.foldl_cons, size, List.length_cons]
      omega

theorem transcribed_nil (program : Program) (commented : Bool) :
    Transcribed program commented { statements := #[], names := [] } where
  statements := by
    intro index below
    contradiction
  names := by
    intro index
    simp

end Draft

/-- The draft of the instructions of a program. -/
def instructionDraft (program : Program) (commented : Bool) : Draft :=
  program.code.toList.foldl (enter program commented) { statements := #[], names := [] }

theorem transcribed_instructionDraft (program : Program) (commented : Bool) :
    Transcribed program commented (instructionDraft program commented) :=
  ((transcribed_nil program commented).foldl rfl).1

theorem size_instructionDraft (program : Program) (commented : Bool) :
    (instructionDraft program commented).statements.size = program.size := by
  have entered := ((transcribed_nil program commented).foldl rfl).2
  simpa [Program.size, instructionDraft] using entered

/-- The draft of the listing of a program. -/
def draftOf (program : Program) (commented : Bool) : Draft where
  statements := (instructionDraft program commented).statements
  names := withName program program.size (instructionDraft program commented).names

section Read

variable {program : Program} (commented : Bool)

/-- The lines of a listing are read as the transcripts of its instructions. -/
theorem readLines_write
    (slots : forall instruction, instruction ∈ program.code -> instruction.hasSlot = true)
    (oneLine : forall index, index < program.size ->
      '\n' ∉ (program.commentText index).toList) :
    readLines { statements := #[], names := [] } 1
        (Text.lines (write program commented).toList) = .ok (draftOf program commented) := by
  rw [lines_write program commented oneLine]
  have instructions := readLines_linesFrom program commented
    (fun instruction member => slots instruction (Array.mem_toList_iff.mp member))
    { statements := #[], names := [] } (trailer program)
  exact instructions.trans
    (readLines_trailer program (size_instructionDraft program commented) _)

variable (program)

theorem statements_draftOf (index : Nat) :
    (draftOf program commented).statements[index]? =
      program.code[index]?.map (transcript program commented index) := by
  rcases Nat.lt_or_ge index program.size with inside | outside
  · apply (transcribed_instructionDraft program commented).statements
    rw [size_instructionDraft]
    exact inside
  · have past : program.code[index]? = none := Array.getElem?_eq_none outside
    rw [past]
    apply Array.getElem?_eq_none
    exact (size_instructionDraft program commented).symm ▸ outside

theorem names_draftOf :
    Names program (program.size + 1) (draftOf program commented).names := by
  have names := (transcribed_instructionDraft program commented).names
  rw [size_instructionDraft] at names
  exact names.withName

end Read

end Listing
end HangulPane
