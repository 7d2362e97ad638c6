import HangulPane.Proofs.Listing.Line

namespace HangulPane
namespace Listing

/-!
The statement of a line.

The name and the operand on a line make up the instruction that was written, except that the
label of a control instruction is still open: what is read in its place is the name of the
index it leads to.  The comment is the text of the instruction's comments again, if no blanks
stand at its ends; blanks there cannot be told from the padding of the columns.
-/

/-- The statement that is read from the line of an instruction. -/
def transcript (program : Program) (commented : Bool) (index : Nat)
    (instruction : Instruction) : Statement where
  line := index + 1
  instruction := instruction.withLabel 0
  destination := instruction.label?.map fun label => indexName (program.target label)
  comment := if commented then commentOf (commentTail program index) else none

theorem takesOperand_opcode (instruction : Instruction) :
    instruction.opcode.takesOperand = (instruction.label?.isSome || instruction.value?.isSome) := by
  cases instruction <;> rfl

theorem value?_of_label? {instruction : Instruction} {label : Nat}
    (labelled : instruction.label? = some label) : instruction.value? = none := by
  cases instruction <;> first | rfl | contradiction

theorem fitsWord_of_value? {instruction : Instruction} {value : Int}
    (valued : instruction.value? = some value) : Decimal.fitsWord value = true := by
  have small : forall byte : UInt8, Decimal.fitsWord byte.toNat = true := by
    intro byte
    have below := byte.toNat_lt
    exact (WordArithmetic.fitsWord_iff _).mpr ⟨by omega, by omega⟩
  cases instruction with
  | push literal =>
      cases valued
      exact WordArithmetic.fitsWord_toInt literal
  | sel slot | mov slot =>
      cases valued
      exact small slot
  | _ => cases valued

/-- The operand on a line is read as the literal or slot, or as the name of the index that a
control instruction leads to. -/
theorem readOperand_operandText? (program : Program) (instruction : Instruction) (line : Nat) :
    readOperand line instruction.opcode
        ((operandText? (instruction.mapLabel program.target)).map String.toList) =
      .ok (Int64.ofInt (instruction.value?.getD 0),
        instruction.label?.map fun label => indexName (program.target label)) := by
  have jumps := instruction.isJump_opcode
  have takes := takesOperand_opcode instruction
  unfold readOperand operandText?
  rw [Instruction.label?_mapLabel, Instruction.value?_mapLabel]
  cases labelled : instruction.label? with
  | some label =>
      rw [labelled] at jumps
      simp [jumps, value?_of_label? labelled]
  | none =>
      cases valued : instruction.value? with
      | some value =>
          rw [labelled] at jumps
          rw [labelled, valued] at takes
          simp [jumps, takes, Decimal.word?_ofInt (fitsWord_of_value? valued)]
      | none =>
          rw [labelled] at jumps
          rw [labelled, valued] at takes
          simp [jumps, takes]

theorem ofParts?_value {instruction : Instruction} (named : instruction.hasSlot = true) :
    Instruction.ofParts? instruction.opcode (Int64.ofInt (instruction.value?.getD 0)) =
      some (instruction.withLabel 0) := by
  have own : forall value, instruction.value? = some value ->
      (Int64.ofInt (instruction.value?.getD 0)).toInt = value := by
    intro value valued
    rw [valued, Option.getD_some]
    exact WordArithmetic.toInt_ofInt_of_fitsWord (fitsWord_of_value? valued)
  rw [Instruction.ofParts?_opcode named own]
  cases labelled : instruction.label? with
  | some label =>
      rw [value?_of_label? labelled]
      rfl
  | none =>
      rw [Instruction.withLabel, Instruction.withLabel,
        Instruction.mapLabel_of_label? (by simp [labelled]),
        Instruction.mapLabel_of_label? (by simp [labelled])]

theorem readStatement_transcript {instruction : Instruction} (named : instruction.hasSlot = true)
    (program : Program) (commented : Bool) (index : Nat) :
    readStatement (index + 1) instruction.opcode.name.toList
        ((operandText? (instruction.mapLabel program.target)).toList.map String.toList)
        (if commented then some (commentTail program index) else none) =
      .ok (transcript program commented index instruction) := by
  have operand : ((operandText? (instruction.mapLabel program.target)).toList.map
      String.toList).head? =
        (operandText? (instruction.mapLabel program.target)).map String.toList := by
    cases operandText? (instruction.mapLabel program.target) <;> rfl
  simp only [readStatement, operationOf?_name, operand, readOperand_operandText?,
    ofParts?_value named, transcript]
  cases commented with
  | false => rfl
  | true => simp

theorem isIndexTag_indexName (index : Nat) : isIndexTag (indexName index).toList = true := by
  have digits : (Decimal.ofNat index).toList.all Char.isDigit = true :=
    List.all_eq_true.mpr fun c member => Decimal.isDigit_of_mem_ofNat member
  rw [toList_indexName, isIndexTag, digits, Bool.and_true, Bool.not_eq_true',
    List.isEmpty_eq_false_iff]
  exact Decimal.toList_ofNat_ne_nil index

section Comment

variable {tag text : List Char} (plain : forall c, c ∈ tag -> Text.isBlank c = false)
include plain

/-- Trimming a tag with spaces and a text behind it leaves the tag, and the text after blanks
if there is any. -/
theorem trim_tagged (some_ : tag ≠ []) (count : Nat) (trimmed : Text.trim text = text) :
    ∃ rest, Text.trim (' ' :: (tag ++ (List.replicate (count + 1) ' ' ++ text))) = tag ++ rest ∧
      (forall c, rest.head? = some c -> Text.isBlank c = true) ∧ Text.trimStart rest = text := by
  rw [Text.trim, Text.trimStart_cons (by decide), Text.trimStart_append some_ plain,
    Text.trimEnd_append, Text.trimEnd_append, Text.trimEnd_spaces, Text.trimEnd_of_trim trimmed,
    Text.trimEnd_of_plain plain]
  by_cases empty : text = []
  · refine ⟨[], by simp [empty], by simp, ?_⟩
    rw [empty]
    rfl
  · refine ⟨List.replicate (count + 1) ' ' ++ text, by simp [empty], ?_, ?_⟩
    · intro c first
      cases first
      decide
    · rw [Text.trimStart_spaces_append, Text.trimStart_of_trim trimmed]

theorem commentOf_tagged (tagged : isIndexTag tag = true) (some_ : tag ≠ []) (count : Nat)
    (trimmed : Text.trim text = text) :
    commentOf (' ' :: (tag ++ (List.replicate (count + 1) ' ' ++ text))) =
      if text.isEmpty then none else some (String.ofList text) := by
  have word : forall c, c ∈ tag -> (!Text.isBlank c) = true := by
    intro c member
    rw [plain c member]
    rfl
  rcases trim_tagged plain some_ count trimmed with ⟨rest, trims, blank, text_⟩
  have first : (tag ++ rest).takeWhile (fun c => !Text.isBlank c) = tag := by
    rw [List.takeWhile_append_of_pos word]
    cases rest with
    | nil => simp
    | cons c rest => simp [blank c rfl]
  have later : (tag ++ rest).dropWhile (fun c => !Text.isBlank c) = rest := by
    rw [List.dropWhile_append_of_pos word]
    cases rest with
    | nil => rfl
    | cons c rest => simp [blank c rfl]
  simp only [commentOf, trims, first, tagged, if_true, later, text_]

end Comment

/-- The comment on a line is the text of the instruction's comments, if that has no blanks at
its ends. -/
theorem intercalate_commentOf {program : Program} {index : Nat}
    (trimmed : Text.trim (program.commentText index).toList =
      (program.commentText index).toList) :
    " / ".intercalate (commentOf (commentTail program index)).toList =
      program.commentText index := by
  have tail : commentTail program index = ' ' :: ((indexName index).toList ++
      (List.replicate (3 - (Decimal.ofNat index).length + 1) ' ' ++
        (program.commentText index).toList)) := by
    simp [commentTail, List.replicate_succ']
  rw [tail, commentOf_tagged (fun _ => isBlank_of_mem_indexName) (isIndexTag_indexName index)
    (toList_indexName_ne_nil index) _ trimmed, String.ofList_toList]
  split
  · rename_i empty
    rw [List.isEmpty_iff, String.toList_eq_nil_iff] at empty
    rw [empty]
    rfl
  · simp

end Listing
end HangulPane
