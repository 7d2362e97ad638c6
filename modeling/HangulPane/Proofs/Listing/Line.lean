import HangulPane.Listing.Reader
import HangulPane.Listing.Writer
import HangulPane.Proofs.Program.Agreement
import HangulPane.Proofs.Text.Cutting
import HangulPane.Proofs.Text.Decimal

namespace HangulPane

/-!
One line of a listing, written and read.

The columns of a line hold marks, which are letters, digits and minus signs, and spaces
between them.  No mark is a blank or a separator, so the line is cut where its columns meet,
however wide they are: the label stands before the colon, the name and the operand are the
words after it, and all that follows the semicolon is the comment, of which the index in
front is taken away.
-/

namespace Text

@[simp]
theorem toList_spaces (count : Nat) : (spaces count).toList = List.replicate count ' ' :=
  String.toList_ofList

@[simp]
theorem toList_padRight (width : Nat) (text : String) :
    (padRight width text).toList =
      text.toList ++ List.replicate (width - text.length) ' ' := by
  rw [padRight, String.toList_append, toList_spaces]

end Text

namespace Listing

/-- The characters of which names and numerals consist. -/
def isMark (c : Char) : Bool :=
  c.isAlphanum || c == '-'

theorem isBlank_of_isMark {c : Char} (mark : isMark c = true) : Text.isBlank c = false := by
  unfold isMark Char.isAlphanum Char.isAlpha Char.isUpper Char.isLower Char.isDigit at mark
  simp only [Bool.or_eq_true, Bool.and_eq_true, decide_eq_true_eq, ge_iff_le,
    UInt32.le_iff_toNat_le, beq_iff_eq] at mark
  rcases mark with code | rfl
  · change ((65 ≤ c.toNat ∧ c.toNat ≤ 90) ∨ (97 ≤ c.toNat ∧ c.toNat ≤ 122)) ∨
      (48 ≤ c.toNat ∧ c.toNat ≤ 57) at code
    simp only [Text.isBlank, Bool.or_eq_false_iff, Bool.and_eq_false_iff,
      decide_eq_false_iff_not, beq_eq_false_iff_ne]
    omega
  · decide

theorem isMark_of_isDigit {c : Char} (digit : c.isDigit = true) : isMark c = true := by
  simp [isMark, Char.isAlphanum, digit]

theorem isMark_of_mem_name {operation : Opcode} {c : Char} (member : c ∈ operation.name.toList) :
    isMark c = true := by
  have marks : operation.name.toList.all isMark = true := by
    cases operation <;> decide
  exact List.all_eq_true.mp marks c member

theorem operationOf?_name (operation : Opcode) :
    operationOf? operation.name.toList = some operation := by
  cases operation <;> rfl

/-- The name by which a listing calls an index. -/
def indexName (index : Nat) : String :=
  "L" ++ Decimal.ofNat index

theorem toList_indexName (index : Nat) :
    (indexName index).toList = 'L' :: (Decimal.ofNat index).toList := by
  rw [indexName, String.toList_append]
  rfl

theorem indexName_injective {left right : Nat} (same : indexName left = indexName right) :
    left = right := by
  have lists := congrArg String.toList same
  rw [toList_indexName, toList_indexName] at lists
  exact Decimal.ofNat_injective (String.toList_inj.mp (List.tail_eq_of_cons_eq lists))

theorem isMark_of_mem_indexName {index : Nat} {c : Char}
    (member : c ∈ (indexName index).toList) : isMark c = true := by
  rw [toList_indexName] at member
  rcases List.mem_cons.mp member with rfl | digit
  · decide
  · exact isMark_of_isDigit (Decimal.isDigit_of_mem_ofNat digit)

theorem toList_indexName_ne_nil (index : Nat) : (indexName index).toList ≠ [] := by
  rw [toList_indexName]
  exact List.cons_ne_nil _ _

theorem not_mem_indexName {separator : Char} (unmarked : isMark separator = false)
    (index : Nat) : separator ∉ (indexName index).toList := by
  intro member
  have marked := isMark_of_mem_indexName member
  rw [unmarked] at marked
  contradiction

theorem isBlank_of_mem_indexName {index : Nat} {c : Char}
    (member : c ∈ (indexName index).toList) : Text.isBlank c = false :=
  isBlank_of_isMark (isMark_of_mem_indexName member)

theorem toList_indexLabel (index : Nat) :
    (indexLabel index).toList = (indexName index).toList ++ [':'] :=
  String.toList_append

theorem isMark_of_mem_ofInt {value : Int} {c : Char}
    (member : c ∈ (Decimal.ofInt value).toList) : isMark c = true := by
  rcases Decimal.eq_minus_or_isDigit_of_mem_ofInt member with rfl | digit
  · decide
  · exact isMark_of_isDigit digit

/-- The operand of an instruction of linked code as a listing writes it. -/
def operandText? (instruction : Instruction) : Option String :=
  match instruction.label?, instruction.value? with
  | some target, _ => some (indexName target)
  | none, some value => some (Decimal.ofInt value)
  | none, none => none

theorem isMark_of_mem_operandText? {instruction : Instruction} {text : String}
    (written : operandText? instruction = some text) {c : Char} (member : c ∈ text.toList) :
    isMark c = true := by
  unfold operandText? at written
  split at written
  · cases written
    exact isMark_of_mem_indexName member
  · cases written
    exact isMark_of_mem_ofInt member
  · cases written

theorem operandText?_ne_nil {instruction : Instruction} {text : String}
    (written : operandText? instruction = some text) : text.toList ≠ [] := by
  unfold operandText? at written
  split at written
  · cases written
    rw [toList_indexName]
    exact List.cons_ne_nil _ _
  · cases written
    intro missing
    have read := Decimal.int?_ofInt ‹Int›
    rw [missing] at read
    cases read
  · cases written

/-- The name of an instruction of linked code and its operand, as they stand on a line. -/
def linkedColumn (instruction : Instruction) : String :=
  match instruction.label?, instruction.value? with
  | some target, _ =>
      paddedName instruction.opcode ++ " L" ++ Text.padRight 3 (Decimal.ofNat target)
  | none, some value =>
      paddedName instruction.opcode ++ " " ++ Text.padRight 4 (Decimal.ofInt value)
  | none, none => paddedName instruction.opcode

theorem codeColumn_eq (program : Program) (instruction : Instruction) :
    codeColumn program instruction = linkedColumn (instruction.mapLabel program.target) := by
  cases instruction <;> rfl

/-- The characters of an operand and the spaces around it; nothing if there is no operand. -/
def operandColumn (operand : Option String) (fill : Nat) : List Char :=
  match operand with
  | some text => ' ' :: text.toList ++ List.replicate fill ' '
  | none => []

/-- The name stands first, and what follows it are spaces and the operand. -/
theorem toList_linkedColumn (instruction : Instruction) :
    ∃ gap fill, (linkedColumn instruction).toList = instruction.opcode.name.toList ++
      (List.replicate gap ' ' ++ operandColumn (operandText? instruction) fill) := by
  refine ⟨4 - instruction.opcode.name.length, ?_⟩
  unfold linkedColumn operandText? paddedName
  split
  · rename_i target _
    refine ⟨3 - (Decimal.ofNat target).length, ?_⟩
    simp only [String.toList_append, Text.toList_padRight, operandColumn, toList_indexName]
    simp
  · rename_i value _ _
    refine ⟨4 - (Decimal.ofInt value).length, ?_⟩
    simp only [String.toList_append, Text.toList_padRight, operandColumn]
    simp
  · exact ⟨0, by simp [operandColumn]⟩

theorem not_mem_linkedColumn {separator : Char} (unmarked : isMark separator = false)
    (solid : separator ≠ ' ') (instruction : Instruction) :
    separator ∉ (linkedColumn instruction).toList := by
  rcases toList_linkedColumn instruction with ⟨gap, fill, columns⟩
  rw [columns]
  intro member
  have marked : isMark separator = true := by
    cases operand : operandText? instruction with
    | none =>
        simp only [operand, operandColumn, List.append_nil, List.mem_append,
          List.mem_replicate] at member
        rcases member with name | ⟨_, space⟩
        · exact isMark_of_mem_name name
        · exact absurd space solid
    | some text =>
        simp only [operand, operandColumn, List.mem_append, List.mem_cons,
          List.mem_replicate] at member
        rcases member with name | ⟨_, space⟩ | (space | own) | ⟨_, space⟩
        · exact isMark_of_mem_name name
        · exact absurd space solid
        · exact absurd space solid
        · exact isMark_of_mem_operandText? operand own
        · exact absurd space solid
  rw [unmarked] at marked
  contradiction

theorem isBlank_head_spaces {count : Nat} {rest : List Char}
    (ends : forall c, rest.head? = some c -> Text.isBlank c = true) :
    forall c, (List.replicate count ' ' ++ rest).head? = some c -> Text.isBlank c = true := by
  intro c first
  cases count with
  | zero => exact ends c first
  | succ count =>
      cases first
      decide

theorem words_operandColumn (instruction : Instruction) (fill after : Nat) :
    Text.words (operandColumn (operandText? instruction) fill ++ List.replicate after ' ') =
      (operandText? instruction).toList.map String.toList := by
  cases operand : operandText? instruction with
  | none => exact Text.words_spaces after
  | some text =>
      simp only [operandColumn, List.cons_append, List.append_assoc]
      rw [Text.words_cons_of_isBlank (by decide), Text.words_append
        (operandText?_ne_nil operand)
        (fun c member => isBlank_of_isMark (isMark_of_mem_operandText? operand member))]
      · simp
      · apply isBlank_head_spaces
        intro c first
        cases after <;> cases first
        decide

/-- The words of the code column are the name and the operand. -/
theorem words_linkedColumn (instruction : Instruction) (before after : Nat) :
    Text.words (List.replicate before ' ' ++
        ((linkedColumn instruction).toList ++ List.replicate after ' ')) =
      instruction.opcode.name.toList :: (operandText? instruction).toList.map String.toList := by
  rcases toList_linkedColumn instruction with ⟨gap, fill, columns⟩
  have named : instruction.opcode.name.toList ≠ [] := by
    cases instruction.opcode <;> decide
  rw [Text.words_spaces_append, columns, List.append_assoc, List.append_assoc,
    Text.words_append named (fun c member => isBlank_of_isMark (isMark_of_mem_name member)),
    Text.words_spaces_append, words_operandColumn]
  apply isBlank_head_spaces
  intro c first
  cases operand : operandText? instruction with
  | none =>
      rw [operand] at first
      cases after <;> cases first
      decide
  | some text =>
      rw [operand] at first
      cases first
      decide

/-- What follows the semicolon on a line. -/
def commentTail (program : Program) (index : Nat) : List Char :=
  ' ' :: ((indexName index).toList ++ (List.replicate (3 - (Decimal.ofNat index).length) ' ' ++
    ' ' :: (program.commentText index).toList))

theorem toList_commentColumn (program : Program) (index : Nat) :
    (commentColumn program index).toList = ' ' :: ';' :: commentTail program index := by
  simp only [commentColumn, commentTail, String.toList_append, Text.toList_padRight,
    toList_indexName]
  simp

/-- The label column, the code column and the spaces behind them. -/
def mainText (program : Program) (index : Nat) (instruction : Instruction) (after : Nat) :
    List Char :=
  (labelColumn program index).toList ++
    ((linkedColumn (instruction.mapLabel program.target)).toList ++ List.replicate after ' ')

/-- A line without its line feed. -/
def lineText (program : Program) (commented : Bool) (index : Nat) (instruction : Instruction) :
    List Char :=
  let fill := 10 - (linkedColumn (instruction.mapLabel program.target)).length
  if commented then
    mainText program index instruction (fill + 1) ++ ';' :: commentTail program index
  else mainText program index instruction fill

theorem toList_line (program : Program) (commented : Bool) (index : Nat)
    (instruction : Instruction) :
    (line program commented index instruction).toList =
      lineText program commented index instruction ++ ['\n'] := by
  cases commented with
  | false =>
      simp only [line, lineText, mainText, codeColumn_eq, String.toList_append,
        Text.toList_padRight]
      simp
  | true =>
      simp only [line, lineText, mainText, codeColumn_eq, String.toList_append,
        Text.toList_padRight, toList_commentColumn, if_true, List.replicate_succ']
      simp

/-- The label column: the name of the index and a colon, if some label stands for it. -/
theorem toList_labelColumn (program : Program) (index : Nat) :
    ∃ fill, (labelColumn program index).toList =
      if 0 < program.targetCount index then
        (indexName index).toList ++ ':' :: List.replicate fill ' '
      else List.replicate fill ' ' := by
  unfold labelColumn
  split
  · refine ⟨8 - (indexLabel index).length, ?_⟩
    rw [Text.toList_padRight, toList_indexLabel, List.append_assoc]
    rfl
  · exact ⟨8, Text.toList_spaces 8⟩

theorem not_mem_labelColumn {separator : Char} (unmarked : isMark separator = false)
    (solid : separator ≠ ' ') (uncut : separator ≠ ':') (program : Program) (index : Nat) :
    separator ∉ (labelColumn program index).toList := by
  rcases toList_labelColumn program index with ⟨fill, column⟩
  rw [column]
  intro member
  split at member
  · simp only [List.mem_append, List.mem_cons, List.mem_replicate] at member
    rcases member with name | colon | ⟨_, space⟩
    · exact not_mem_indexName unmarked index name
    · exact uncut colon
    · exact solid space
  · exact solid (List.mem_replicate.mp member).2

theorem not_mem_mainText {separator : Char} (unmarked : isMark separator = false)
    (solid : separator ≠ ' ') (uncut : separator ≠ ':') (program : Program) (index : Nat)
    (instruction : Instruction) (after : Nat) :
    separator ∉ mainText program index instruction after := by
  intro member
  simp only [mainText, List.mem_append, List.mem_replicate] at member
  rcases member with label | code | ⟨_, space⟩
  · exact not_mem_labelColumn unmarked solid uncut program index label
  · exact not_mem_linkedColumn unmarked solid _ code
  · exact solid space

theorem splitLabel_mainText (program : Program) (index : Nat) (instruction : Instruction)
    (after : Nat) :
    ∃ before, splitLabel (mainText program index instruction after) =
      (if 0 < program.targetCount index then some (indexName index).toList else none,
        List.replicate before ' ' ++
          ((linkedColumn (instruction.mapLabel program.target)).toList ++
            List.replicate after ' ')) := by
  rcases toList_labelColumn program index with ⟨before, column⟩
  refine ⟨before, ?_⟩
  by_cases counted : 0 < program.targetCount index
  · have unlabelled : ':' ∉ (indexName index).toList := not_mem_indexName (by decide) index
    simp only [splitLabel, mainText, column, if_pos counted, List.append_assoc,
      List.cons_append, Text.cutAt_append unlabelled,
      Text.trim_of_plain (toList_indexName_ne_nil index) (fun _ => isBlank_of_mem_indexName)]
  · have uncut : ':' ∉ List.replicate before ' ' ++
        ((linkedColumn (instruction.mapLabel program.target)).toList ++
          List.replicate after ' ') := by
      simp only [List.mem_append, List.mem_replicate, not_or]
      exact ⟨by simp, not_mem_linkedColumn (by decide) (by decide) _, by simp⟩
    simp only [splitLabel, mainText, column, if_neg counted, Text.cutAt_of_not_mem uncut]

theorem splitComment_lineText (program : Program) (commented : Bool) (index : Nat)
    (instruction : Instruction) :
    ∃ after, splitComment (lineText program commented index instruction) =
      (mainText program index instruction after,
        if commented then some (commentTail program index) else none) := by
  have uncut : forall after, ';' ∉ mainText program index instruction after :=
    not_mem_mainText (by decide) (by decide) (by decide) program index instruction
  cases commented with
  | false =>
      refine ⟨10 - (linkedColumn (instruction.mapLabel program.target)).length, ?_⟩
      simp only [splitComment, lineText, Bool.false_eq_true, if_false,
        Text.cutAt_of_not_mem (uncut _)]
  | true =>
      refine ⟨10 - (linkedColumn (instruction.mapLabel program.target)).length + 1, ?_⟩
      simp only [splitComment, lineText, if_true, Text.cutAt_append (uncut _)]

/-- The parts of a line: the name of its index, if some label stands for it, the name and
operand of its instruction, and its comment. -/
theorem ofText_lineText (program : Program) (commented : Bool) (index : Nat)
    (instruction : Instruction) :
    Line.ofText (lineText program commented index instruction) =
      { label := if 0 < program.targetCount index then some (indexName index).toList else none
        words := instruction.opcode.name.toList ::
          (operandText? (instruction.mapLabel program.target)).toList.map String.toList
        comment := if commented then some (commentTail program index) else none } := by
  rcases splitComment_lineText program commented index instruction with ⟨after, commentCut⟩
  rcases splitLabel_mainText program index instruction after with ⟨before, labelCut⟩
  simp only [Line.ofText, commentCut, labelCut, words_linkedColumn, Instruction.opcode_mapLabel]

/-- The line of the end of a program names it and holds nothing else. -/
theorem ofText_indexLabel (index : Nat) :
    Line.ofText (indexLabel index).toList =
      { label := some (indexName index).toList, words := [], comment := none } := by
  have unlabelled : ':' ∉ (indexName index).toList := not_mem_indexName (by decide) index
  have uncommented : ';' ∉ (indexName index).toList ++ [':'] := by
    rw [List.mem_append, not_or]
    exact ⟨not_mem_indexName (by decide) index, by decide⟩
  rw [toList_indexLabel, Line.ofText, splitComment, Text.cutAt_of_not_mem uncommented]
  simp only [splitLabel, Text.cutAt_append unlabelled,
    Text.trim_of_plain (toList_indexName_ne_nil index) (fun _ => isBlank_of_mem_indexName),
    Text.words_nil]

theorem not_mem_lineText {program : Program} {commented : Bool} {index : Nat}
    (instruction : Instruction)
    (single : commented = true -> '\n' ∉ (program.commentText index).toList) :
    '\n' ∉ lineText program commented index instruction := by
  have main : forall after, '\n' ∉ mainText program index instruction after :=
    not_mem_mainText (by decide) (by decide) (by decide) program index instruction
  cases commented with
  | false => exact main _
  | true =>
      intro member
      simp only [lineText, if_true, commentTail, List.mem_append, List.mem_cons,
        List.mem_replicate] at member
      rcases member with front | semicolon | space | name | ⟨_, space⟩ | space | text
      · exact main _ front
      · exact absurd semicolon (by decide)
      · exact absurd space (by decide)
      · exact not_mem_indexName (by decide) index name
      · exact absurd space (by decide)
      · exact absurd space (by decide)
      · exact single rfl text

end Listing
end HangulPane
