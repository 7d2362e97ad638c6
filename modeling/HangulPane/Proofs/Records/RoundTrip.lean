import HangulPane.Proofs.Program.Agreement
import HangulPane.Proofs.Program.Compact
import HangulPane.Proofs.Records.Layout

namespace HangulPane
namespace Records

/-!
Programs come back from their bytes.

A record of which the operand fits tells the instruction it was made of, as long as the
instruction names a storage that exists and its destination is below the largest operand.
Such a record is not the terminator, so reading goes on to the terminator at the end and
stops there, whatever follows.  What is read has the linked code of what was written, under
labels that are named for the indices they stand for.
-/

/-- Whether an instruction of linked code can be told from its record. -/
structure Legible (instruction : Instruction) : Prop where
  slot : instruction.hasSlot = true
  fits : Fits instruction
  target : forall target, instruction.label? = some target -> target < 0xFFFFFF

theorem opcodeOfByte?_opcodeByte (operation : Opcode) :
    opcodeOfByte? (opcodeByte operation) = some operation := by
  cases operation <;> decide

theorem operandOfBytes_ofNat {value : Nat} (fits : value ≤ 0xFFFFFF) :
    operandOfBytes (UInt8.ofNat value) (UInt8.ofNat (value / 0x100))
      (UInt8.ofNat (value / 0x10000)) = value := by
  simp only [operandOfBytes, UInt8.toNat_ofNat']
  omega

namespace Legible

variable {instruction : Instruction} (legible : Legible instruction)
include legible

theorem operand_of_label {target : Nat} (labelled : instruction.label? = some target) :
    linkedOperand instruction = target := by
  have small := legible.target target labelled
  simp only [linkedOperand, labelled]
  exact Int64.toInt_ofNat_of_lt (by omega)

theorem recordOf_ne_terminator : recordOf instruction ≠ terminator := by
  intro same
  rcases (recordOf_eq_terminator_iff legible.fits).mp same with ⟨jump, largest⟩
  have labelled : instruction.label?.isSome = true := by
    rw [← Instruction.isJump_opcode, jump]
    rfl
  rcases Option.isSome_iff_exists.mp labelled with ⟨target, found⟩
  have small := legible.target target found
  rw [legible.operand_of_label found, maxOperand] at largest
  omega

/-- The operand of a record, taken as a word again, is the operand that was written. -/
theorem toInt_operand :
    (Int64.ofNat (linkedOperand instruction).toNat).toInt = linkedOperand instruction := by
  have fits := legible.fits
  unfold Fits maxOperand at fits
  rw [Int64.toInt_ofNat_of_lt (by omega), Int.toNat_of_nonneg fits.1]

theorem ofParts?_operand :
    Instruction.ofParts? instruction.opcode (Int64.ofNat (linkedOperand instruction).toNat) =
      some instruction := by
  rw [Instruction.ofParts?_opcode legible.slot, legible.toInt_operand,
    Instruction.withLabel, Instruction.mapLabel_of_label?]
  · intro target labelled
    rw [legible.operand_of_label labelled, Int.toNat_natCast]
  · intro value valued
    have plain : instruction.label? = none := by
      cases instruction <;> first | rfl | contradiction
    rw [legible.toInt_operand, linkedOperand, plain, valued]
    rfl

theorem decodeFrom_cons (index : Nat) (rest : List UInt8) :
    decodeFrom index (recordOf instruction ++ rest) =
      (decodeFrom (index + 1) rest).map fun later => instruction :: later := by
  have fits := legible.fits
  unfold Fits maxOperand at fits
  have other := legible.recordOf_ne_terminator
  unfold recordOf record at other ⊢
  have small : (linkedOperand instruction).toNat ≤ 0xFFFFFF := by omega
  have told := operandOfBytes_ofNat small
  simp only [List.cons_append, List.nil_append, decodeFrom, if_neg other, decodeRecord, told,
    opcodeOfByte?_opcodeByte, legible.ofParts?_operand]
  cases decodeFrom (index + 1) rest <;> rfl

end Legible

/-- Reading stops at the terminator behind the records, whatever follows it. -/
theorem decodeFrom_flatMap {instructions : List Instruction}
    (legible : forall instruction, instruction ∈ instructions -> Legible instruction)
    (index : Nat) (tail : List UInt8) :
    decodeFrom index (instructions.flatMap recordOf ++ (terminator ++ tail)) =
      .ok instructions := by
  induction instructions generalizing index with
  | nil => rfl
  | cons instruction later inductionHypothesis =>
      have first := legible instruction (List.mem_cons_self ..)
      have rest := inductionHypothesis
        (fun other member => legible other (List.mem_cons_of_mem _ member)) (index + 1)
      rw [List.flatMap_cons, List.append_assoc, first.decodeFrom_cons, rest]
      rfl

theorem firstEscape?_eq_none_iff (size index : Nat) (instructions : List Instruction) :
    firstEscape? size index instructions = none <->
      forall instruction, instruction ∈ instructions ->
        forall target, instruction.label? = some target -> target ≤ size := by
  induction instructions generalizing index with
  | nil => simp [firstEscape?]
  | cons instruction later inductionHypothesis =>
      rw [firstEscape?, List.forall_mem_cons]
      cases labelled : instruction.label? with
      | none => simp [inductionHypothesis]
      | some target =>
          by_cases escapes : size < target
          · simp only [if_pos escapes, reduceCtorEq, false_iff]
            exact fun inside => Nat.not_le_of_lt escapes (inside.1 target rfl)
          · simp [escapes, inductionHypothesis, Nat.le_of_not_lt escapes]

theorem find?_programOf (instructions : List Instruction) (label : Nat) :
    (programOf instructions).labels.find? label =
      if label ∈ instructions.filterMap Instruction.label? then some label else none := by
  have entered := Program.find?_foldl_insert (fun label => label)
    (instructions.filterMap Instruction.label?) Table.empty label
  rw [Table.find?_empty] at entered
  exact entered

/-- In a program read from records every label stands for the index it is named for. -/
theorem linked_programOf (instructions : List Instruction) :
    (programOf instructions).linked.toList = instructions := by
  have kept : forall instruction, instruction ∈ instructions ->
      instruction.mapLabel (programOf instructions).target = instruction := by
    intro instruction member
    apply Instruction.mapLabel_of_label?
    intro label labelled
    apply Program.target_of_find?
    rw [find?_programOf, if_pos (List.mem_filterMap.mpr ⟨instruction, member, labelled⟩)]
  rw [Program.linked, Array.toList_map]
  exact (List.map_congr_left kept).trans (List.map_id _)

/-- The records of instructions that lead nowhere past their end are read as those
instructions, whatever follows the terminator. -/
theorem decode_flatMap {instructions : List Instruction}
    (legible : forall instruction, instruction ∈ instructions -> Legible instruction)
    (inside : forall instruction, instruction ∈ instructions ->
      forall target, instruction.label? = some target -> target ≤ instructions.length)
    (tail : List UInt8) :
    decode (instructions.flatMap recordOf ++ terminator ++ tail) =
      .ok (programOf instructions) := by
  have contained := (firstEscape?_eq_none_iff instructions.length 0 instructions).mpr inside
  simp only [decode, List.append_assoc, decodeFrom_flatMap legible, contained]

section Linked

variable {program : Program}

theorem label?_le_of_mem_linked
    (targets : forall index target, program.jumpTarget? index = some target ->
      target ≤ program.size) {instruction : Instruction}
    (member : instruction ∈ program.linked.toList) {target : Nat}
    (labelled : instruction.label? = some target) : target ≤ program.size := by
  rcases List.getElem?_of_mem member with ⟨index, fetched⟩
  rw [Array.getElem?_toList] at fetched
  apply targets index target
  rw [← Program.label?_linked, fetched]
  exact labelled

theorem hasSlot_of_mem_linked
    (slots : forall instruction, instruction ∈ program.code -> instruction.hasSlot = true)
    {instruction : Instruction} (member : instruction ∈ program.linked.toList) :
    instruction.hasSlot = true := by
  rw [Array.mem_toList_iff, Program.linked, Array.mem_map] at member
  rcases member with ⟨original, present, rfl⟩
  rw [Instruction.hasSlot_mapLabel]
  exact slots original present

end Linked

/-- A program that names only storages that exist, leads nowhere past its end and is shorter
than the largest operand comes back from its bytes, whatever follows them: with the same
operation, literal or slot and destination at every index, with the same bytes, and with the
same machine after every number of steps. -/
theorem decode_encode_append {program : Program} {bytes : List UInt8}
    (slots : forall instruction, instruction ∈ program.code -> instruction.hasSlot = true)
    (targets : forall index target, program.jumpTarget? index = some target ->
      target ≤ program.size)
    (short : program.size < 0xFFFFFF) (written : encode program = .ok bytes)
    (tail : List UInt8) :
    ∃ read, decode (bytes ++ tail) = .ok read ∧ read.Agrees program ∧ encode read = .ok bytes ∧
      forall (N : Type) [Number N] (bound : Nat) (console : Console),
        (Machine.run read bound console : Run N) = Machine.run program bound console ∧
          (Machine.trace read bound console : List (Snapshot N) × Console) =
            Machine.trace program bound console := by
  rcases encode_eq_ok_iff.mp written with ⟨fitting, rfl⟩
  have length : program.linked.toList.length = program.size := by
    rw [Array.length_toList, Program.size_linked]
  have inside : forall instruction, instruction ∈ program.linked.toList ->
      forall target, instruction.label? = some target ->
        target ≤ program.linked.toList.length := by
    intro instruction member target labelled
    rw [length]
    exact label?_le_of_mem_linked targets member labelled
  have legible : forall instruction, instruction ∈ program.linked.toList ->
      Legible instruction := by
    intro instruction member
    refine ⟨hasSlot_of_mem_linked slots member, fitting instruction member, ?_⟩
    intro target labelled
    exact Nat.lt_of_le_of_lt (label?_le_of_mem_linked targets member labelled) short
  -- What is read is the linked code itself, under labels that are named for indices.
  have same : (programOf program.linked.toList).linked = program.linked :=
    Array.toList_inj.mp (linked_programOf _)
  refine ⟨programOf program.linked.toList, decode_flatMap legible inside tail,
    Program.agrees_of_linked_eq same, ?_, ?_⟩
  · apply encode_eq_ok_iff.mpr
    rw [same]
    exact ⟨fitting, rfl⟩
  · intro N _ bound console
    exact ⟨Program.run_eq_of_linked_eq same bound console,
      Program.trace_eq_of_linked_eq same bound console⟩

/-- A loop that branches to its end. -/
def loop : Program where
  code := #[.push 2, .brz 7, .sel 21, .jmp 3]
  labels := Table.ofList [(3, 0), (7, 4)]
  comments := none

/-- The loop comes back from its bytes with another byte behind them. -/
theorem decode_encode_append_loop :
    ∃ read, decode ([2, 0, 0, 7, 4, 0, 0, 14, 21, 0, 0, 9, 0, 0, 0, 255, 255, 255, 255, 255] ++
        [10]) = .ok read ∧ read.Agrees loop := by
  have slots : forall instruction, instruction ∈ loop.code -> instruction.hasSlot = true := by
    decide
  have targets : forall index target, loop.jumpTarget? index = some target ->
      target ≤ loop.size := by
    intro index target leads
    rcases index with _ | _ | _ | _ | index
    · cases leads
    · cases leads
      decide
    · cases leads
    · cases leads
      decide
    · simp [loop, Program.jumpTarget?] at leads
  have written : encode loop =
      .ok [2, 0, 0, 7, 4, 0, 0, 14, 21, 0, 0, 9, 0, 0, 0, 255, 255, 255, 255, 255] := rfl
  rcases decode_encode_append slots targets (by decide) written [10] with
    ⟨read, decoded, agrees, -, -⟩
  exact ⟨read, decoded, agrees⟩

end Records
end HangulPane
