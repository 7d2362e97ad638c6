import HangulPane.Proofs.Records.Grammar

namespace HangulPane
namespace Records

/-!
Written again, what was read has a normal form.

A program that was read from bytes can always be written.  Its bytes are those it was read
from, up to the first terminator, except that the operand of an operation that takes none is
cleared.  The normal form is read as the same program, labels included.
-/

/-- Whether bytes are the normal form of other bytes, which hold a program of the given
size. -/
structure IsNormalForm (bytes : List UInt8) (size : Nat) (normal : List UInt8) : Prop where
  length : normal.length = 4 * (size + 1)
  terminated : recordAt normal size = terminator
  records : forall index operation operand, index < size ->
    Holds bytes index operation operand ->
      recordAt normal index =
        if operation.takesOperand then recordAt bytes index else [0, 0, 0, opcodeByte operation]

/-- Whether a program is what the bytes say. -/
structure IsReadFrom (bytes : List UInt8) (program : Program) : Prop where
  accepted : Accepted bytes program.size
  instructions : forall index instruction, program.code[index]? = some instruction ->
    Reads bytes index instruction
  /-- The labels are the indices that they stand for. -/
  labels : forall label, program.labels.find? label =
    if label ∈ program.referredLabels then some label else none
  comments : program.comments = none

section Written

variable {bytes : List UInt8} {index operand : Nat} {operation : Opcode}
  {instruction : Instruction}

/-- The operand that is written for an instruction is the one it was told, or zero. -/
theorem linkedOperand_of_tells (tells : instruction.Tells operation operand)
    (fits : operand ≤ 0xFFFFFF) :
    linkedOperand instruction = ((if operation.takesOperand then operand else 0 : Nat) : Int) := by
  rcases tells with ⟨rfl, value, label⟩
  cases instruction with
  | push literal => exact value _ rfl
  | sel slot | mov slot => exact value _ rfl
  | brz target | brPop1 target | brPop2 target | jmp target =>
      rw [label target rfl]
      exact Instruction.toInt_ofNat_operand fits
  | _ => rfl

/-- An operand that is not taken can as well be zero. -/
theorem tells_cleared (tells : instruction.Tells operation operand) :
    instruction.Tells operation (if operation.takesOperand then operand else 0) := by
  rcases tells with ⟨rfl, value, label⟩
  cases instruction with
  | push | sel | mov | brz | brPop1 | brPop2 | jmp => exact ⟨rfl, value, label⟩
  | _ => exact ⟨rfl, by simp [Instruction.value?], by simp [Instruction.label?]⟩

theorem Holds.recordOf_eq (holds : Holds bytes index operation operand)
    (tells : instruction.Tells operation operand) :
    recordOf instruction = record operation (if operation.takesOperand then operand else 0) := by
  rw [recordOf, linkedOperand_of_tells tells holds.fits, Int.toNat_natCast, tells.opcode]

/-- The record that is written for an instruction is the one it was read from, with the operand
cleared where none is taken. -/
theorem Holds.recordOf_eq_cleared (holds : Holds bytes index operation operand)
    (tells : instruction.Tells operation operand) :
    recordOf instruction =
      if operation.takesOperand then recordAt bytes index else [0, 0, 0, opcodeByte operation] := by
  rw [holds.recordOf_eq tells, holds.found]
  split
  · rfl
  · rfl

theorem Reads.fits (reads : Reads bytes index instruction) : Fits instruction := by
  rcases reads.told with ⟨operation, operand, holds, tells⟩
  have small := holds.fits
  rw [Fits, linkedOperand_of_tells tells holds.fits, maxOperand]
  split <;> omega

/-- What is written for an instruction that was read is not taken for the terminator. -/
theorem Reads.recordOf_ne_terminator (reads : Reads bytes index instruction) :
    recordOf instruction ≠ terminator := by
  intro same
  rcases (recordOf_eq_terminator_iff reads.fits).mp same with ⟨jump, _⟩
  rcases reads.told with ⟨operation, operand, holds, tells⟩
  rw [tells.opcode] at jump
  have kept := holds.recordOf_eq_cleared tells
  rw [jump] at kept
  exact reads.other (kept.symm.trans same)

/-- An instruction that was read is read from the record that is written for it. -/
theorem Reads.of_recordAt_eq {normal : List UInt8} {place : Nat}
    (reads : Reads bytes index instruction)
    (written : recordAt normal place = recordOf instruction) :
    Reads normal place instruction := by
  rcases reads.told with ⟨operation, operand, holds, tells⟩
  have small := holds.fits
  have holdsNormal : Holds normal place operation
      (if operation.takesOperand then operand else 0) := by
    refine ⟨?_, written.trans (holds.recordOf_eq tells)⟩
    split <;> omega
  exact ⟨written ▸ reads.recordOf_ne_terminator, reads.named, operation, _, holdsNormal,
    tells_cleared tells⟩

end Written

theorem recordAt_flatMap_of_getElem? {instructions : List Instruction} {index : Nat}
    {instruction : Instruction}
    (fetched : instructions[index]? = some instruction) :
    recordAt (instructions.flatMap recordOf ++ terminator) index = recordOf instruction := by
  have inside := (List.getElem?_eq_some_iff.mp fetched).1
  rw [recordAt_flatMap, List.getElem?_append_left (by simpa using inside), List.getElem?_map,
    fetched]
  rfl

section Whole

variable {bytes : List UInt8} {size : Nat} {instructions : List Instruction}
  (upTo : ReadsUpTo bytes size instructions)
include upTo

/-- What was read can be written. -/
theorem encode_programOf :
    encode (programOf instructions) = .ok (instructions.flatMap recordOf ++ terminator) := by
  apply encode_eq_ok_iff.mpr
  rw [linked_programOf]
  refine ⟨?_, rfl⟩
  intro instruction member
  rcases List.getElem?_of_mem member with ⟨index, fetched⟩
  exact (upTo.reads index instruction fetched).fits

/-- Written again, the instructions are read again. -/
theorem readsUpTo_flatMap :
    ReadsUpTo (instructions.flatMap recordOf ++ terminator) size instructions where
  terminated := by
    rw [recordAt_flatMap, ← upTo.length]
    simp
  length := upTo.length
  reads := by
    intro index instruction fetched
    exact (upTo.reads index instruction fetched).of_recordAt_eq
      (recordAt_flatMap_of_getElem? fetched)

theorem isNormalForm_flatMap :
    IsNormalForm bytes size (instructions.flatMap recordOf ++ terminator) where
  length := by
    rw [List.length_append, length_flatMap_recordOf, upTo.length]
    rfl
  terminated := (readsUpTo_flatMap upTo).terminated
  records := by
    intro index operation operand inside holds
    have fetched := List.getElem?_eq_getElem (upTo.length ▸ inside)
    rw [recordAt_flatMap_of_getElem? fetched]
    rcases (upTo.reads index _ fetched).told with ⟨other, otherOperand, holdsOther, tells⟩
    rcases holds.unique holdsOther with ⟨rfl, rfl⟩
    exact holds.recordOf_eq_cleared tells

theorem isReadFrom_programOf (accepted : Accepted bytes (programOf instructions).size) :
    IsReadFrom bytes (programOf instructions) where
  accepted := accepted
  instructions := by
    intro index instruction fetched
    apply upTo.reads index instruction
    simpa [programOf] using fetched
  labels := find?_programOf instructions
  comments := rfl

end Whole

/-- The reader accepts exactly the grammar of records, whatever the bytes are.  It gives the
program that the records say, or else the error of the first record that is of no instruction,
or of the first jump past the end if there is no such record.  What it accepts has a normal
form, which is what the program is written as and which is read as the same program. -/
theorem decode_follows_grammar (bytes : List UInt8) :
    (forall size, Accepted bytes size <->
        ∃ program, decode bytes = .ok program ∧ program.size = size) ∧
      (forall program, decode bytes = .ok program -> IsReadFrom bytes program) ∧
      (forall error, decode bytes = .error error <-> Refused bytes error) ∧
      forall program, decode bytes = .ok program ->
        ∃ normal, encode program = .ok normal ∧ IsNormalForm bytes program.size normal ∧
          decode normal = .ok program := by
  refine ⟨?_, ?_, fun error => decode_eq_error_iff, ?_⟩
  · intro size
    constructor
    · intro accepted
      rcases accepted.decode with ⟨instructions, upTo, decoded⟩
      exact ⟨programOf instructions, decoded, upTo.length⟩
    · rintro ⟨program, decoded, rfl⟩
      exact (exists_readsUpTo_of_decode decoded).1
  · intro program decoded
    rcases exists_readsUpTo_of_decode decoded with ⟨accepted, instructions, upTo, rfl⟩
    exact isReadFrom_programOf upTo accepted
  · intro program decoded
    rcases exists_readsUpTo_of_decode decoded with ⟨_, instructions, upTo, rfl⟩
    refine ⟨_, encode_programOf upTo, isNormalForm_flatMap upTo, ?_⟩
    rw [(readsUpTo_flatMap upTo).decode, ← upTo.decode]
    exact decoded

/-- A division with an idle operand and a push, with a byte behind the terminator: the operand
of the division is cleared, that of the push is kept. -/
theorem decode_follows_grammar_cleared :
    ∃ program, decode [1, 2, 3, 2, 5, 0, 0, 7, 255, 255, 255, 255, 9] = .ok program ∧
      ∃ normal, encode program = .ok normal ∧
        recordAt normal 0 = [0, 0, 0, 2] ∧ recordAt normal 1 = [5, 0, 0, 7] ∧
        decode normal = .ok program := by
  have decoded : decode [1, 2, 3, 2, 5, 0, 0, 7, 255, 255, 255, 255, 9] =
      .ok (programOf [.div, .push 5]) := rfl
  rcases (decode_follows_grammar _).2.2.2 _ decoded with ⟨normal, written, form, again⟩
  have idle : Holds [1, 2, 3, 2, 5, 0, 0, 7, 255, 255, 255, 255, 9] 0 .div 0x030201 :=
    ⟨by decide, by decide⟩
  have pushed : Holds [1, 2, 3, 2, 5, 0, 0, 7, 255, 255, 255, 255, 9] 1 .push 5 :=
    ⟨by decide, by decide⟩
  exact ⟨_, decoded, normal, written, form.records 0 _ _ (by decide) idle,
    form.records 1 _ _ (by decide) pushed, again⟩

end Records
end HangulPane
