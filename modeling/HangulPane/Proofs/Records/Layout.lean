import HangulPane.Records

namespace HangulPane
namespace Records

/-!
How a program lies in its bytes.

The bytes depend on the linked code alone: one record of four bytes for each instruction,
in order, and the terminator behind them.  A record looks like the terminator when it holds
the largest operand and the number of a jump.  So the first terminator is the last record
unless some jump has that operand, and a reader that meets such a jump takes it for the end.
-/

/-- The operand of an instruction of linked code. -/
def linkedOperand (instruction : Instruction) : Int :=
  match instruction.label? with
  | some target => (Int64.ofNat target).toInt
  | none => instruction.value?.getD 0

/-- The record of an instruction of linked code. -/
def recordOf (instruction : Instruction) : List UInt8 :=
  record instruction.opcode (linkedOperand instruction).toNat

/-- Whether a record can hold the operand of an instruction of linked code. -/
def Fits (instruction : Instruction) : Prop :=
  0 ≤ linkedOperand instruction ∧ linkedOperand instruction ≤ maxOperand

/-- The record with the given index among successive bytes. -/
def recordAt (bytes : List UInt8) (index : Nat) : List UInt8 :=
  (bytes.drop (4 * index)).take 4

theorem operand_eq (program : Program) (instruction : Instruction) :
    operand program instruction = linkedOperand (instruction.mapLabel program.target) := by
  cases instruction <;> rfl

theorem encodeInstruction_eq_ok_iff {program : Program} {index : Nat}
    {instruction : Instruction} {bytes : List UInt8} :
    encodeInstruction program index instruction = .ok bytes <->
      Fits (instruction.mapLabel program.target) ∧
        bytes = recordOf (instruction.mapLabel program.target) := by
  simp only [encodeInstruction, operand_eq, recordOf, Instruction.opcode_mapLabel]
  split
  · rename_i fits
    simp [Fits, fits, eq_comm]
  · rename_i unfit
    simp [Fits, unfit]

theorem encodeFrom_cons_eq_ok_iff {program : Program} {index : Nat} {instruction : Instruction}
    {later : List Instruction} {bytes : List UInt8} :
    encodeFrom program index (instruction :: later) = .ok bytes <->
      ∃ first rest, encodeInstruction program index instruction = .ok first ∧
        encodeFrom program (index + 1) later = .ok rest ∧ bytes = first ++ rest := by
  rw [encodeFrom]
  cases encodeInstruction program index instruction with
  | error fault => simp
  | ok first =>
      cases encodeFrom program (index + 1) later with
      | error fault => simp
      | ok rest => simp [eq_comm]

theorem encodeFrom_eq_ok_iff {program : Program} {index : Nat} {instructions : List Instruction}
    {bytes : List UInt8} :
    encodeFrom program index instructions = .ok bytes <->
      (forall instruction, instruction ∈ instructions.map (Instruction.mapLabel program.target) ->
        Fits instruction) ∧
      bytes = (instructions.map (Instruction.mapLabel program.target)).flatMap recordOf ++
        terminator := by
  induction instructions generalizing index bytes with
  | nil => simp [encodeFrom, eq_comm]
  | cons instruction later inductionHypothesis =>
      rw [encodeFrom_cons_eq_ok_iff]
      simp only [encodeInstruction_eq_ok_iff, inductionHypothesis, List.map_cons,
        List.forall_mem_cons, List.flatMap_cons, List.append_assoc]
      constructor
      · rintro ⟨first, rest, ⟨fits, rfl⟩, ⟨fitting, rfl⟩, rfl⟩
        exact ⟨⟨fits, fitting⟩, rfl⟩
      · rintro ⟨⟨fits, fitting⟩, rfl⟩
        exact ⟨_, _, ⟨fits, rfl⟩, ⟨fitting, rfl⟩, rfl⟩

/-- A program has bytes if its operands fit, and these are its records and the terminator. -/
theorem encode_eq_ok_iff {program : Program} {bytes : List UInt8} :
    encode program = .ok bytes <->
      (forall instruction, instruction ∈ program.linked.toList -> Fits instruction) ∧
        bytes = program.linked.toList.flatMap recordOf ++ terminator := by
  rw [encode, encodeFrom_eq_ok_iff, Program.linked, Array.toList_map]

theorem opcodeByte_eq_iff (operation : Opcode) :
    opcodeByte operation = 0xFF <-> operation = .jmp := by
  cases operation <;> decide

/-- Only the largest operand and the number of a jump look like the terminator. -/
theorem record_eq_terminator_iff {operation : Opcode} {value : Nat}
    (fits : (value : Int) ≤ maxOperand) :
    record operation value = terminator <-> operation = .jmp ∧ (value : Int) = maxOperand := by
  have low : UInt8.ofNat value = 0xFF <-> value % 256 = 255 := by
    rw [← UInt8.toNat_inj, UInt8.toNat_ofNat']
    rfl
  have middle : UInt8.ofNat (value / 0x100) = 0xFF <-> value / 256 % 256 = 255 := by
    rw [← UInt8.toNat_inj, UInt8.toNat_ofNat']
    rfl
  have high : UInt8.ofNat (value / 0x10000) = 0xFF <-> value / 65536 % 256 = 255 := by
    rw [← UInt8.toNat_inj, UInt8.toNat_ofNat']
    rfl
  simp only [record, terminator, List.cons.injEq, and_true, opcodeByte_eq_iff, low, middle, high]
  unfold maxOperand at fits ⊢
  constructor
  · rintro ⟨lowest, between, highest, jump⟩
    exact ⟨jump, by omega⟩
  · rintro ⟨jump, largest⟩
    exact ⟨by omega, by omega, by omega, jump⟩

theorem recordOf_eq_terminator_iff {instruction : Instruction} (fits : Fits instruction) :
    recordOf instruction = terminator <->
      instruction.opcode = .jmp ∧ linkedOperand instruction = maxOperand := by
  have whole : ((linkedOperand instruction).toNat : Int) = linkedOperand instruction :=
    Int.toNat_of_nonneg fits.1
  rw [recordOf, record_eq_terminator_iff (by rw [whole]; exact fits.2), whole]

@[simp]
theorem length_recordOf (instruction : Instruction) : (recordOf instruction).length = 4 := rfl

theorem recordAt_zero (record rest : List UInt8) (four : record.length = 4) :
    recordAt (record ++ rest) 0 = record := by
  rw [recordAt, Nat.mul_zero, List.drop_zero, ← four, List.take_left]

theorem recordAt_succ (record rest : List UInt8) (four : record.length = 4) (index : Nat) :
    recordAt (record ++ rest) (index + 1) = recordAt rest index := by
  have offset : 4 * (index + 1) = record.length + 4 * index := by omega
  rw [recordAt, recordAt, offset, ← List.drop_drop, List.drop_left]

/-- The records of successive instructions are found at the indices of the instructions. -/
theorem recordAt_flatMap (instructions : List Instruction) (index : Nat) :
    recordAt (instructions.flatMap recordOf ++ terminator) index =
      ((instructions.map recordOf ++ [terminator])[index]?).getD [] := by
  induction instructions generalizing index with
  | nil =>
      cases index with
      | zero => rfl
      | succ index =>
          have past : terminator.length ≤ 4 * (index + 1) := by
            simp only [terminator, List.length_cons, List.length_nil]
            omega
          simp [recordAt, List.drop_eq_nil_of_le past]
  | cons instruction later inductionHypothesis =>
      rw [List.flatMap_cons, List.append_assoc]
      cases index with
      | zero => exact recordAt_zero _ _ (length_recordOf instruction)
      | succ index =>
          rw [recordAt_succ _ _ (length_recordOf instruction), inductionHypothesis]
          rfl

theorem length_flatMap_recordOf (instructions : List Instruction) :
    (instructions.flatMap recordOf).length = 4 * instructions.length := by
  induction instructions with
  | nil => rfl
  | cons instruction later inductionHypothesis =>
      rw [List.flatMap_cons, List.length_append, length_recordOf, inductionHypothesis,
        List.length_cons]
      omega

/-- A jump with the largest operand is all that can look like the terminator before the end:
the bytes hold one record more than the program has instructions, and a record is the
terminator exactly if it is the last one or belongs to such a jump. -/
theorem recordAt_eq_terminator_iff {program : Program} {bytes : List UInt8}
    (written : encode program = .ok bytes) :
    bytes.length = 4 * (program.size + 1) ∧
      forall index, recordAt bytes index = terminator <->
        index = program.size ∨ ∃ label, program.code[index]? = some (.jmp label) ∧
          operand program (.jmp label) = maxOperand := by
  rcases encode_eq_ok_iff.mp written with ⟨fitting, rfl⟩
  have length : program.linked.toList.length = program.size := by
    simp [Program.linked, Program.size]
  constructor
  · rw [List.length_append, length_flatMap_recordOf, length]
    rfl
  · intro index
    rw [recordAt_flatMap]
    -- The record belongs to an instruction, comes after the last one, or lies past the bytes.
    rcases Nat.lt_trichotomy index program.size with inside | rfl | outside
    · have fetched : program.code[index]? = some program.code[index] :=
        Array.getElem?_eq_getElem inside
      have linked : program.linked.toList[index]? =
          some (program.code[index].mapLabel program.target) := by
        rw [Array.getElem?_toList, Program.linked, Array.getElem?_map, fetched]
        rfl
      have fits := fitting _ (List.mem_of_getElem? linked)
      rw [List.getElem?_append_left (by simpa [length] using inside), List.getElem?_map, linked,
        Option.map_some, Option.getD_some, recordOf_eq_terminator_iff fits,
        Instruction.opcode_mapLabel, ← operand_eq]
      simp only [Nat.ne_of_lt inside, false_or, fetched, Option.some.injEq]
      constructor
      · rintro ⟨jump, largest⟩
        cases instruction : program.code[index] with
        | jmp label => exact ⟨label, rfl, instruction ▸ largest⟩
        | _ => simp [instruction, Instruction.opcode] at jump
      · rintro ⟨label, jump, largest⟩
        rw [jump]
        exact ⟨rfl, largest⟩
    · simp [length]
    · have beyond : program.code[index]? = none := Array.getElem?_eq_none (Nat.le_of_lt outside)
      have past : (program.linked.toList.map recordOf ++ [terminator]).length ≤ index := by
        simp only [List.length_append, List.length_map, length, List.length_singleton]
        omega
      rw [List.getElem?_eq_none past]
      simp [beyond, terminator, Nat.ne_of_gt outside]

/-- The program of a number of idle instructions and a jump behind them to its end. -/
def leap (idle : Nat) : Program where
  code := (List.replicate idle Instruction.noop ++ [Instruction.jmp 0]).toArray
  labels := Table.empty.insert 0 (idle + 1)
  comments := none

theorem size_leap (idle : Nat) : (leap idle).size = idle + 1 := by
  simp [Program.size, leap]

theorem target_leap (idle : Nat) : (leap idle).target 0 = idle + 1 := rfl

theorem code_leap (idle : Nat) : (leap idle).code[idle]? = some (.jmp 0) := by
  simp [leap]

theorem linked_leap (idle : Nat) :
    (leap idle).linked.toList = List.replicate idle .noop ++ [.jmp (idle + 1)] := by
  simp [Program.linked, leap, Instruction.mapLabel, Program.target, Table.find?_insert]

theorem encode_leap {idle : Nat} (fits : Fits (.jmp (idle + 1))) :
    encode (leap idle) = .ok ((leap idle).linked.toList.flatMap recordOf ++ terminator) := by
  apply encode_eq_ok_iff.mpr
  refine ⟨?_, rfl⟩
  intro instruction member
  rw [linked_leap, List.mem_append, List.mem_replicate, List.mem_singleton] at member
  rcases member with ⟨_, rfl⟩ | rfl
  · exact ⟨by decide, by decide⟩
  · exact fits

/-- A program as long as the largest operand whose last instruction jumps to its end: that
jump looks like the terminator. -/
theorem recordAt_leap :
    (leap 0xFFFFFE).target 0 = (leap 0xFFFFFE).size ∧
      ∃ bytes, encode (leap 0xFFFFFE) = .ok bytes ∧ recordAt bytes 0xFFFFFE = terminator := by
  have fits : Fits (.jmp (0xFFFFFE + 1)) := ⟨by decide, by decide⟩
  have written := encode_leap fits
  refine ⟨(target_leap _).trans (size_leap _).symm, _, written, ?_⟩
  refine ((recordAt_eq_terminator_iff written).2 0xFFFFFE).mpr (Or.inr ⟨0, code_leap _, ?_⟩)
  rw [operand_eq, Instruction.mapLabel, target_leap]
  decide

/-- The terminator can stand before the end: a single jump past the end, to the largest
operand, is stored as two terminators. -/
theorem not_recordAt_ne_terminator :
    ¬ forall (program : Program) (bytes : List UInt8), encode program = .ok bytes ->
      forall index, index < program.size -> recordAt bytes index ≠ terminator := by
  intro delimited
  have written : encode
      { code := #[.jmp 0], labels := Table.empty.insert 0 0xFFFFFF, comments := none } =
      .ok (terminator ++ terminator) := rfl
  exact delimited _ _ written 0 (by decide) rfl

end Records
end HangulPane
