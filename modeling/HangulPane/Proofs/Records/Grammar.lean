import HangulPane.Proofs.Records.RoundTrip

namespace HangulPane

/-!
Which bytes hold a program, and why other bytes are refused.

The bytes of a program are records up to the first terminator.  Each record has the number of
an operation and an operand, which names a storage that exists if the operation needs one,
and lies inside the program if the operation jumps.  Reading goes from record to record: the
first one that is of no instruction decides about the error, and the jumps are only looked at
when the terminator has been found.  Every sequence of bytes is either accepted or refused for
exactly one reason, and the reader gives the answer that this grammar gives.
-/

/-- Whether the operand of an operation names a storage that exists, if it has to name one. -/
def Opcode.NamesSlot (operation : Opcode) (operand : Nat) : Prop :=
  operation = .sel ∨ operation = .mov -> operand < slotCount

/-- Whether an instruction says what an operation and an operand say.  An operation that takes
no operand leaves it open. -/
structure Instruction.Tells (instruction : Instruction) (operation : Opcode)
    (operand : Nat) : Prop where
  opcode : instruction.opcode = operation
  value : forall value, instruction.value? = some value -> value = operand
  label : forall label, instruction.label? = some label -> label = operand

namespace Instruction

variable {instruction : Instruction} {operation : Opcode} {operand : Nat}

theorem toInt_ofNat_operand (fits : operand ≤ 0xFFFFFF) : (Int64.ofNat operand).toInt = operand :=
  Int64.toInt_ofNat_of_lt (by omega)

theorem slot?_ofNat (fits : operand ≤ 0xFFFFFF) :
    slot? (Int64.ofNat operand) =
      if operand < slotCount then some (UInt8.ofNat operand) else none := by
  rw [slot?, toInt_ofNat_operand fits]
  by_cases small : operand < slotCount
  · rw [if_pos small, if_pos (by omega), Int.toNat_natCast]
  · rw [if_neg small, if_neg (by omega)]

/-- There is no instruction only where a storage should be named and is not. -/
theorem ofParts?_eq_none_iff (fits : operand ≤ 0xFFFFFF) :
    ofParts? operation (Int64.ofNat operand) = none <-> ¬ operation.NamesSlot operand := by
  cases operation with
  | sel | mov => simp [ofParts?, slot?_ofNat fits, Opcode.NamesSlot]
  | _ => simp [ofParts?, Opcode.NamesSlot]

theorem tells_of_ofParts? (fits : operand ≤ 0xFFFFFF)
    (made : ofParts? operation (Int64.ofNat operand) = some instruction) :
    instruction.Tells operation operand := by
  have whole := toInt_ofNat_operand fits
  cases operation with
  | sel | mov =>
      rcases Option.map_eq_some_iff.mp made with ⟨slot, found, rfl⟩
      rw [slot?_ofNat fits] at found
      split at found
      · rename_i small
        cases found
        refine ⟨rfl, ?_, by simp [label?]⟩
        rintro value ⟨⟩
        rw [UInt8.toNat_ofNat_of_lt' (Nat.lt_trans small (by decide))]
      · cases found
  | push =>
      cases made
      refine ⟨rfl, ?_, by simp [label?]⟩
      rintro value ⟨⟩
      exact whole
  | brz | brPop1 | brPop2 | jmp =>
      cases made
      refine ⟨rfl, by simp [value?], ?_⟩
      rintro label ⟨⟩
      rw [whole, Int.toNat_natCast]
  | _ =>
      cases made
      exact ⟨rfl, by simp [value?], by simp [label?]⟩

/-- Conversely an instruction is made of what it says. -/
theorem Tells.ofParts? (tells : instruction.Tells operation operand)
    (named : instruction.hasSlot = true) (fits : operand ≤ 0xFFFFFF) :
    Instruction.ofParts? operation (Int64.ofNat operand) = some instruction := by
  have whole := toInt_ofNat_operand fits
  have own : forall value, instruction.value? = some value ->
      (Int64.ofNat operand).toInt = value := by
    intro value found
    rw [whole, tells.value value found]
  have made := ofParts?_opcode named own
  rw [tells.opcode, whole, Int.toNat_natCast, withLabel] at made
  rw [made, mapLabel_of_label?]
  intro label labelled
  exact (tells.label label labelled).symm

end Instruction

namespace Records

/-- Whether the record at an index holds an operation and an operand. -/
structure Holds (bytes : List UInt8) (index : Nat) (operation : Opcode) (operand : Nat) :
    Prop where
  fits : operand ≤ 0xFFFFFF
  found : recordAt bytes index = record operation operand

/-- Whether the record at an index is that of an instruction, wherever that may lead. -/
structure Readable (bytes : List UInt8) (index : Nat) : Prop where
  other : recordAt bytes index ≠ terminator
  held : ∃ operation operand, Holds bytes index operation operand ∧
    operation.NamesSlot operand

/-- Whether the bytes are those of a program of the given size. -/
structure Accepted (bytes : List UInt8) (size : Nat) : Prop where
  terminated : recordAt bytes size = terminator
  first : forall index, index < size -> recordAt bytes index ≠ terminator
  records : forall index, index < size -> ∃ operation operand,
    Holds bytes index operation operand ∧ operation.NamesSlot operand ∧
      (operation.isJump = true -> operand ≤ size)

/-- The reason why bytes are not those of a program. -/
inductive Refused (bytes : List UInt8) : ProgramError -> Prop where
  | unknownOpcode (index : Nat) (low middle high code : UInt8)
      (readable : forall earlier, earlier < index -> Readable bytes earlier)
      (found : recordAt bytes index = [low, middle, high, code])
      (unknown : forall operation, opcodeByte operation ≠ code) :
      Refused bytes (.unknownOpcode code index)
  | storageOutOfRange (index : Nat) (operation : Opcode) (operand : Nat)
      (readable : forall earlier, earlier < index -> Readable bytes earlier)
      (holds : Holds bytes index operation operand)
      (unnamed : ¬ operation.NamesSlot operand) :
      Refused bytes (.storageOutOfRange index operand)
  | truncatedRecord (index : Nat)
      (readable : forall earlier, earlier < index -> Readable bytes earlier)
      (begun : 4 * index < bytes.length) (short : bytes.length < 4 * (index + 1)) :
      Refused bytes (.truncatedRecord (4 * index))
  | missingTerminator (index : Nat)
      (readable : forall earlier, earlier < index -> Readable bytes earlier)
      (ended : bytes.length = 4 * index) :
      Refused bytes .missingTerminator
  | invalidJumpTarget (size index : Nat) (operation : Opcode) (operand : Nat)
      (terminated : recordAt bytes size = terminator)
      (readable : forall earlier, earlier < size -> Readable bytes earlier)
      (inside : index < size) (holds : Holds bytes index operation operand)
      (jumps : operation.isJump = true) (beyond : size < operand)
      (first : forall earlier operation operand, earlier < index ->
        Holds bytes earlier operation operand -> operation.isJump = true -> operand ≤ size) :
      Refused bytes (.invalidJumpTarget index operand)

/-- Whether an instruction is what the record at an index says. -/
structure Reads (bytes : List UInt8) (index : Nat) (instruction : Instruction) : Prop where
  other : recordAt bytes index ≠ terminator
  named : instruction.hasSlot = true
  told : ∃ operation operand, Holds bytes index operation operand ∧
    instruction.Tells operation operand

/-! The parts of a record. -/

theorem opcodeOfByte?_eq_some_iff {byte : UInt8} {operation : Opcode} :
    opcodeOfByte? byte = some operation <-> opcodeByte operation = byte := by
  constructor
  · intro found
    have number := List.find?_some found
    rw [beq_iff_eq] at number
    have small := byte.toNat_lt
    rw [opcodeByte, number, UInt8.ofInt, ← UInt8.toNat_inj, UInt8.toNat_ofNat']
    split <;> omega
  · rintro rfl
    exact opcodeOfByte?_opcodeByte operation

theorem record_operandOfBytes (low middle high : UInt8) (operation : Opcode) :
    record operation (operandOfBytes low middle high) =
      [low, middle, high, opcodeByte operation] := by
  have lowBound := low.toNat_lt
  have middleBound := middle.toNat_lt
  have highBound := high.toNat_lt
  have lowest : UInt8.ofNat (operandOfBytes low middle high) = low := by
    rw [← UInt8.toNat_inj, UInt8.toNat_ofNat', operandOfBytes]
    omega
  have between : UInt8.ofNat (operandOfBytes low middle high / 0x100) = middle := by
    rw [← UInt8.toNat_inj, UInt8.toNat_ofNat', operandOfBytes]
    omega
  have highest : UInt8.ofNat (operandOfBytes low middle high / 0x10000) = high := by
    rw [← UInt8.toNat_inj, UInt8.toNat_ofNat', operandOfBytes]
    omega
  rw [record, lowest, between, highest]

theorem operandOfBytes_le (low middle high : UInt8) :
    operandOfBytes low middle high ≤ 0xFFFFFF := by
  have lowBound := low.toNat_lt
  have middleBound := middle.toNat_lt
  have highBound := high.toNat_lt
  unfold operandOfBytes
  omega

/-- A record holds one operation and one operand. -/
theorem Holds.unique {bytes : List UInt8} {index operand otherOperand : Nat}
    {operation other : Opcode} (holds : Holds bytes index operation operand)
    (holdsOther : Holds bytes index other otherOperand) :
    operation = other ∧ operand = otherOperand := by
  have same := holds.found.symm.trans holdsOther.found
  simp only [record, List.cons.injEq, and_true] at same
  rcases same with ⟨low, middle, high, code⟩
  constructor
  · apply Option.some.inj
    rw [← opcodeOfByte?_opcodeByte operation, code, opcodeOfByte?_opcodeByte]
  · rw [← operandOfBytes_ofNat holds.fits, low, middle, high, operandOfBytes_ofNat holdsOther.fits]

/-! Reading one record after the other. -/

theorem drop_eq_recordAt_append (bytes : List UInt8) (index : Nat) :
    bytes.drop (4 * index) = recordAt bytes index ++ bytes.drop (4 * (index + 1)) := by
  have later : bytes.drop (4 * (index + 1)) = (bytes.drop (4 * index)).drop 4 := by
    rw [List.drop_drop, Nat.mul_succ]
  rw [later, recordAt, List.take_append_drop]

theorem decodeFrom_of_terminator {bytes : List UInt8} {index : Nat}
    (terminated : recordAt bytes index = terminator) :
    decodeFrom index (bytes.drop (4 * index)) = .ok [] := by
  rw [drop_eq_recordAt_append, terminated]
  rfl

/-- What reading makes of a record that holds an operation and an operand. -/
theorem decodeFrom_of_holds {bytes : List UInt8} {index operand : Nat} {operation : Opcode}
    (other : recordAt bytes index ≠ terminator) (holds : Holds bytes index operation operand) :
    decodeFrom index (bytes.drop (4 * index)) =
      match Instruction.ofParts? operation (Int64.ofNat operand) with
      | none => .error (.storageOutOfRange index operand)
      | some instruction =>
          (decodeFrom (index + 1) (bytes.drop (4 * (index + 1)))).map
            fun later => instruction :: later := by
  rw [holds.found] at other
  have told := operandOfBytes_ofNat holds.fits
  rw [drop_eq_recordAt_append, holds.found]
  unfold record at other ⊢
  simp only [List.cons_append, List.nil_append, decodeFrom, if_neg other, decodeRecord, told,
    opcodeOfByte?_opcodeByte]
  cases Instruction.ofParts? operation (Int64.ofNat operand) with
  | none => rfl
  | some instruction =>
      cases decodeFrom (index + 1) (bytes.drop (4 * (index + 1))) <;> rfl

theorem Reads.decodeFrom {bytes : List UInt8} {index : Nat} {instruction : Instruction}
    (reads : Reads bytes index instruction) :
    Records.decodeFrom index (bytes.drop (4 * index)) =
      (Records.decodeFrom (index + 1) (bytes.drop (4 * (index + 1)))).map
        fun later => instruction :: later := by
  rcases reads.told with ⟨operation, operand, holds, tells⟩
  rw [decodeFrom_of_holds reads.other holds, tells.ofParts? reads.named holds.fits]

/-- Reading passes over the records of instructions and goes on behind them. -/
theorem decodeFrom_of_reads {bytes : List UInt8} {instructions : List Instruction} {index : Nat}
    (reads : forall later instruction, instructions[later]? = some instruction ->
      Reads bytes (index + later) instruction) :
    decodeFrom index (bytes.drop (4 * index)) =
      (decodeFrom (index + instructions.length)
        (bytes.drop (4 * (index + instructions.length)))).map fun rest => instructions ++ rest := by
  induction instructions generalizing index with
  | nil =>
      cases decodeFrom index (bytes.drop (4 * index)) <;> rfl
  | cons instruction later inductionHypothesis =>
      have first := reads 0 instruction rfl
      have readsLater : forall place other, later[place]? = some other ->
          Reads bytes (index + 1 + place) other := by
        intro place other found
        have there := reads (place + 1) other found
        rwa [Nat.add_comm place, ← Nat.add_assoc] at there
      rw [Nat.add_zero] at first
      rw [first.decodeFrom, inductionHypothesis readsLater, List.length_cons,
        Nat.add_comm later.length, ← Nat.add_assoc]
      cases decodeFrom (index + 1 + later.length)
        (bytes.drop (4 * (index + 1 + later.length))) <;> rfl

theorem decodeFrom_zero_of_reads {bytes : List UInt8} {instructions : List Instruction}
    (reads : forall index instruction, instructions[index]? = some instruction ->
      Reads bytes index instruction) :
    decodeFrom 0 bytes =
      (decodeFrom instructions.length (bytes.drop (4 * instructions.length))).map
        fun rest => instructions ++ rest := by
  have readsFromStart : forall later instruction, instructions[later]? = some instruction ->
      Reads bytes (0 + later) instruction := by
    intro later instruction found
    rw [Nat.zero_add]
    exact reads later instruction found
  have passed := decodeFrom_of_reads readsFromStart
  rwa [Nat.zero_add, Nat.mul_zero, List.drop_zero] at passed

/-- A record of an instruction reads as one. -/
theorem Readable.reads {bytes : List UInt8} {index : Nat} (readable : Readable bytes index) :
    ∃ instruction, Reads bytes index instruction := by
  rcases readable.held with ⟨operation, operand, holds, named⟩
  cases made : Instruction.ofParts? operation (Int64.ofNat operand) with
  | none => exact absurd named ((Instruction.ofParts?_eq_none_iff holds.fits).mp made)
  | some instruction =>
      exact ⟨instruction, readable.other, (Instruction.opcode_of_ofParts? made).2, operation,
        operand, holds, Instruction.tells_of_ofParts? holds.fits made⟩

theorem exists_reads {bytes : List UInt8} {count : Nat}
    (readable : forall index, index < count -> Readable bytes index) :
    ∃ instructions : List Instruction, instructions.length = count ∧
      forall index instruction, instructions[index]? = some instruction ->
        Reads bytes index instruction := by
  induction count with
  | zero => exact ⟨[], rfl, by simp⟩
  | succ count inductionHypothesis =>
      rcases inductionHypothesis fun index inside =>
        readable index (Nat.lt_succ_of_lt inside) with ⟨instructions, length, reads⟩
      rcases (readable count (Nat.lt_succ_self count)).reads with ⟨last, readsLast⟩
      refine ⟨instructions ++ [last], by simp [length], ?_⟩
      intro index instruction found
      rcases Nat.lt_or_ge index count with inside | beyond
      · rw [List.getElem?_append_left (length ▸ inside)] at found
        exact reads index instruction found
      · rw [List.getElem?_append_right (length ▸ beyond), List.getElem?_singleton, length] at found
        split at found
        · rename_i here
          cases found
          rwa [Nat.le_antisymm (Nat.le_of_sub_eq_zero here) beyond]
        · cases found

/-- The instruction of a record has a label if the operation jumps, and this is the operand. -/
theorem Reads.label?_eq_some_iff {bytes : List UInt8} {index operand target : Nat}
    {instruction : Instruction} {operation : Opcode} (reads : Reads bytes index instruction)
    (holds : Holds bytes index operation operand) :
    instruction.label? = some target <-> operation.isJump = true ∧ target = operand := by
  rcases reads.told with ⟨other, otherOperand, holdsOther, tells⟩
  rcases holds.unique holdsOther with ⟨rfl, rfl⟩
  have jumps := instruction.isJump_opcode
  rw [tells.opcode] at jumps
  constructor
  · intro labelled
    exact ⟨by rw [jumps, labelled, Option.isSome_some], tells.label target labelled⟩
  · rintro ⟨jumping, rfl⟩
    rw [jumps] at jumping
    rcases Option.isSome_iff_exists.mp jumping with ⟨label, labelled⟩
    rw [labelled, tells.label label labelled]

/-- Whether the instruction at a place is the first that leads past the given size. -/
structure Escapes (size : Nat) (instructions : List Instruction) (place target : Nat) : Prop where
  leads : instructions[place]?.bind Instruction.label? = some target
  beyond : size < target
  first : forall earlier label, earlier < place ->
    instructions[earlier]?.bind Instruction.label? = some label -> label ≤ size

/-- The first escape from the instructions after one that stays inside. -/
theorem Escapes.cons {size place target : Nat} {instruction : Instruction}
    {later : List Instruction} (escapes : Escapes size later place target)
    (stays : forall label, instruction.label? = some label -> label ≤ size) :
    Escapes size (instruction :: later) (place + 1) target where
  leads := escapes.leads
  beyond := escapes.beyond
  first := by
    intro earlier label before leads
    cases earlier with
    | zero => exact stays label leads
    | succ earlier => exact escapes.first earlier label (Nat.lt_of_succ_lt_succ before) leads

theorem escapes_of_firstEscape? {size index : Nat} {instructions : List Instruction}
    {error : ProgramError} (found : firstEscape? size index instructions = some error) :
    ∃ place target, error = .invalidJumpTarget (index + place) target ∧
      Escapes size instructions place target := by
  induction instructions generalizing index with
  | nil => cases found
  | cons instruction later inductionHypothesis =>
      rw [firstEscape?] at found
      -- Either the head escapes, or it stays inside and a later instruction escapes.
      have behind : firstEscape? size (index + 1) later = some error ->
          (forall label, instruction.label? = some label -> label ≤ size) ->
          ∃ place target, error = .invalidJumpTarget (index + place) target ∧
            Escapes size (instruction :: later) place target := by
        intro foundLater stays
        rcases inductionHypothesis foundLater with ⟨place, target, rfl, escapes⟩
        refine ⟨place + 1, target, ?_, escapes.cons stays⟩
        rw [Nat.add_assoc, Nat.add_comm 1]
      cases labelled : instruction.label? with
      | none =>
          rw [labelled] at found
          exact behind found (by simp [labelled])
      | some target =>
          rw [labelled] at found
          dsimp only at found
          split at found
          · rename_i beyond
            cases found
            exact ⟨0, target, rfl, labelled, beyond, fun _ _ before _ => by cases before⟩
          · rename_i stays
            refine behind found ?_
            intro label other
            rw [labelled] at other
            cases other
            exact Nat.le_of_not_lt stays

/-- There is one first escape. -/
theorem Escapes.unique {size place target otherPlace otherTarget : Nat}
    {instructions : List Instruction} (escapes : Escapes size instructions place target)
    (others : Escapes size instructions otherPlace otherTarget) :
    place = otherPlace ∧ target = otherTarget := by
  rcases Nat.lt_trichotomy place otherPlace with before | rfl | behind
  · exact absurd (others.first place target before escapes.leads)
      (Nat.not_le_of_lt escapes.beyond)
  · exact ⟨rfl, Option.some.inj (escapes.leads.symm.trans others.leads)⟩
  · exact absurd (escapes.first otherPlace otherTarget behind others.leads)
      (Nat.not_le_of_lt others.beyond)

theorem firstEscape?_of_escapes {size place target : Nat} {instructions : List Instruction}
    (escapes : Escapes size instructions place target) :
    firstEscape? size 0 instructions = some (.invalidJumpTarget place target) := by
  cases found : firstEscape? size 0 instructions with
  | none =>
      rcases Option.bind_eq_some_iff.mp escapes.leads with ⟨instruction, fetched, labelled⟩
      have inside := (firstEscape?_eq_none_iff size 0 instructions).mp found instruction
        (List.mem_of_getElem? fetched) target labelled
      exact absurd inside (Nat.not_le_of_lt escapes.beyond)
  | some error =>
      rcases escapes_of_firstEscape? found with ⟨otherPlace, otherTarget, rfl, others⟩
      rcases escapes.unique others with ⟨rfl, rfl⟩
      rw [Nat.zero_add]

/-! Reading the whole. -/

/-- The instructions of the bytes up to a terminator, before their jumps are looked at. -/
structure ReadsUpTo (bytes : List UInt8) (size : Nat) (instructions : List Instruction) :
    Prop where
  terminated : recordAt bytes size = terminator
  length : instructions.length = size
  reads : forall index instruction, instructions[index]? = some instruction ->
    Reads bytes index instruction

theorem exists_readsUpTo {bytes : List UInt8} {size : Nat}
    (terminated : recordAt bytes size = terminator)
    (readable : forall index, index < size -> Readable bytes index) :
    ∃ instructions, ReadsUpTo bytes size instructions := by
  rcases exists_reads readable with ⟨instructions, length, reads⟩
  exact ⟨instructions, terminated, length, reads⟩

section Whole

variable {bytes : List UInt8} {size : Nat} {instructions : List Instruction}

theorem ReadsUpTo.decodeFrom (upTo : ReadsUpTo bytes size instructions) :
    Records.decodeFrom 0 bytes = .ok instructions := by
  rw [decodeFrom_zero_of_reads upTo.reads, upTo.length,
    decodeFrom_of_terminator upTo.terminated]
  exact congrArg _ (List.append_nil instructions)

theorem ReadsUpTo.decode (upTo : ReadsUpTo bytes size instructions) :
    Records.decode bytes =
      match firstEscape? size 0 instructions with
      | some error => .error error
      | none => .ok (programOf instructions) := by
  cases found : firstEscape? size 0 instructions with
  | none => simp only [Records.decode, upTo.decodeFrom, upTo.length, found]
  | some error => simp only [Records.decode, upTo.decodeFrom, upTo.length, found]

/-- Where a record jumps to is where its instruction leads. -/
theorem ReadsUpTo.leads_iff (upTo : ReadsUpTo bytes size instructions) {index target : Nat} :
    instructions[index]?.bind Instruction.label? = some target <->
      index < size ∧ ∃ operation, Holds bytes index operation target ∧
        operation.isJump = true := by
  constructor
  · intro leads
    rcases Option.bind_eq_some_iff.mp leads with ⟨instruction, fetched, labelled⟩
    have reads := upTo.reads index instruction fetched
    rcases reads.told with ⟨operation, operand, holds, tells⟩
    rcases (reads.label?_eq_some_iff holds).mp labelled with ⟨jumps, rfl⟩
    refine ⟨?_, operation, holds, jumps⟩
    rw [← upTo.length]
    exact (List.getElem?_eq_some_iff.mp fetched).1
  · rintro ⟨inside, operation, holds, jumps⟩
    rw [← upTo.length] at inside
    rw [List.getElem?_eq_getElem inside, Option.bind_some]
    have reads := upTo.reads index _ (List.getElem?_eq_getElem inside)
    exact (reads.label?_eq_some_iff holds).mpr ⟨jumps, rfl⟩

/-- Bytes of a program are read as its instructions. -/
theorem Accepted.decode (accepted : Accepted bytes size) :
    ∃ instructions, ReadsUpTo bytes size instructions ∧
      Records.decode bytes = .ok (programOf instructions) := by
  have readable : forall index, index < size -> Readable bytes index := by
    intro index inside
    rcases accepted.records index inside with ⟨operation, operand, holds, named, _⟩
    exact ⟨accepted.first index inside, operation, operand, holds, named⟩
  rcases exists_readsUpTo accepted.terminated readable with ⟨instructions, upTo⟩
  refine ⟨instructions, upTo, ?_⟩
  rw [upTo.decode]
  cases found : firstEscape? size 0 instructions with
  | none => rfl
  | some error =>
      rcases escapes_of_firstEscape? found with ⟨place, target, _, escapes⟩
      rcases upTo.leads_iff.mp escapes.leads with ⟨inside, operation, holds, jumps⟩
      rcases accepted.records place inside with ⟨other, operand, holdsOther, _, stays⟩
      rcases holds.unique holdsOther with ⟨rfl, rfl⟩
      exact absurd (stays jumps) (Nat.not_le_of_lt escapes.beyond)

/-- An error behind records of instructions is the error of the whole. -/
theorem decode_of_error {index : Nat} {error : ProgramError}
    (readable : forall earlier, earlier < index -> Readable bytes earlier)
    (fails : decodeFrom index (bytes.drop (4 * index)) = .error error) :
    decode bytes = .error error := by
  rcases exists_reads readable with ⟨instructions, length, reads⟩
  rw [decode, decodeFrom_zero_of_reads reads, length, fails]
  rfl

theorem decodeFrom_of_unknown {index : Nat} {low middle high code : UInt8}
    (found : recordAt bytes index = [low, middle, high, code])
    (unknown : forall operation, opcodeByte operation ≠ code) :
    decodeFrom index (bytes.drop (4 * index)) = .error (.unknownOpcode code index) := by
  have other : [low, middle, high, code] ≠ terminator := by
    intro same
    simp only [terminator, List.cons.injEq, and_true] at same
    exact unknown .jmp same.2.2.2.symm
  have none : opcodeOfByte? code = none := by
    cases known : opcodeOfByte? code with
    | none => rfl
    | some operation => exact absurd (opcodeOfByte?_eq_some_iff.mp known) (unknown operation)
  rw [drop_eq_recordAt_append, found]
  simp only [List.cons_append, List.nil_append, decodeFrom, if_neg other, decodeRecord, none]

theorem decodeFrom_of_short {index : Nat} {rest : List UInt8} (begun : 0 < rest.length)
    (short : rest.length < 4) :
    decodeFrom index rest = .error (.truncatedRecord (4 * index)) := by
  match rest, begun, short with
  | [_], _, _ => rfl
  | [_, _], _, _ => rfl
  | [_, _, _], _, _ => rfl

/-- Bytes that are refused are read with the error of their reason. -/
theorem Refused.decode {error : ProgramError} (refused : Refused bytes error) :
    Records.decode bytes = .error error := by
  cases refused with
  | unknownOpcode index low middle high code readable found unknown =>
      exact decode_of_error readable (decodeFrom_of_unknown found unknown)
  | storageOutOfRange index operation operand readable holds unnamed =>
      refine decode_of_error readable ?_
      have other : recordAt bytes index ≠ terminator := by
        rw [holds.found]
        intro same
        rcases (record_eq_terminator_iff (Int.ofNat_le.mpr holds.fits)).mp same with ⟨rfl, _⟩
        exact unnamed (by simp [Opcode.NamesSlot])
      rw [decodeFrom_of_holds other holds, (Instruction.ofParts?_eq_none_iff holds.fits).mpr unnamed]
  | truncatedRecord index readable begun short =>
      refine decode_of_error readable (decodeFrom_of_short ?_ ?_)
      · rw [List.length_drop]
        omega
      · rw [List.length_drop]
        omega
  | missingTerminator index readable ended =>
      refine decode_of_error readable ?_
      rw [List.drop_eq_nil_of_le (Nat.le_of_eq ended)]
      rfl
  | invalidJumpTarget size index operation operand terminated readable inside holds jumps beyond
      first =>
      rcases exists_readsUpTo terminated readable with ⟨instructions, upTo⟩
      have escapes : Escapes size instructions index operand := by
        refine ⟨upTo.leads_iff.mpr ⟨inside, operation, holds, jumps⟩, beyond, ?_⟩
        intro earlier label before leads
        rcases upTo.leads_iff.mp leads with ⟨_, other, holdsOther, jumpsOther⟩
        exact first earlier other label before holdsOther jumpsOther
      rw [upTo.decode, firstEscape?_of_escapes escapes]

/-! Bytes are accepted or refused. -/

theorem length_recordAt (bytes : List UInt8) (index : Nat) :
    (recordAt bytes index).length = min 4 (bytes.length - 4 * index) := by
  rw [recordAt, List.length_take, List.length_drop]

/-- A record of an instruction lies inside the bytes. -/
theorem Readable.le_length {index : Nat} (readable : Readable bytes index) :
    4 * (index + 1) ≤ bytes.length := by
  rcases readable.held with ⟨operation, operand, holds, _⟩
  have four : (recordAt bytes index).length = 4 := by
    rw [holds.found]
    rfl
  rw [length_recordAt] at four
  omega

theorem readable_or_first_unreadable (bytes : List UInt8) (count : Nat) :
    (forall index, index < count -> Readable bytes index) ∨
      ∃ index, (forall earlier, earlier < index -> Readable bytes earlier) ∧
        ¬ Readable bytes index := by
  induction count with
  | zero =>
      left
      intro index inside
      cases inside
  | succ count inductionHypothesis =>
      rcases inductionHypothesis with readable | flawed
      · by_cases last : Readable bytes count
        · left
          intro index inside
          rcases Nat.lt_succ_iff_lt_or_eq.mp inside with before | rfl
          · exact readable index before
          · exact last
        · exact Or.inr ⟨count, readable, last⟩
      · exact Or.inr flawed

/-- The bytes are finite, so some record is the first that is of no instruction. -/
theorem exists_first_unreadable (bytes : List UInt8) :
    ∃ index, (forall earlier, earlier < index -> Readable bytes earlier) ∧
      ¬ Readable bytes index := by
  rcases readable_or_first_unreadable bytes (bytes.length + 1) with readable | flawed
  · have inside := (readable bytes.length (Nat.lt_succ_self _)).le_length
    omega
  · exact flawed

theorem accepted_or_refused_of_terminated
    (terminated : recordAt bytes size = terminator)
    (readable : forall index, index < size -> Readable bytes index) :
    Accepted bytes size ∨ ∃ error, Refused bytes error := by
  rcases exists_readsUpTo terminated readable with ⟨instructions, upTo⟩
  cases found : firstEscape? size 0 instructions with
  | none =>
      left
      refine ⟨terminated, fun index inside => (readable index inside).other, ?_⟩
      intro index inside
      rcases (readable index inside).held with ⟨operation, operand, holds, named⟩
      refine ⟨operation, operand, holds, named, fun jumps => ?_⟩
      have leads := upTo.leads_iff.mpr ⟨inside, operation, holds, jumps⟩
      rcases Option.bind_eq_some_iff.mp leads with ⟨instruction, fetched, labelled⟩
      exact (firstEscape?_eq_none_iff size 0 instructions).mp found instruction
        (List.mem_of_getElem? fetched) operand labelled
  | some error =>
      right
      rcases escapes_of_firstEscape? found with ⟨place, target, _, escapes⟩
      rcases upTo.leads_iff.mp escapes.leads with ⟨inside, operation, holds, jumps⟩
      refine ⟨_, .invalidJumpTarget size place operation target terminated readable inside holds
        jumps escapes.beyond ?_⟩
      intro earlier other operand before holdsOther jumpsOther
      exact escapes.first earlier operand before (upTo.leads_iff.mpr
        ⟨Nat.lt_trans before inside, other, holdsOther, jumpsOther⟩)

/-- The first record that is of no instruction tells whether the bytes are those of a program,
and why not. -/
theorem accepted_or_refused (bytes : List UInt8) :
    (∃ size, Accepted bytes size) ∨ ∃ error, Refused bytes error := by
  rcases exists_first_unreadable bytes with ⟨index, readable, flawed⟩
  have reached : 4 * index ≤ bytes.length := by
    cases index with
    | zero => exact Nat.zero_le _
    | succ index => exact (readable index (Nat.lt_succ_self index)).le_length
  by_cases short : bytes.length < 4 * (index + 1)
  · right
    rcases Nat.eq_or_lt_of_le reached with ended | begun
    · exact ⟨_, .missingTerminator index readable ended.symm⟩
    · exact ⟨_, .truncatedRecord index readable begun short⟩
  · have four : (recordAt bytes index).length = 4 := by
      rw [length_recordAt]
      omega
    by_cases terminated : recordAt bytes index = terminator
    · rcases accepted_or_refused_of_terminated terminated readable with accepted | refused
      · exact Or.inl ⟨index, accepted⟩
      · exact Or.inr refused
    · right
      match found : recordAt bytes index, four with
      | [low, middle, high, code], _ =>
          cases known : opcodeOfByte? code with
          | none =>
              refine ⟨_, .unknownOpcode index low middle high code readable found ?_⟩
              intro operation same
              rw [opcodeOfByte?_eq_some_iff.mpr same] at known
              cases known
          | some operation =>
              have holds : Holds bytes index operation (operandOfBytes low middle high) := by
                refine ⟨operandOfBytes_le low middle high, ?_⟩
                rw [found, record_operandOfBytes, opcodeOfByte?_eq_some_iff.mp known]
              refine ⟨_, .storageOutOfRange index operation _ readable holds ?_⟩
              intro named
              exact flawed ⟨terminated, operation, _, holds, named⟩

end Whole

/-- Reading fails exactly for the reason why the bytes are refused. -/
theorem decode_eq_error_iff {bytes : List UInt8} {error : ProgramError} :
    decode bytes = .error error <-> Refused bytes error := by
  constructor
  · intro failed
    rcases accepted_or_refused bytes with ⟨size, accepted⟩ | ⟨other, refused⟩
    · rcases accepted.decode with ⟨instructions, _, succeeded⟩
      rw [failed] at succeeded
      cases succeeded
    · have same := refused.decode
      rw [failed] at same
      cases same
      exact refused
  · exact Refused.decode

/-- A jump past the end is no reason as long as a later record is of no instruction. -/
example : decode [9, 0, 0, 255, 0, 0, 0, 99] = .error (.unknownOpcode 99 1) := rfl

/-- Whatever is read has been accepted, and is what the records say. -/
theorem exists_readsUpTo_of_decode {bytes : List UInt8} {program : Program}
    (decoded : decode bytes = .ok program) :
    Accepted bytes program.size ∧ ∃ instructions, ReadsUpTo bytes program.size instructions ∧
      program = programOf instructions := by
  rcases accepted_or_refused bytes with ⟨size, accepted⟩ | ⟨error, refused⟩
  · rcases accepted.decode with ⟨instructions, upTo, succeeded⟩
    rw [decoded] at succeeded
    cases succeeded
    have same : (programOf instructions).size = size := upTo.length
    rw [same]
    exact ⟨accepted, instructions, upTo, rfl⟩
  · have failed := refused.decode
    rw [decoded] at failed
    cases failed

end Records
end HangulPane
