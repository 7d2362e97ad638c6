import HangulPane.Proofs.Machine.Ending

namespace HangulPane

/-!
Programs that hold the same instructions.

A stored form keeps the operation, the literal or slot, and the destination of every
instruction.  These parts make up the instruction again, and labels are only names for
destinations: programs that agree in all parts have the same linked code, and linked code
is all that a run depends on.
-/

namespace Instruction

theorem hasSlot_mapLabel (rename : Nat -> Nat) (instruction : Instruction) :
    (instruction.mapLabel rename).hasSlot = instruction.hasSlot := by
  cases instruction <;> rfl

theorem mapLabel_of_label? {instruction : Instruction} {rename : Nat -> Nat}
    (own : forall label, instruction.label? = some label -> rename label = label) :
    instruction.mapLabel rename = instruction := by
  cases instruction with
  | brz label | brPop1 label | brPop2 label | jmp label => exact congrArg _ (own label rfl)
  | _ => rfl

theorem isSome_ofByte?_iff (slot : UInt8) :
    (Slot.ofByte? slot).isSome = true <-> slot.toNat < slotCount := by
  unfold Slot.ofByte?
  split <;> simp [*]

theorem slot?_of_toInt_eq {operand : Int64} {slot : UInt8}
    (named : (Slot.ofByte? slot).isSome = true) (own : operand.toInt = slot.toNat) :
    slot? operand = some slot := by
  have small := (isSome_ofByte?_iff slot).mp named
  have bounds : 0 ≤ operand.toInt ∧ operand.toInt < slotCount := by omega
  rw [slot?, if_pos bounds, own, Int.toNat_natCast, UInt8.ofNat_toNat]

theorem isSome_ofByte?_of_slot? {operand : Int64} {slot : UInt8}
    (found : slot? operand = some slot) : (Slot.ofByte? slot).isSome = true := by
  unfold slot? at found
  split at found
  · rename_i inside
    cases found
    have small : operand.toInt.toNat < slotCount := by omega
    apply (isSome_ofByte?_iff _).mpr
    rw [UInt8.toNat_ofNat_of_lt' (Nat.lt_trans small (by decide))]
    exact small
  · contradiction

/-- An instruction is made of its operation and its literal or slot; where it has a label
instead, the operand becomes the label. -/
theorem ofParts?_opcode {instruction : Instruction} {operand : Int64}
    (named : instruction.hasSlot = true)
    (own : forall value, instruction.value? = some value -> operand.toInt = value) :
    ofParts? instruction.opcode operand = some (instruction.withLabel operand.toInt.toNat) := by
  cases instruction with
  | push literal =>
      have same : operand = literal := Int64.toInt_inj.mp (own _ rfl)
      rw [same]
      rfl
  | sel slot | mov slot =>
      have found := slot?_of_toInt_eq named (own _ rfl)
      simp [ofParts?, opcode, found, withLabel, mapLabel]
  | _ => rfl

/-- Made of its parts, an instruction has the operation it was made of, and the storage that
it names exists. -/
theorem opcode_of_ofParts? {operation : Opcode} {operand : Int64} {instruction : Instruction}
    (made : ofParts? operation operand = some instruction) :
    instruction.opcode = operation ∧ instruction.hasSlot = true := by
  cases operation with
  | sel | mov =>
      rcases Option.map_eq_some_iff.mp made with ⟨slot, found, rfl⟩
      exact ⟨rfl, isSome_ofByte?_of_slot? found⟩
  | _ =>
      cases made
      exact ⟨rfl, rfl⟩

theorem isJump_opcode (instruction : Instruction) :
    instruction.opcode.isJump = instruction.label?.isSome := by
  cases instruction <;> rfl

end Instruction

namespace Program

/-- Whether two programs hold the same instructions, whatever their labels are called. -/
structure Agrees (left right : Program) : Prop where
  size : left.size = right.size
  opcode : forall index : Nat,
    left.code[index]?.map Instruction.opcode = right.code[index]?.map Instruction.opcode
  value : forall index : Nat,
    left.code[index]?.bind Instruction.value? = right.code[index]?.bind Instruction.value?
  target : forall index, left.jumpTarget? index = right.jumpTarget? index

theorem size_linked (program : Program) : program.linked.size = program.size :=
  Array.size_map ..

theorem opcode_linked (program : Program) (index : Nat) :
    program.linked[index]?.map Instruction.opcode =
      program.code[index]?.map Instruction.opcode := by
  rw [getElem?_linked]
  cases program.code[index]? with
  | none => rfl
  | some instruction => simp

theorem value?_linked (program : Program) (index : Nat) :
    program.linked[index]?.bind Instruction.value? =
      program.code[index]?.bind Instruction.value? := by
  rw [getElem?_linked]
  cases program.code[index]? with
  | none => rfl
  | some instruction => simp

theorem label?_linked (program : Program) (index : Nat) :
    program.linked[index]?.bind Instruction.label? = program.jumpTarget? index := by
  rw [getElem?_linked, jumpTarget?]
  cases program.code[index]? with
  | none => rfl
  | some instruction => simp

theorem target_of_find? {program : Program} {label target : Nat}
    (found : program.labels.find? label = some target) : program.target label = target := by
  rw [Program.target, found, Option.getD_some]

theorem mem_referredLabels {program : Program} {label : Nat} :
    label ∈ program.referredLabels <->
      ∃ instruction, instruction ∈ program.code ∧ instruction.label? = some label := by
  simp only [referredLabels, List.mem_filterMap, Array.mem_toList_iff]

theorem mem_referredLabels_iff_getElem? {program : Program} {label : Nat} :
    label ∈ program.referredLabels <->
      ∃ (index : Nat) (instruction : Instruction), program.code[index]? = some instruction ∧
        instruction.label? = some label := by
  rw [mem_referredLabels]
  constructor
  · rintro ⟨instruction, member, labelled⟩
    rcases Array.getElem?_of_mem member with ⟨index, fetched⟩
    exact ⟨index, instruction, fetched, labelled⟩
  · rintro ⟨index, instruction, fetched, labelled⟩
    exact ⟨instruction, Array.mem_of_getElem? fetched, labelled⟩

theorem targetCount_pos_iff {program : Program} {index : Nat} :
    0 < program.targetCount index <-> ∃ label, program.labels.find? label = some index := by
  rw [targetCount, List.countP_pos_iff]
  constructor
  · rintro ⟨⟨label, target⟩, member, same⟩
    cases beq_iff_eq.mp same
    exact ⟨label, (Table.mem_entries_iff ..).mp member⟩
  · rintro ⟨label, found⟩
    exact ⟨(label, index), (Table.mem_entries_iff ..).mpr found, beq_iff_eq.mpr rfl⟩

/-- Where the labels that are referred to are bound, and stand for every index that any label
stands for, the linked code tells which indices have labels. -/
theorem targetCount_pos_iff_linked {program : Program}
    (bound : forall label, label ∈ program.referredLabels ->
      program.labels.find? label = some (program.target label))
    (used : forall label index, program.labels.find? label = some index ->
      ∃ other, other ∈ program.referredLabels ∧ program.target other = index) (index : Nat) :
    0 < program.targetCount index <->
      ∃ place : Nat, program.linked[place]?.bind Instruction.label? = some index := by
  simp only [label?_linked, jumpTarget?, Option.map_eq_some_iff, Option.bind_eq_some_iff]
  rw [targetCount_pos_iff]
  constructor
  · rintro ⟨label, found⟩
    rcases used label index found with ⟨other, referred, leads⟩
    rcases mem_referredLabels_iff_getElem?.mp referred with
      ⟨place, instruction, fetched, labelled⟩
    exact ⟨place, other, ⟨instruction, fetched, labelled⟩, leads⟩
  · rintro ⟨place, label, ⟨instruction, fetched, labelled⟩, leads⟩
    have referred := mem_referredLabels_iff_getElem?.mpr ⟨place, instruction, fetched, labelled⟩
    exact ⟨label, leads ▸ bound label referred⟩

variable {left right : Program}

theorem agrees_of_linked_eq (same : left.linked = right.linked) : left.Agrees right where
  size := by rw [← size_linked, same, size_linked]
  opcode := by
    intro index
    rw [← opcode_linked, same, opcode_linked]
  value := by
    intro index
    rw [← value?_linked, same, value?_linked]
  target := by
    intro index
    rw [← label?_linked, same, label?_linked]

theorem run_eq_of_linked_eq {N : Type} [Number N] (same : left.linked = right.linked)
    (bound : Nat) (console : Console) :
    (Machine.run left bound console : Run N) = Machine.run right bound console := by
  rw [Machine.run, Machine.run, same]

theorem trace_eq_of_linked_eq {N : Type} [Number N] (same : left.linked = right.linked)
    (bound : Nat) (console : Console) :
    (Machine.trace left bound console : List (Snapshot N) × Console) =
      Machine.trace right bound console := by
  rw [Machine.trace, Machine.trace, same]

end Program
end HangulPane
