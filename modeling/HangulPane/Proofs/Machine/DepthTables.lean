import HangulPane.Proofs.Machine.Ending
import HangulPane.Proofs.Program.Depth

namespace HangulPane

/-!
The depth tables say what the machine does.

Guards, both depth analyses and the machine itself rely on three tables: how many values an
operation needs, how many it takes and how many it gives.  A step that finds fewer values than
the first table asks for ends before it touches any storage, and no operation on a storage ever
finds too few.  A step that succeeds changes the depth of the storage that was selected by what
it gives less what it takes, whatever kind of storage it is; a move also gives one value to
another storage, and all else stays as it was.
-/

/-- Whether a fault is that of a storage with too few values. -/
def Fault.isUnderflow : Fault -> Bool
  | .underflow .. => true
  | _ => false

/-- Whether an instruction moves a value to the given storage. -/
def Instruction.movesTo (instruction : Instruction) (slot : Slot) : Bool :=
  match instruction with
  | .mov byte => decide (byte.toNat = slot.val)
  | _ => false

/-- No operation takes more values than it needs. -/
theorem Opcode.taken_le_requiredDepth (operation : Opcode) :
    operation.taken ≤ operation.requiredDepth := by
  cases operation <;> decide

theorem Opcode.taken_of_isGuard {operation : Opcode} (guards : operation.isGuard = true) :
    operation.taken = 0 := by
  cases operation with
  | brPop1 | brPop2 => rfl
  | _ => cases guards

namespace Machine

variable {N : Type}

/-- Whether a step of a machine does what the depth tables say of its instruction. -/
structure KeepsDepthTables [Number N] (instruction : Instruction) (machine : Machine N)
    (console : Console) (stepped : Stepped N) : Prop where
  /-- Too few values are a fault unless the instruction is there to test for them. -/
  underflows : (∃ fault, stepped.result = .error fault ∧ fault.isUnderflow = true) <->
    instruction.opcode.isGuard = false ∧
      machine.space.size < instruction.opcode.requiredDepth
  /-- The fault tells what was needed and what was there, and nothing has happened yet. -/
  reported : forall fault, stepped.result = .error fault -> fault.isUnderflow = true ->
    stepped = machine.fail console (.underflow machine.index machine.selected.val
      instruction.opcode.requiredDepth machine.space.size)
  /-- With enough values no operation on a storage finds too few. -/
  performed : instruction.opcode.requiredDepth ≤ machine.space.size ->
    forall fault, (machine.perform console instruction).result = .error fault ->
      fault.isUnderflow = false
  selected : forall progress, stepped.result = .ok progress ->
    (stepped.machine.storage.get machine.selected).size + instruction.opcode.taken =
      machine.space.size + instruction.opcode.given +
        if instruction.movesTo machine.selected then 1 else 0
  moved : forall progress slot, stepped.result = .ok progress ->
    slot ≠ machine.selected -> instruction.movesTo slot = true ->
    (stepped.machine.storage.get slot).size = (machine.storage.get slot).size + 1
  others : forall progress slot, stepped.result = .ok progress ->
    slot ≠ machine.selected -> instruction.movesTo slot = false ->
    stepped.machine.storage.get slot = machine.storage.get slot

section Alterations

variable {instruction : Instruction} {machine next : Machine N}

theorem movesTo_of_ofByte? {byte : UInt8} {slot : Slot} (named : Slot.ofByte? byte = some slot)
    (other : Slot) : (Instruction.mov byte).movesTo other = decide (slot = other) := by
  rw [Instruction.movesTo, ← Slot.val_of_ofByte? named]
  simp [Fin.ext_iff]

theorem movesTo_of_ne_mov (notMove : forall byte, instruction ≠ .mov byte) (slot : Slot) :
    instruction.movesTo slot = false := by
  cases instruction with
  | mov byte => exact absurd rfl (notMove byte)
  | _ => rfl

/-- The depth of the storage that was selected changes by what the operation gives and takes. -/
theorem Alters.size_selected (alters : Alters instruction machine next)
    (enough : instruction.opcode.taken ≤ machine.space.size) :
    (next.storage.get machine.selected).size + instruction.opcode.taken =
      machine.space.size + instruction.opcode.given +
        if instruction.movesTo machine.selected then 1 else 0 := by
  rcases alters with ⟨space, notSelect, notMove, becomes, size, kind⟩ |
    ⟨byte, slot, rfl, named, becomes⟩ | ⟨byte, slot, value, rest, rfl, named, popped, becomes⟩
  · have held : next.storage.get machine.selected = space := by
      rw [becomes]
      exact Storage.get_set_self ..
    rw [held, size, Program.depthAfter, movesTo_of_ne_mov notMove]
    simp only [Bool.false_eq_true, if_false]
    omega
  · rw [becomes]
    rfl
  · have sizes := (Space.size_of_pop popped).1
    rw [becomes, movesTo_of_ofByte? named]
    change 1 ≤ machine.space.size at enough
    change _ + 1 = machine.space.size + 0 + _
    by_cases same : slot = machine.selected
    · subst same
      simp only [Storage.get_set_self, Space.size_push, decide_true, if_true]
      omega
    · rw [Storage.get_set_of_ne _ _ same, Storage.get_set_self, sizes]
      simp only [same, decide_false, Bool.false_eq_true, if_false]
      omega

/-- A move gives one value to the storage that it names. -/
theorem Alters.size_moved (alters : Alters instruction machine next) {slot : Slot}
    (apart : slot ≠ machine.selected) (moves : instruction.movesTo slot = true) :
    (next.storage.get slot).size = (machine.storage.get slot).size + 1 := by
  rcases alters with ⟨space, notSelect, notMove, becomes, size, kind⟩ |
    ⟨byte, other, rfl, named, becomes⟩ | ⟨byte, other, value, rest, rfl, named, popped, becomes⟩
  · rw [movesTo_of_ne_mov notMove] at moves
    cases moves
  · cases moves
  · rw [movesTo_of_ofByte? named, decide_eq_true_eq] at moves
    subst moves
    rw [becomes]
    simp only [Storage.get_set_self, Space.size_push]
    rw [Storage.get_set_of_ne _ _ (Ne.symm apart)]

/-- A storage that is neither selected nor moved to stays as it was. -/
theorem Alters.get_other (alters : Alters instruction machine next) {slot : Slot}
    (apart : slot ≠ machine.selected) (stays : instruction.movesTo slot = false) :
    next.storage.get slot = machine.storage.get slot := by
  rcases alters with ⟨space, notSelect, notMove, becomes, size, kind⟩ |
    ⟨byte, other, rfl, named, becomes⟩ | ⟨byte, other, value, rest, rfl, named, popped, becomes⟩
  · rw [becomes]
    exact Storage.get_set_of_ne _ _ (Ne.symm apart)
  · rw [becomes]
  · rw [movesTo_of_ofByte? named, decide_eq_false_iff_not] at stays
    rw [becomes]
    dsimp only
    rw [Storage.get_set_of_ne _ _ stays, Storage.get_set_of_ne _ _ (Ne.symm apart)]

end Alterations

variable [Number N] {instruction : Instruction} {machine : Machine N} {console : Console}

/-- With too few values a guard jumps, and all else ends before anything happens. -/
theorem execute_of_short (console : Console)
    (short : machine.space.size < instruction.opcode.requiredDepth) :
    (instruction.opcode.isGuard = true ∧
        ∃ target, machine.execute console instruction = machine.jump console target) ∨
      instruction.opcode.isGuard = false ∧ machine.execute console instruction =
        machine.fail console (.underflow machine.index machine.selected.val
          instruction.opcode.requiredDepth machine.space.size) := by
  unfold execute
  dsimp only
  rw [if_pos short]
  cases instruction with
  | brPop1 target | brPop2 target => exact Or.inl ⟨rfl, target, rfl⟩
  | _ => exact Or.inr ⟨rfl, rfl⟩

theorem execute_of_enough (enough : instruction.opcode.requiredDepth ≤ machine.space.size) :
    machine.execute console instruction = machine.perform console instruction :=
  if_neg (Nat.not_lt.mpr enough)

/-- An instruction that finds enough values does not fail for want of values: if the storage
that it names exists, then for a reason that lies in the values or in the console, and otherwise
because of that storage. -/
theorem isUnderflow_perform (enough : instruction.opcode.requiredDepth ≤ machine.space.size)
    {fault : Fault} (failed : (machine.perform console instruction).result = .error fault) :
    fault.isUnderflow = false := by
  cases named : instruction.hasSlot with
  | true =>
      have limits : Number.Overflows N true := fun _ _ _ _ => rfl
      have admissible := isAdmissible_perform limits enough named failed
      cases fault with
      | underflow => cases admissible
      | _ => rfl
  | false =>
      cases instruction with
      | sel byte | mov byte =>
          have missing : Slot.ofByte? byte = none := by
            simpa [Instruction.hasSlot] using named
          simp only [perform, select, move, missing, fail, Except.error.injEq] at failed
          rw [← failed]
          rfl
      | _ => cases named

/-- A step that succeeds has found what its operation takes. -/
theorem taken_le_of_ok {progress : Progress}
    (succeeded : (machine.execute console instruction).result = .ok progress) :
    instruction.opcode.taken ≤ machine.space.size := by
  by_cases short : machine.space.size < instruction.opcode.requiredDepth
  · rcases execute_of_short console short with ⟨guards, _⟩ | ⟨_, failed⟩
    · rw [Opcode.taken_of_isGuard guards]
      exact Nat.zero_le _
    · rw [failed] at succeeded
      cases succeeded
  · exact Nat.le_trans instruction.opcode.taken_le_requiredDepth (Nat.le_of_not_lt short)

/-- A step that succeeds alters the machine as its instruction says; a halt alters nothing. -/
theorem alters_of_ok {progress : Progress}
    (succeeded : (machine.execute console instruction).result = .ok progress) :
    Alters instruction machine (machine.execute console instruction).machine := by
  cases progress with
  | continued => exact alters_execute (Or.inl succeeded)
  | jumped => exact alters_execute (Or.inr succeeded)
  | halted =>
      have halts := eq_halt_of_halted succeeded
      subst halts
      exact .idle machine.index (by simp) (by simp) rfl

/-- An instruction that underflows is no guard and has found too few values. -/
theorem short_of_underflow {fault : Fault}
    (failed : (machine.execute console instruction).result = .error fault)
    (underflow : fault.isUnderflow = true) :
    instruction.opcode.isGuard = false ∧
      machine.space.size < instruction.opcode.requiredDepth := by
  by_cases short : machine.space.size < instruction.opcode.requiredDepth
  · rcases execute_of_short console short with ⟨_, target, jumps⟩ | ⟨plain, _⟩
    · rw [jumps] at failed
      cases failed
    · exact ⟨plain, short⟩
  · have enough := Nat.le_of_not_lt short
    rw [execute_of_enough enough] at failed
    rw [isUnderflow_perform enough failed] at underflow
    cases underflow

theorem execute_of_underflows (plain : instruction.opcode.isGuard = false)
    (short : machine.space.size < instruction.opcode.requiredDepth) :
    machine.execute console instruction =
      machine.fail console (.underflow machine.index machine.selected.val
        instruction.opcode.requiredDepth machine.space.size) := by
  rcases execute_of_short console short with ⟨guards, _⟩ | ⟨_, fails⟩
  · rw [plain] at guards
    cases guards
  · exact fails

/-- Each step does what the depth tables say of its instruction, on a stack, the queue and the
passage alike and whichever way a branch goes. -/
theorem step_keeps_depth_tables {code : Array Instruction}
    (fetched : code[machine.index]? = some instruction) :
    KeepsDepthTables instruction machine console (machine.step code console) := by
  rw [machine.step_of_fetch console fetched]
  constructor
  · constructor
    · rintro ⟨fault, failed, underflow⟩
      exact short_of_underflow failed underflow
    · rintro ⟨plain, short⟩
      rw [execute_of_underflows plain short]
      exact ⟨_, rfl, rfl⟩
  · intro fault failed underflow
    rcases short_of_underflow failed underflow with ⟨plain, short⟩
    exact execute_of_underflows plain short
  · intro enough fault failed
    exact isUnderflow_perform enough failed
  · intro progress succeeded
    exact (alters_of_ok succeeded).size_selected (taken_le_of_ok succeeded)
  · intro progress slot succeeded apart moves
    exact (alters_of_ok succeeded).size_moved apart moves
  · intro progress slot succeeded apart stays
    exact (alters_of_ok succeeded).get_other apart stays

/-- A machine with one value on its first stack, and a console on which nothing has happened. -/
def loaded : Machine Int × Console :=
  (Machine.start.push 5, Console.start (Input.ofBytes []) none (Warnings.fresh 3 none))

/-- The value moves from the stack to the queue. -/
theorem step_keeps_depth_tables_move :
    (#[.mov 21] : Array Instruction)[loaded.1.index]? = some (.mov 21) ∧
      (loaded.1.step #[.mov 21] loaded.2).result = .ok .continued ∧
      KeepsDepthTables (.mov 21) loaded.1 loaded.2 (loaded.1.step #[.mov 21] loaded.2) :=
  ⟨rfl, rfl, step_keeps_depth_tables rfl⟩

end Machine
end HangulPane
