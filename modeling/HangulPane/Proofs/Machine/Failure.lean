import HangulPane.Proofs.Machine.DepthTables

namespace HangulPane

/-!
What a failed step leaves behind.

A step fails in one of two ways.  It is refused before it has touched a storage or written
anything: too few values are there, the storage that it names does not exist, or no number can
be read.  Or it breaks off after it has taken its operands: a combination has no value, or a
channel fails.  What it has taken is gone then, but only from the selected storage.  Either way
the machine stays at its index, with the same storage selected.
-/

/-- Whether a fault refuses an instruction: it found too few values, a storage that does not
exist, or no number. -/
def Fault.isRefusal : Fault -> Bool
  | .underflow .. | .invalidStorage .. | .invalidNumber _ => true
  | .divisionByZero _ | .moduloByZero _ | .overflow _ | .channel _ => false

namespace Space

variable {N : Type}

@[simp]
theorem withItems_items (space : Space N) : space.withItems space.items = space := by
  cases space <;> rfl

theorem keepAfterFailure_eq_withItems (space : Space N) (left : N) (rest : List N) :
    ∃ kept, kept <:+ left :: rest ∧ space.keepAfterFailure left rest = space.withItems kept := by
  cases space with
  | queue items => exact ⟨rest, List.suffix_cons left rest, rfl⟩
  | stack items | passage items lastPush => exact ⟨left :: rest, List.suffix_refl _, rfl⟩

/-- A binary operation that fails has found too few values and done nothing, or it has no value
and has lost operands. -/
theorem binary_error_cases [Number N] {space after : Space N} {operation : Opcode}
    {fault : SpaceFault} (failed : space.binary operation = (.error fault, after)) :
    after = space ∨
      ∃ reason rest, fault = .arithmetic reason ∧ rest <:+ space.items ∧
        after = space.withItems rest := by
  unfold binary at failed
  split at failed
  · rename_i right left rest items
    split at failed
    · cases failed
    · rename_i reason _
      cases failed
      rcases space.keepAfterFailure_eq_withItems left rest with ⟨kept, suffix, same⟩
      refine Or.inr ⟨reason, kept, rfl, ?_, same⟩
      rw [items]
      exact suffix.trans (List.suffix_cons right _)
  · cases failed
    exact Or.inl rfl

end Space

namespace Machine

variable {N : Type}

/-- What is known of a step of a machine that failed. -/
inductive Fails (machine : Machine N) (console : Console) (stepped : Stepped N)
    (fault : Fault) : Prop where
  /-- It was refused. -/
  | refused (same : stepped.machine = machine) (silent : stepped.console.output = console.output)
  /-- It broke off, and the selected storage has lost values from the end that gives them out. -/
  | brokeOff (rest : List N) (suffix : rest <:+ machine.space.items)
      (becomes : stepped.machine = machine.withSpace (machine.space.withItems rest))
      (late : fault.isRefusal = false)

section Failing

variable {machine : Machine N} {console : Console} {fault : Fault}

/-- Taking a value fails by refusal; if what comes after it fails, the value is gone. -/
theorem fails_popThen {next : N -> Machine N -> Stepped N}
    (later : forall value machine, (next value machine).result = .error fault ->
      (next value machine).machine = machine ∧ fault.isRefusal = false)
    (failed : (machine.popThen console next).result = .error fault) :
    Fails machine console (machine.popThen console next) fault := by
  unfold popThen Space.pop at failed ⊢
  cases items : machine.space.items with
  | nil => exact .refused rfl rfl
  | cons value rest =>
      rw [items] at failed
      rcases later _ _ failed with ⟨same, late⟩
      refine .brokeOff rest ?_ same late
      rw [items]
      exact List.suffix_cons value rest

theorem fails_proceedWith {changed : Except SpaceFault (Space N)}
    (failed : (machine.proceedWith console changed).result = .error fault) :
    Fails machine console (machine.proceedWith console changed) fault := by
  cases changed with
  | error reason => exact .refused rfl rfl
  | ok space => cases failed

theorem fails_select {byte : UInt8}
    (failed : (machine.select console byte).result = .error fault) :
    Fails machine console (machine.select console byte) fault := by
  unfold select at failed ⊢
  cases named : Slot.ofByte? byte with
  | none => exact .refused rfl rfl
  | some slot =>
      rw [named] at failed
      cases failed

theorem fails_move {byte : UInt8} (failed : (machine.move console byte).result = .error fault) :
    Fails machine console (machine.move console byte) fault := by
  unfold move at failed ⊢
  cases named : Slot.ofByte? byte with
  | none => exact .refused rfl rfl
  | some slot =>
      rw [named] at failed
      exact fails_popThen (fun _ _ failed => by cases failed) failed

theorem fails_output {write : Console -> N -> Except ChannelFault Unit × Console}
    (failed : (machine.output console write).result = .error fault) :
    Fails machine console (machine.output console write) fault := by
  refine fails_popThen ?_ failed
  intro value machine failed
  rcases attempt : write console value with ⟨reason | _, after⟩
  · rw [attempt] at failed
    cases failed
    exact ⟨rfl, rfl⟩
  · rw [attempt] at failed
    cases failed

variable [Number N]

theorem fails_combine {operation : Opcode}
    (failed : (machine.combine console operation).result = .error fault) :
    Fails machine console (machine.combine console operation) fault := by
  unfold combine at failed ⊢
  rcases combined : machine.space.binary operation with ⟨spaceFault | _, after⟩
  · rw [combined] at failed
    simp only [fail, Except.error.injEq] at failed
    rcases Space.binary_error_cases combined with rfl | ⟨reason, rest, rfl, suffix, rfl⟩
    · exact .refused machine.withSpace_space rfl
    · refine .brokeOff rest suffix rfl ?_
      rw [← failed]
      cases reason <;> rfl
  · rw [combined] at failed
    cases failed

theorem fails_inputNumber (failed : (machine.inputNumber console).result = .error fault) :
    Fails machine console (machine.inputNumber console) fault := by
  have silent := console.output_readNumber (N := N)
  unfold inputNumber at failed ⊢
  rcases read : (console.readNumber : Except ChannelFault (Option N) × Console) with
    ⟨_ | _ | value, after⟩
  · rw [read] at silent
    exact .refused rfl silent
  · rw [read] at silent
    exact .refused rfl silent
  · rw [read] at failed
    cases failed

theorem fails_inputChar (failed : (machine.inputChar console).result = .error fault) :
    Fails machine console (machine.inputChar console) fault := by
  have silent := console.output_readChar (N := N)
  unfold inputChar at failed ⊢
  rcases read : (console.readChar : Except ChannelFault N × Console) with ⟨_ | value, after⟩
  · rw [read] at silent
    exact .refused rfl silent
  · rw [read] at failed
    cases failed

/-- An instruction that fails was refused or broke off. -/
theorem fails_perform {instruction : Instruction}
    (failed : (machine.perform console instruction).result = .error fault) :
    Fails machine console (machine.perform console instruction) fault := by
  cases instruction with
  | add | sub | mul | div | mod | cmp => exact fails_combine failed
  | pop => exact fails_popThen (fun _ _ failed => by cases failed) failed
  | dup | swap => exact fails_proceedWith failed
  | sel byte => exact fails_select failed
  | mov byte => exact fails_move failed
  | brz target =>
      refine fails_popThen ?_ failed
      intro value machine failed
      split at failed <;> cases failed
  | popNum | popChar => exact fails_output failed
  | pushNum => exact fails_inputNumber failed
  | pushChar => exact fails_inputChar failed
  | push | noop | brPop1 | brPop2 | jmp | halt => cases failed

theorem fails_step {code : Array Instruction}
    (failed : (machine.step code console).result = .error fault) :
    Fails machine console (machine.step code console) fault := by
  unfold step at failed ⊢
  cases fetched : code[machine.index]? with
  | none =>
      rw [fetched] at failed
      cases failed
  | some instruction =>
      rw [fetched] at failed
      dsimp only at failed ⊢
      by_cases short : machine.space.size < instruction.opcode.requiredDepth
      · rcases execute_of_short console short with ⟨_, target, jumps⟩ | ⟨_, fails⟩
        · rw [jumps] at failed
          cases failed
        · rw [fails]
          exact .refused rfl rfl
      · have enough := Nat.le_of_not_lt short
        rw [execute_of_enough enough] at failed ⊢
        exact fails_perform failed

end Failing

/-- Whether a step that ended with a fault has left the machine where it was. -/
structure FailsInPlace (machine : Machine N) (console : Console) (stepped : Stepped N)
    (fault : Fault) : Prop where
  index : stepped.machine.index = machine.index
  selected : stepped.machine.selected = machine.selected
  /-- If the instruction was refused, no storage has changed, the last push onto the passage
  included, and nothing was written. -/
  refused : fault.isRefusal = true ->
    stepped.machine.storage = machine.storage ∧ stepped.console.output = console.output
  /-- Only the selected storage can have changed. -/
  others : forall slot, slot ≠ machine.selected ->
    stepped.machine.storage.get slot = machine.storage.get slot
  /-- What the selected storage has lost is what it would have given out first. -/
  remainder : ∃ taken, machine.space.items = taken ++ stepped.machine.space.items

/-- A step that fails leaves the machine where it was, whatever the code, the machine and the
console are. -/
theorem step_fails_in_place [Number N] {machine : Machine N} {console : Console}
    {code : Array Instruction} {fault : Fault}
    (failed : (machine.step code console).result = .error fault) :
    FailsInPlace machine console (machine.step code console) fault := by
  rcases fails_step failed with ⟨same, silent⟩ | ⟨rest, ⟨taken, suffix⟩, becomes, late⟩
  · refine ⟨?_, ?_, ?_, ?_, ?_⟩
    · rw [same]
    · rw [same]
    · intro _
      exact ⟨by rw [same], silent⟩
    · intro slot _
      rw [same]
    · exact ⟨[], by rw [same, List.nil_append]⟩
  · refine ⟨?_, ?_, ?_, ?_, ?_⟩
    · rw [becomes]
      rfl
    · rw [becomes]
      rfl
    · intro refusal
      rw [late] at refusal
      cases refusal
    · intro slot apart
      rw [becomes]
      exact Storage.get_set_of_ne _ _ (Ne.symm apart)
    · refine ⟨taken, ?_⟩
      rw [becomes, space_withSpace, ← suffix]
      cases machine.space <;> rfl

/-- A machine with a value and a zero above it on its first stack. -/
def indivisible : Machine Int :=
  (start.push 4).push 0

/-- The quotient by zero is a fault that has cost the stack its divisor. -/
theorem step_fails_in_place_div :
    (indivisible.step #[.div] loaded.2).result = .error (.divisionByZero 0) ∧
      FailsInPlace indivisible loaded.2 (indivisible.step #[.div] loaded.2) (.divisionByZero 0) :=
  ⟨rfl, step_fails_in_place rfl⟩

end Machine
end HangulPane
