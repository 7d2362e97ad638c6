import HangulPane.Program.Depth
import HangulPane.Proofs.Machine.Reindex

namespace HangulPane

/-!
What a step does to the storages.

A step that goes on either works on the selected storage alone, or selects another one,
or moves a value.  The depth of the selected storage changes as the tables of operations
say, and no storage changes its kind.
-/

/-- The kinds of storages. -/
inductive SpaceKind where
  | stack
  | queue
  | passage
  deriving DecidableEq

namespace Space

variable {N : Type}

/-- The kind of a storage. -/
def kind : Space N -> SpaceKind
  | .stack _ => .stack
  | .queue _ => .queue
  | .passage _ _ => .passage

@[simp]
theorem kind_withItems (items : List N) (space : Space N) :
    (space.withItems items).kind = space.kind := by
  cases space <;> rfl

@[simp]
theorem kind_push (value : N) (space : Space N) : (space.push value).kind = space.kind := by
  cases space <;> rfl

@[simp]
theorem kind_putResult (value : N) (rest : List N) (space : Space N) :
    (space.putResult value rest).kind = space.kind := by
  cases space <;> rfl

@[simp]
theorem size_withItems (items : List N) (space : Space N) :
    (space.withItems items).size = items.length := by
  cases space <;> rfl

@[simp]
theorem size_push (value : N) (space : Space N) : (space.push value).size = space.size + 1 := by
  cases space <;> simp [push, size, items]

@[simp]
theorem size_putResult (value : N) (rest : List N) (space : Space N) :
    (space.putResult value rest).size = rest.length + 1 := by
  cases space <;> simp [putResult, withItems, size, items]

theorem size_of_items {space : Space N} {items : List N} (holds : space.items = items) :
    space.size = items.length :=
  congrArg List.length holds

theorem size_of_pop {space rest : Space N} {value : N} (popped : space.pop = .ok (value, rest)) :
    rest.size = space.size - 1 ∧ rest.kind = space.kind := by
  unfold pop at popped
  split at popped
  · contradiction
  · rename_i items
    cases popped
    simp [size_of_items items]

theorem size_of_dup {space doubled : Space N} (done : space.dup = .ok doubled) :
    doubled.size = space.size - 1 + 2 ∧ doubled.kind = space.kind := by
  unfold dup at done
  split at done
  · contradiction
  · rename_i items
    cases done
    simp [size_of_items items]

theorem size_of_swap {space swapped : Space N} (done : space.swap = .ok swapped) :
    swapped.size = space.size - 2 + 2 ∧ swapped.kind = space.kind := by
  unfold swap at done
  split at done
  · rename_i items
    cases done
    simp [size_of_items items]
  · contradiction

theorem size_of_binary [Number N] {space combined : Space N} {operation : Opcode}
    (done : space.binary operation = (.ok (), combined)) :
    combined.size = space.size - 2 + 1 ∧ combined.kind = space.kind := by
  unfold binary at done
  split at done
  · rename_i items
    split at done
    · cases done
      simp [size_of_items items]
    · simp at done
  · simp at done

end Space

namespace Machine

variable {N : Type}

@[simp]
theorem withSpace_space (machine : Machine N) : machine.withSpace machine.space = machine := by
  simp [withSpace, space, Storage.get, Storage.set]

@[simp]
theorem space_withSpace (machine : Machine N) (space : Space N) :
    (machine.withSpace space).space = space := by
  simp [Machine.space, withSpace]

@[simp]
theorem withSpace_withSpace (machine : Machine N) (first second : Space N) :
    (machine.withSpace first).withSpace second = machine.withSpace second := by
  simp [withSpace, Storage.set]

@[simp]
theorem withSpace_movedTo (machine : Machine N) (space : Space N) (index : Nat) :
    (machine.movedTo index).withSpace space = (machine.withSpace space).movedTo index := rfl

/-- What a step that goes on makes of a machine, apart from its index. -/
inductive Alters (instruction : Instruction) (machine next : Machine N) : Prop where
  /-- The selected storage is worked on. -/
  | works (space : Space N) (notSelect : forall byte, instruction ≠ .sel byte)
      (notMove : forall byte, instruction ≠ .mov byte)
      (becomes : next = (machine.withSpace space).movedTo next.index)
      (size : space.size = Program.depthAfter instruction machine.space.size)
      (kind : space.kind = machine.space.kind)
  /-- Another storage is selected. -/
  | selects (byte : UInt8) (slot : Slot) (is : instruction = .sel byte)
      (named : Slot.ofByte? byte = some slot)
      (becomes : next = { machine with selected := slot, index := next.index })
  /-- A value moves from the selected storage to another one. -/
  | moves (byte : UInt8) (slot : Slot) (value : N) (rest : Space N) (is : instruction = .mov byte)
      (named : Slot.ofByte? byte = some slot) (popped : machine.space.pop = .ok (value, rest))
      (becomes : next =
        { machine with
          storage := (machine.storage.set machine.selected rest).set slot
            (((machine.storage.set machine.selected rest).get slot).push value)
          index := next.index })

/-- Nothing but the index changes. -/
theorem Alters.idle {instruction : Instruction} {machine : Machine N} (index : Nat)
    (notSelect : forall byte, instruction ≠ .sel byte)
    (notMove : forall byte, instruction ≠ .mov byte)
    (same : Program.depthAfter instruction machine.space.size = machine.space.size) :
    Alters instruction machine (machine.movedTo index) :=
  .works machine.space notSelect notMove (by simp) same.symm rfl

/-- Labels have no part in what an instruction makes of the storages. -/
theorem Alters.of_mapLabel {rename : Nat -> Nat} {instruction : Instruction}
    {machine next : Machine N} (alters : Alters (instruction.mapLabel rename) machine next) :
    Alters instruction machine next := by
  cases instruction with
  | brz | brPop1 | brPop2 | jmp =>
      rcases alters with ⟨space, notSelect, notMove, becomes, size, kind⟩ |
        ⟨byte, slot, is, named, becomes⟩ | ⟨byte, slot, value, rest, is, named, popped, becomes⟩
      · exact .works space (by simp) (by simp) becomes size kind
      · simp [Instruction.mapLabel] at is
      · simp [Instruction.mapLabel] at is
  | _ => exact alters

/-- A step goes on if it is neither the end nor a fault. -/
def GoesOn (stepped : Stepped N) : Prop :=
  stepped.result = .ok .continued ∨ stepped.result = .ok .jumped

variable {machine : Machine N} {console : Console}

theorem alters_popThen {instruction : Instruction} {next : N -> Machine N -> Stepped N}
    (goesOn : GoesOn (machine.popThen console next))
    (notSelect : forall byte, instruction ≠ .sel byte)
    (notMove : forall byte, instruction ≠ .mov byte)
    (taken : Program.depthAfter instruction machine.space.size = machine.space.size - 1)
    (keeps : forall value machine, GoesOn (next value machine) ->
      ∃ index, (next value machine).machine = machine.movedTo index) :
    Alters instruction machine (machine.popThen console next).machine := by
  unfold popThen at goesOn ⊢
  cases popped : machine.space.pop with
  | error fault => simp [popped, GoesOn, fail] at goesOn
  | ok result =>
      rw [popped] at goesOn
      dsimp only at goesOn ⊢
      rcases keeps _ _ goesOn with ⟨index, same⟩
      have sizes := Space.size_of_pop popped
      rw [same]
      exact .works result.2 notSelect notMove (by simp) (by rw [taken, sizes.1]) sizes.2

theorem alters_proceedWith {instruction : Instruction} {changed : Except SpaceFault (Space N)}
    (goesOn : GoesOn (machine.proceedWith console changed))
    (notSelect : forall byte, instruction ≠ .sel byte)
    (notMove : forall byte, instruction ≠ .mov byte)
    (sizes : forall space, changed = .ok space ->
      space.size = Program.depthAfter instruction machine.space.size ∧
        space.kind = machine.space.kind) :
    Alters instruction machine (machine.proceedWith console changed).machine := by
  cases changed with
  | error fault => simp [GoesOn, proceedWith, fail] at goesOn
  | ok space =>
      exact .works space notSelect notMove rfl (sizes space rfl).1 (sizes space rfl).2

theorem alters_select {byte : UInt8} (goesOn : GoesOn (machine.select console byte)) :
    Alters (.sel byte) machine (machine.select console byte).machine := by
  unfold select at goesOn ⊢
  cases named : Slot.ofByte? byte with
  | none => simp [named, GoesOn, fail] at goesOn
  | some slot => exact .selects byte slot rfl named rfl

theorem alters_move {byte : UInt8} (goesOn : GoesOn (machine.move console byte)) :
    Alters (.mov byte) machine (machine.move console byte).machine := by
  unfold move popThen at goesOn ⊢
  cases named : Slot.ofByte? byte with
  | none => simp [named, GoesOn, fail] at goesOn
  | some slot =>
      cases popped : machine.space.pop with
      | error fault => simp [named, popped, GoesOn, fail] at goesOn
      | ok result => exact .moves byte slot result.1 result.2 rfl named popped rfl

theorem alters_output {instruction : Instruction}
    {write : Console -> N -> Except ChannelFault Unit × Console}
    (goesOn : GoesOn (machine.output console write))
    (notSelect : forall byte, instruction ≠ .sel byte)
    (notMove : forall byte, instruction ≠ .mov byte)
    (taken : Program.depthAfter instruction machine.space.size = machine.space.size - 1) :
    Alters instruction machine (machine.output console write).machine := by
  refine alters_popThen goesOn notSelect notMove taken ?_
  intro value machine
  rcases write console value with ⟨_ | _, after⟩
  · intro failed
    simp [GoesOn, fail] at failed
  · exact fun _ => ⟨machine.index + 1, rfl⟩

theorem alters_push {instruction : Instruction} (value : N)
    (notSelect : forall byte, instruction ≠ .sel byte)
    (notMove : forall byte, instruction ≠ .mov byte)
    (given : Program.depthAfter instruction machine.space.size = machine.space.size + 1) :
    Alters instruction machine ((machine.push value).proceed console).machine :=
  .works (machine.space.push value) notSelect notMove rfl (by simp [given]) (by simp)

variable [Number N]

theorem alters_combine {instruction : Instruction} {operation : Opcode}
    (goesOn : GoesOn (machine.combine console operation))
    (notSelect : forall byte, instruction ≠ .sel byte)
    (notMove : forall byte, instruction ≠ .mov byte)
    (taken : Program.depthAfter instruction machine.space.size = machine.space.size - 2 + 1) :
    Alters instruction machine (machine.combine console operation).machine := by
  unfold combine at goesOn ⊢
  rcases combined : machine.space.binary operation with ⟨fault | _, space⟩
  · simp [combined, GoesOn, fail] at goesOn
  · have sizes := Space.size_of_binary combined
    exact .works space notSelect notMove rfl (by rw [taken, sizes.1]) sizes.2

/-- What an instruction that goes on makes of a machine that holds enough values. -/
theorem alters_perform {instruction : Instruction}
    (goesOn : GoesOn (machine.perform console instruction)) :
    Alters instruction machine (machine.perform console instruction).machine := by
  cases instruction with
  | div | add | mul | mod | cmp | sub =>
      exact alters_combine goesOn (by simp) (by simp) rfl
  | pop =>
      refine alters_popThen goesOn (by simp) (by simp) rfl ?_
      exact fun _ machine _ => ⟨machine.index + 1, rfl⟩
  | push literal => exact alters_push _ (by simp) (by simp) rfl
  | dup => exact alters_proceedWith goesOn (by simp) (by simp) fun _ done => Space.size_of_dup done
  | swap => exact alters_proceedWith goesOn (by simp) (by simp) fun _ done => Space.size_of_swap done
  | sel byte => exact alters_select goesOn
  | mov byte => exact alters_move goesOn
  | brz target =>
      refine alters_popThen goesOn (by simp) (by simp) rfl ?_
      intro value machine _
      split
      · exact ⟨target, rfl⟩
      · exact ⟨machine.index + 1, rfl⟩
  | popNum | popChar => exact alters_output goesOn (by simp) (by simp) rfl
  | pushNum =>
      simp only [perform, inputNumber] at goesOn ⊢
      split at goesOn
      · simp [GoesOn, fail] at goesOn
      · simp [GoesOn, fail] at goesOn
      · exact alters_push _ (by simp) (by simp) rfl
  | pushChar =>
      simp only [perform, inputChar] at goesOn ⊢
      split at goesOn
      · simp [GoesOn, fail] at goesOn
      · exact alters_push _ (by simp) (by simp) rfl
  | noop | brPop1 _ | brPop2 _ => exact .idle _ (by simp) (by simp) rfl
  | jmp target => exact .idle _ (by simp) (by simp) rfl
  | halt => simp [perform, halt, GoesOn] at goesOn

/-- What an instruction that goes on makes of a machine. -/
theorem alters_execute {instruction : Instruction}
    (goesOn : GoesOn (machine.execute console instruction)) :
    Alters instruction machine (machine.execute console instruction).machine := by
  unfold execute at goesOn ⊢
  dsimp only at goesOn ⊢
  split
  · rename_i short
    rw [if_pos short] at goesOn
    cases instruction with
    | brPop1 target | brPop2 target => exact .idle _ (by simp) (by simp) rfl
    | _ => simp [GoesOn, fail] at goesOn
  · rename_i enough
    rw [if_neg enough] at goesOn
    exact alters_perform goesOn

omit [Number N] in
/-- A process that goes on has made a step that goes on. -/
theorem goesOn_of_continuation {code : Array Instruction} {stepped : Stepped N}
    {next : Machine N} (goes : continuation code stepped = .goOn next) :
    GoesOn stepped ∧ next = stepped.machine := by
  unfold continuation at goes
  split at goes
  · simp at goes
  · simp at goes
  · rename_i continued
    cases goes
    exact ⟨Or.inl continued, rfl⟩
  · rename_i jumped
    cases goes
    exact ⟨Or.inr jumped, rfl⟩

end Machine

/-- A successor of an index is where control falls through or jumps to. -/
theorem Program.mem_successors_of_follows {program : Program} {index next other : Nat}
    {instruction : Instruction} (fetched : program.code[index]? = some instruction)
    (follows : Machine.Follows instruction program.target program.target index index next other) :
    next ∈ program.successors index := by
  unfold successors
  rw [fetched]
  rcases follows with ⟨falls, rfl, _⟩ | ⟨label, labelled, rfl, _⟩
  · cases instruction <;> simp_all [Instruction.fallsThrough]
  · cases instruction <;> simp_all [Instruction.label?]

/-- What is known when a machine goes on: there is an instruction at its index, the step
leads to a successor of that index, and the storages change as the instruction says. -/
theorem Program.goesOn_cases {N : Type} [Number N] (program : Program) {machine next : Machine N}
    {console after : Console} {call : Option (ConsoleCall N)}
    (moves : Machine.process program.linked machine console =
      { call, console := after, next := .goOn next }) :
    ∃ instruction, program.code[machine.index]? = some instruction ∧
      next.index ∈ program.successors machine.index ∧
      Machine.Alters instruction machine next := by
  cases fetched : program.code[machine.index]? with
  | none =>
      simp [Machine.process, Machine.step, Machine.continuation, Machine.halt, getElem?_linked,
        fetched] at moves
  | some instruction =>
      have linked : program.linked[machine.index]? =
          some (instruction.mapLabel program.target) := by
        simp [getElem?_linked, fetched]
      refine ⟨instruction, rfl, ?_, ?_⟩
      · rcases machine.inStep_of_fetch console machine.index linked linked with
          ⟨_, _, _, ends, _⟩ | ⟨_, _, other, _, goes, _, follows⟩
        · simp [moves] at ends
        · rw [moves] at goes
          simp only [Move.mk.injEq, Continuation.goOn.injEq] at goes
          rw [goes.2.2]
          exact mem_successors_of_follows fetched follows
      · have goes := congrArg Move.next moves
        simp only [Machine.process, machine.step_of_fetch console linked] at goes
        rcases Machine.goesOn_of_continuation goes with ⟨goesOn, rfl⟩
        exact (Machine.alters_execute goesOn).of_mapLabel

end HangulPane
