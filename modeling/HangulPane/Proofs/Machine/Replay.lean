import HangulPane.Machine.Run
import HangulPane.Proofs.Machine.Failure
import HangulPane.Proofs.Program.Context

namespace HangulPane

/-!
What the storages hold, told by the log of a run.

A storage keeps its items in the order in which it gives them out.  Here it is a sequence that
takes new values at its back.  A stack and the passage give values out at the back again, the
queue at the front.  The log of a run lists the operations that its steps carried out, each with
its slot and with the value that was pushed from the code or the input.  Replaying the log needs
no machine: it yields the sequence in every slot and the values that the passage received, of
which the last one is what a duplication there repeats.
-/

/-- The end of a sequence at which values are given out. -/
inductive End where
  | front
  | back
  deriving DecidableEq, Repr

namespace End

variable {N : Type}

/-- The value at an end, and the sequence without it. -/
def take? : End -> List N -> Option (N × List N)
  | .front, values => values.head?.map fun value => (value, values.tail)
  | .back, values => values.getLast?.map fun value => (value, values.dropLast)

/-- The two values at an end, the outermost first, and the sequence without them. -/
def takeTwo? (taking : End) (values : List N) : Option (N × N × List N) :=
  (taking.take? values).bind fun (first, others) =>
    (taking.take? others).map fun (second, rest) => (first, second, rest)

/-- The sequence with a value put at an end. -/
def put (value : N) : End -> List N -> List N
  | .front, values => value :: values
  | .back, values => values ++ [value]

/-- The value at an end. -/
def peek? (taking : End) (values : List N) : Option N :=
  (taking.take? values).map Prod.fst

/-- The sequence without the value at an end. -/
def pop (taking : End) (values : List N) : List N :=
  match taking.take? values with
  | some (_, rest) => rest
  | none => values

/-- The sequence with one more value at an end: the given one, or else the one that is there. -/
def dup (taking : End) (repeated : Option N) (values : List N) : List N :=
  match taking.take? values with
  | some (value, _) => taking.put (repeated.getD value) values
  | none => values

/-- The sequence with the two values at an end exchanged. -/
def swap (taking : End) (values : List N) : List N :=
  match taking.takeTwo? values with
  | some (first, second, rest) => taking.put second (taking.put first rest)
  | none => values

/-- The sequence with the two values at an end, of which the outermost is the right operand,
replaced by their combination, which stands at the back.  Without a combination the operands are
lost, except that the left one is still there if values are given out at the back. -/
def combine [Number N] (taking : End) (operation : Opcode) (values : List N) : List N :=
  match taking.takeTwo? values with
  | some (right, left, rest) =>
      match Number.combine operation left right with
      | .ok value => rest ++ [value]
      | .error _ =>
          match taking with
          | .front => rest
          | .back => rest ++ [left]
  | none => values

end End

/-- The end at which a storage of a kind gives out its values. -/
def SpaceKind.taking : SpaceKind -> End
  | .queue => .front
  | .stack | .passage => .back

/-- Whether a storage has become another one that is of its kind, has the same last push and
holds the given sequence. -/
structure Space.Becomes {N : Type} (before after : Space N) (values : List N) : Prop where
  kind : after.kind = before.kind
  lastPush : after.lastPush? = before.lastPush?
  contents : after.contents = values

namespace Space

variable {N : Type} (space : Space N)

@[simp]
theorem lastPush?_withItems (items : List N) :
    (space.withItems items).lastPush? = space.lastPush? := by
  cases space <;> rfl

theorem contents_push (value : N) : (space.push value).contents = space.contents ++ [value] := by
  cases space <;> simp [push, contents]

theorem lastPush?_push (value : N) :
    (space.push value).lastPush? = space.lastPush?.map fun _ => value := by
  cases space <;> rfl

theorem contents_putResult (value : N) (rest : List N) :
    (space.putResult value rest).contents = (space.withItems rest).contents ++ [value] := by
  cases space <;> simp [putResult, withItems, contents]

theorem lastPush?_putResult (value : N) (rest : List N) :
    (space.putResult value rest).lastPush? = space.lastPush? := by
  cases space <;> rfl

/-- Putting a value at the end of the sequence is putting it in front of the items. -/
theorem put_contents (value : N) (items : List N) :
    space.kind.taking.put value (space.withItems items).contents =
      (space.withItems (value :: items)).contents := by
  cases space <;> simp [kind, SpaceKind.taking, End.put, withItems, contents]

/-- The value at the end of the sequence is the first item. -/
theorem take?_contents (items : List N) :
    space.kind.taking.take? (space.withItems items).contents =
      items.head?.map fun value => (value, (space.withItems items.tail).contents) := by
  cases space <;> simp [kind, SpaceKind.taking, End.take?, withItems, contents]

theorem take?_contents_cons (value : N) (rest : List N) :
    space.kind.taking.take? (space.withItems (value :: rest)).contents =
      some (value, (space.withItems rest).contents) :=
  space.take?_contents (value :: rest)

theorem take?_contents_of_items {items : List N} (holds : space.items = items) :
    space.kind.taking.take? space.contents =
      items.head?.map fun value => (value, (space.withItems items.tail).contents) := by
  rw [← holds, ← space.take?_contents, withItems_items]

theorem takeTwo?_contents_of_items {first second : N} {rest : List N}
    (holds : space.items = first :: second :: rest) :
    space.kind.taking.takeTwo? space.contents =
      some (first, second, (space.withItems rest).contents) := by
  rw [End.takeTwo?, space.take?_contents_of_items holds]
  simp only [List.head?_cons, List.tail_cons, Option.map_some, Option.bind_some,
    take?_contents_cons]

/-- With fewer than two items there are no two values to take. -/
theorem takeTwo?_contents_eq_none
    (short : forall first second rest, space.items ≠ first :: second :: rest) :
    space.kind.taking.takeTwo? space.contents = none := by
  match items : space.items with
  | [] => rw [End.takeTwo?, space.take?_contents_of_items items]; rfl
  | [value] =>
      rw [End.takeTwo?, space.take?_contents_of_items items]
      dsimp only [List.head?_cons, Option.map_some, Option.bind_some, List.tail_cons]
      rw [take?_contents]
      rfl
  | first :: second :: rest => exact absurd items (short first second rest)

theorem peek?_eq : space.peek? = space.kind.taking.peek? space.contents := by
  rw [End.peek?, space.take?_contents_of_items rfl, peek?]
  cases space.items <;> rfl

theorem becomes_self : space.Becomes space space.contents :=
  ⟨rfl, rfl, rfl⟩

theorem becomes_pop :
    space.Becomes (space.withItems space.items.tail) (space.kind.taking.pop space.contents) := by
  refine ⟨space.kind_withItems _, space.lastPush?_withItems _, ?_⟩
  rw [End.pop, space.take?_contents_of_items rfl]
  cases items : space.items with
  | nil =>
      change (space.withItems []).contents = space.contents
      rw [← items, withItems_items]
  | cons value rest => rfl

theorem becomes_dup :
    space.Becomes (space.dup.toOption.getD space)
      (space.kind.taking.dup space.lastPush? space.contents) := by
  rw [End.dup, dup, space.take?_contents_of_items rfl]
  cases items : space.items with
  | nil => exact space.becomes_self
  | cons value rest =>
      refine ⟨space.kind_withItems _, space.lastPush?_withItems _, ?_⟩
      have whole : space.contents = (space.withItems (value :: rest)).contents := by
        rw [← items, withItems_items]
      dsimp only [List.head?_cons, Option.map_some]
      rw [whole, put_contents]
      rfl

theorem becomes_swap :
    space.Becomes (space.swap.toOption.getD space) (space.kind.taking.swap space.contents) := by
  rw [End.swap, swap]
  split
  · rename_i first second rest items
    refine ⟨space.kind_withItems _, space.lastPush?_withItems _, ?_⟩
    rw [space.takeTwo?_contents_of_items items]
    dsimp only
    rw [put_contents, put_contents]
    rfl
  · rename_i short
    rw [space.takeTwo?_contents_eq_none short]
    exact space.becomes_self

theorem becomes_keepAfterFailure (left : N) (rest : List N) :
    space.Becomes (space.keepAfterFailure left rest)
      (match space.kind.taking with
        | .front => (space.withItems rest).contents
        | .back => (space.withItems rest).contents ++ [left]) := by
  cases space <;> exact ⟨rfl, rfl, by simp [keepAfterFailure, withItems, contents, kind,
    SpaceKind.taking]⟩

theorem becomes_binary [Number N] (operation : Opcode) :
    space.Becomes (space.binary operation).2
      (space.kind.taking.combine operation space.contents) := by
  rw [End.combine, binary]
  split
  · rename_i right left rest items
    rw [space.takeTwo?_contents_of_items items]
    dsimp only
    cases Number.combine operation left right with
    | ok value =>
        exact ⟨space.kind_putResult value rest, space.lastPush?_putResult value rest,
          space.contents_putResult value rest⟩
    | error fault => exact space.becomes_keepAfterFailure left rest
  · rename_i short
    rw [space.takeTwo?_contents_eq_none short]
    exact space.becomes_self

end Space

/-- An operation that a step carries out on the storages. -/
inductive Operation (N : Type) where
  | push (slot : Slot) (value : N)
  | pop (slot : Slot)
  | dup (slot : Slot)
  | swap (slot : Slot)
  | combine (slot : Slot) (operation : Opcode)
  | move (source target : Slot)

/-- The storages as sequences. -/
structure Replica (N : Type) where
  /-- The sequence in each slot, from bottom to top or from front to back. -/
  values : Slot -> List N
  /-- All values that were ever put into the passage, the last one at the end. -/
  received : List N

namespace Replica

variable {N : Type}

/-- Nothing in any slot. -/
def empty : Replica N where
  values := fun _ => []
  received := []

/-- The replica with the sequence of a slot replaced. -/
def withValues (replica : Replica N) (slot : Slot) (values : List N) : Replica N where
  values := fun other => if other = slot then values else replica.values other
  received := replica.received

/-- The replica after a value was put into a slot. -/
def put (replica : Replica N) (slot : Slot) (value : N) : Replica N where
  values := (replica.withValues slot (replica.values slot ++ [value])).values
  received := if slot.val = passageSlot then replica.received ++ [value] else replica.received

theorem values_withValues_self (replica : Replica N) (slot : Slot) (values : List N) :
    (replica.withValues slot values).values slot = values :=
  if_pos rfl

theorem values_withValues_of_ne (replica : Replica N) {slot other : Slot} (values : List N)
    (different : other ≠ slot) :
    (replica.withValues slot values).values other = replica.values other :=
  if_neg different

theorem values_put_self (replica : Replica N) (slot : Slot) (value : N) :
    (replica.put slot value).values slot = replica.values slot ++ [value] :=
  if_pos rfl

theorem values_put_of_ne (replica : Replica N) {slot other : Slot} (value : N)
    (different : other ≠ slot) :
    (replica.put slot value).values other = replica.values other :=
  if_neg different

variable [Number N]

/-- The value that was put into the passage last, or zero. -/
def lastReceived (replica : Replica N) : N :=
  replica.received.getLast?.getD Number.zero

/-- What a duplication in a slot repeats, if not the value at the end. -/
def repeated? (replica : Replica N) (slot : Slot) : Option N :=
  if slot.val = passageSlot then some replica.lastReceived else none

theorem repeated?_withValues (replica : Replica N) (slot other : Slot) (values : List N) :
    (replica.withValues slot values).repeated? other = replica.repeated? other := rfl

/-- The passage repeats what it has just received. -/
theorem repeated?_put_self (replica : Replica N) (slot : Slot) (value : N) :
    (replica.put slot value).repeated? slot = (replica.repeated? slot).map fun _ => value := by
  unfold repeated? lastReceived put
  by_cases passage : slot.val = passageSlot
  · simp [passage]
  · simp [passage]

/-- What other slots receive does not matter to the passage. -/
theorem repeated?_put_of_ne (replica : Replica N) {slot other : Slot} (value : N)
    (different : other ≠ slot) :
    (replica.put slot value).repeated? other = replica.repeated? other := by
  unfold repeated? lastReceived put
  by_cases passage : other.val = passageSlot
  · have elsewhere : slot.val ≠ passageSlot := by
      intro same
      exact different (Fin.ext (passage.trans same.symm))
    simp [elsewhere]
  · simp [passage]

/-- The replica after an operation. -/
def perform (replica : Replica N) : Operation N -> Replica N
  | .push slot value => replica.put slot value
  | .pop slot => replica.withValues slot (slot.kind.taking.pop (replica.values slot))
  | .dup slot =>
      replica.withValues slot
        (slot.kind.taking.dup (replica.repeated? slot) (replica.values slot))
  | .swap slot => replica.withValues slot (slot.kind.taking.swap (replica.values slot))
  | .combine slot operation =>
      replica.withValues slot (slot.kind.taking.combine operation (replica.values slot))
  | .move source target =>
      match source.kind.taking.take? (replica.values source) with
      | some (value, rest) => (replica.withValues source rest).put target value
      | none => replica

/-- The replica after all operations of a log, the earliest of which comes first. -/
def replay (log : List (Operation N)) : Replica N :=
  log.foldl perform empty

end Replica

/-- Whether storages hold what a replica says, each slot with a storage of its kind. -/
structure Storage.Mirrors {N : Type} [Number N] (storage : Storage N)
    (replica : Replica N) : Prop where
  shaped : storage.Shaped
  contents : forall slot, (storage.get slot).contents = replica.values slot
  lastPush : forall slot, (storage.get slot).lastPush? = replica.repeated? slot

namespace Storage

variable {N : Type} [Number N] {storage : Storage N} {replica : Replica N}

theorem get_empty (slot : Slot) : (empty : Storage N).get slot = Space.forSlot slot.val := by
  simp [empty, get]

theorem mirrors_empty : (empty : Storage N).Mirrors Replica.empty := by
  refine ⟨shaped_empty, ?_, ?_⟩
  · intro slot
    rw [get_empty, Space.forSlot]
    split
    · rfl
    · split <;> rfl
  · intro slot
    rw [get_empty, Space.forSlot, Replica.repeated?]
    split
    · rename_i queue
      rw [if_neg (by rw [queue]; decide)]
      rfl
    · split <;> rfl

/-- What becomes of one storage becomes of the sequence in its slot. -/
theorem Mirrors.set (mirrors : storage.Mirrors replica) {slot : Slot} {after : Space N}
    {values : List N} (becomes : (storage.get slot).Becomes after values) :
    (storage.set slot after).Mirrors (replica.withValues slot values) := by
  refine ⟨mirrors.shaped.set slot (becomes.kind.trans (mirrors.shaped slot)), ?_, ?_⟩
  · intro other
    by_cases same : other = slot
    · subst same
      rw [get_set_self, becomes.contents, Replica.values_withValues_self]
    · rw [get_set_of_ne _ _ (Ne.symm same), Replica.values_withValues_of_ne _ _ same]
      exact mirrors.contents other
  · intro other
    rw [Replica.repeated?_withValues]
    by_cases same : other = slot
    · subst same
      rw [get_set_self, becomes.lastPush]
      exact mirrors.lastPush other
    · rw [get_set_of_ne _ _ (Ne.symm same)]
      exact mirrors.lastPush other

/-- A push puts a value into a slot, and the passage remembers it. -/
theorem Mirrors.push (mirrors : storage.Mirrors replica) (slot : Slot) (value : N) :
    (storage.set slot ((storage.get slot).push value)).Mirrors (replica.put slot value) := by
  refine ⟨mirrors.shaped.set slot ((Space.kind_push ..).trans (mirrors.shaped slot)), ?_, ?_⟩
  · intro other
    by_cases same : other = slot
    · subst same
      rw [get_set_self, Space.contents_push, mirrors.contents, Replica.values_put_self]
    · rw [get_set_of_ne _ _ (Ne.symm same), Replica.values_put_of_ne _ _ same]
      exact mirrors.contents other
  · intro other
    by_cases same : other = slot
    · subst same
      rw [get_set_self, Space.lastPush?_push, mirrors.lastPush, Replica.repeated?_put_self]
    · rw [get_set_of_ne _ _ (Ne.symm same), Replica.repeated?_put_of_ne _ _ same]
      exact mirrors.lastPush other

end Storage

namespace Machine

variable {N : Type} [Number N] {machine : Machine N} {replica : Replica N}

/-- The operation that an instruction carries out on the storages, if it carries out one: there
are values enough, the slot that it names exists, and what it reads is read. -/
def operationOf (machine : Machine N) (console : Console) (instruction : Instruction) :
    Option (Operation N) :=
  if machine.space.size < instruction.opcode.requiredDepth then none
  else
    match instruction with
    | .div | .add | .mul | .mod | .sub | .cmp =>
        some (.combine machine.selected instruction.opcode)
    | .pop | .brz _ | .popNum | .popChar => some (.pop machine.selected)
    | .push literal => some (.push machine.selected (Number.ofLiteral literal))
    | .dup => some (.dup machine.selected)
    | .swap => some (.swap machine.selected)
    | .mov byte => (Slot.ofByte? byte).map (.move machine.selected)
    | .pushNum =>
        match console.readNumber.1 with
        | .ok (some value) => some (.push machine.selected value)
        | _ => none
    | .pushChar =>
        match console.readChar.1 with
        | .ok value => some (.push machine.selected value)
        | .error _ => none
    | .sel _ | .noop | .brPop1 _ | .brPop2 _ | .jmp _ | .halt => none

/-- The operation that the next step carries out. -/
def operation? (code : Array Instruction) (machine : Machine N) (console : Console) :
    Option (Operation N) :=
  code[machine.index]?.bind (machine.operationOf console)

/-- What a machine that has halted still does, if its output was flushed with the given result:
a run that ends normally takes its result from the selected storage at last. -/
def lastOperations (machine : Machine N) : Except ChannelFault Unit -> List (Operation N)
  | .ok () => [.pop machine.selected]
  | .error _ => []

/-- The log of at most the given number of steps. -/
def operations (code : Array Instruction) : Nat -> Machine N -> Console -> List (Operation N)
  | 0, _, _ => []
  | bound + 1, machine, console =>
      let stepped := machine.step code console
      (machine.operation? code console).toList ++
        match stepped.result with
        | .ok .continued | .ok .jumped => operations code bound stepped.machine stepped.console
        | .ok .halted => stepped.machine.lastOperations stepped.console.flush.1
        | .error _ => []

section Steps

variable {console : Console}

theorem mirrors_pop (mirrors : machine.storage.Mirrors replica) :
    (machine.withSpace (machine.space.withItems machine.space.items.tail)).storage.Mirrors
      (replica.perform (.pop machine.selected)) := by
  have becomes := machine.space.becomes_pop
  rw [space, mirrors.shaped, mirrors.contents] at becomes
  exact mirrors.set becomes

/-- Nothing is taken from an empty sequence. -/
theorem mirrors_pop_of_nil (mirrors : machine.storage.Mirrors replica)
    (items : machine.space.items = []) :
    machine.storage.Mirrors (replica.perform (.pop machine.selected)) := by
  have popped := mirrors_pop mirrors
  rw [items, List.tail_nil, ← items, Space.withItems_items, withSpace_space] at popped
  exact popped

/-- Taking a value takes it from the sequence, whatever is done with it. -/
theorem mirrors_popThen (mirrors : machine.storage.Mirrors replica)
    {next : N -> Machine N -> Stepped N}
    (keeps : forall value machine, (next value machine).machine.storage = machine.storage) :
    (machine.popThen console next).machine.storage.Mirrors
      (replica.perform (.pop machine.selected)) := by
  have popped := mirrors_pop mirrors
  unfold popThen Space.pop
  cases items : machine.space.items with
  | nil => exact mirrors_pop_of_nil mirrors items
  | cons value rest =>
      rw [items] at popped
      dsimp only
      rw [keeps]
      exact popped

theorem mirrors_proceedWith (mirrors : machine.storage.Mirrors replica)
    {changed : Except SpaceFault (Space N)} {values : List N}
    (becomes : machine.space.Becomes (changed.toOption.getD machine.space) values) :
    (machine.proceedWith console changed).machine.storage.Mirrors
      (replica.withValues machine.selected values) := by
  have set := mirrors.set becomes
  cases changed with
  | error fault =>
      change (machine.withSpace machine.space).storage.Mirrors _ at set
      rw [withSpace_space] at set
      exact set
  | ok after => exact set

theorem mirrors_combine (mirrors : machine.storage.Mirrors replica) (operation : Opcode) :
    (machine.combine console operation).machine.storage.Mirrors
      (replica.perform (.combine machine.selected operation)) := by
  have becomes := machine.space.becomes_binary operation
  rw [space, mirrors.shaped, mirrors.contents] at becomes
  have set := mirrors.set becomes
  unfold combine
  rcases combined : machine.space.binary operation with ⟨fault | _, after⟩
  · rw [space] at combined
    rw [combined] at set
    exact set
  · rw [space] at combined
    rw [combined] at set
    exact set

theorem mirrors_move (mirrors : machine.storage.Mirrors replica) (byte : UInt8) :
    (machine.move console byte).machine.storage.Mirrors
      (((Slot.ofByte? byte).map (.move machine.selected)).toList.foldl Replica.perform
        replica) := by
  unfold move
  cases Slot.ofByte? byte with
  | none => exact mirrors
  | some slot =>
      have popped := mirrors_pop mirrors
      have taken := machine.space.take?_contents_of_items rfl
      rw [space, mirrors.shaped, mirrors.contents, ← space] at taken
      simp only [Option.map_some, Option.toList_some, List.foldl_cons, List.foldl_nil,
        Replica.perform, End.pop] at popped ⊢
      unfold popThen Space.pop
      rw [taken] at popped ⊢
      cases items : machine.space.items with
      | nil => exact mirrors
      | cons value rest =>
          rw [items] at popped
          exact popped.push slot value

theorem mirrors_perform (mirrors : machine.storage.Mirrors replica) {instruction : Instruction}
    (enough : instruction.opcode.requiredDepth ≤ machine.space.size) :
    (machine.perform console instruction).machine.storage.Mirrors
      ((machine.operationOf console instruction).toList.foldl Replica.perform replica) := by
  unfold operationOf
  rw [if_neg (Nat.not_lt.mpr enough)]
  cases instruction with
  | div | add | mul | mod | sub | cmp => exact mirrors_combine mirrors _
  | pop => exact mirrors_popThen mirrors fun _ _ => rfl
  | push literal => exact mirrors.push machine.selected (Number.ofLiteral literal)
  | dup =>
      have becomes := machine.space.becomes_dup
      rw [space, mirrors.shaped, mirrors.contents, mirrors.lastPush] at becomes
      exact mirrors_proceedWith mirrors becomes
  | swap =>
      have becomes := machine.space.becomes_swap
      rw [space, mirrors.shaped, mirrors.contents] at becomes
      exact mirrors_proceedWith mirrors becomes
  | sel byte =>
      simp only [perform, select]
      cases Slot.ofByte? byte with
      | none => exact mirrors
      | some slot => exact mirrors
  | mov byte => exact mirrors_move mirrors byte
  | brz target =>
      refine mirrors_popThen mirrors fun value machine => ?_
      split <;> rfl
  | popNum | popChar =>
      refine mirrors_popThen mirrors fun value machine => ?_
      split <;> rfl
  | pushNum =>
      simp only [perform, inputNumber]
      rcases (console.readNumber : Except ChannelFault (Option N) × Console) with
        ⟨_ | _ | value, after⟩
      · exact mirrors
      · exact mirrors
      · exact mirrors.push machine.selected value
  | pushChar =>
      simp only [perform, inputChar]
      rcases (console.readChar : Except ChannelFault N × Console) with ⟨_ | value, after⟩
      · exact mirrors
      · exact mirrors.push machine.selected value
  | noop | brPop1 | brPop2 | jmp | halt => exact mirrors

/-- A step does to the storages what it does to the sequences, also if it fails. -/
theorem mirrors_step (mirrors : machine.storage.Mirrors replica) (code : Array Instruction)
    (console : Console) :
    (machine.step code console).machine.storage.Mirrors
      ((machine.operation? code console).toList.foldl Replica.perform replica) := by
  unfold step operation?
  cases code[machine.index]? with
  | none => exact mirrors
  | some instruction =>
      dsimp only [Option.bind_some]
      by_cases short : machine.space.size < instruction.opcode.requiredDepth
      · have idle : machine.operationOf console instruction = none := if_pos short
        rw [idle]
        rcases execute_of_short console short with ⟨_, target, jumps⟩ | ⟨_, fails⟩
        · rw [jumps]
          exact mirrors
        · rw [fails]
          exact mirrors
      · have enough := Nat.le_of_not_lt short
        rw [execute_of_enough enough]
        exact mirrors_perform mirrors enough

theorem mirrors_takeResult (mirrors : machine.storage.Mirrors replica) :
    machine.takeResult.2.storage.Mirrors (replica.perform (.pop machine.selected)) := by
  have popped := mirrors_pop mirrors
  unfold takeResult Space.pop
  cases items : machine.space.items with
  | nil => exact mirrors_pop_of_nil mirrors items
  | cons value rest =>
      rw [items] at popped
      exact popped

/-- The result is taken from a machine that has halted if its output can be flushed. -/
theorem Concludes.mirrors {steps : Nat} {run : Run N}
    (concludes : machine.Concludes console steps none run)
    (mirrors : machine.storage.Mirrors replica) :
    run.machine.storage.Mirrors
      ((machine.lastOperations console.flush.1).foldl Replica.perform replica) := by
  cases concludes with
  | unflushed _ fault failed =>
      rw [failed]
      exact mirrors
  | finished flushed =>
      rw [flushed]
      exact mirrors_takeResult mirrors

/-- A run does to the storages what its log does to the sequences. -/
theorem mirrors_runFrom (code : Array Instruction) (bound : Nat) :
    forall (taken : Nat) (machine : Machine N) (console : Console) (replica : Replica N),
      machine.storage.Mirrors replica ->
      (runFrom code taken bound machine console).machine.storage.Mirrors
        ((operations code bound machine console).foldl Replica.perform replica) := by
  induction bound with
  | zero => exact fun _ _ _ _ mirrors => mirrors
  | succ bound inductionHypothesis =>
      intro taken machine console replica mirrors
      have after := mirrors_step mirrors code console
      rcases stepped : machine.step code console with ⟨result, next, later⟩
      rw [stepped] at after
      rw [operations, List.foldl_append]
      cases result with
      | error fault =>
          have concludes := next.concludes_conclude later (some fault) (taken + 1)
          simp only [runFrom, stepped, concludes.machine_of_fault]
          exact after
      | ok progress =>
          cases progress with
          | halted =>
              simp only [runFrom, stepped]
              exact (next.concludes_conclude later none (taken + 1)).mirrors after
          | continued | jumped =>
              simp only [runFrom, stepped]
              exact inductionHypothesis (taken + 1) next later _ after

end Steps

/-- Whether the storages of a machine are of their kinds and hold what a log tells. -/
structure Retold (machine : Machine N) (log : List (Operation N)) : Prop where
  slots : machine.storage.spaces.toArray.size = 28
  selected : machine.selected.val < 28
  kinds : forall slot, (machine.storage.get slot).kind =
    if slot.val = 21 then .queue else if slot.val = 27 then .passage else .stack
  contents : forall slot, (machine.storage.get slot).contents = (Replica.replay log).values slot
  /-- The next value stands at the front of the queue and at the back of all others. -/
  next : forall slot, (machine.storage.get slot).peek? =
    (if slot.val = 21 then End.front else .back).peek? ((Replica.replay log).values slot)
  /-- The passage remembers what was put into it last, or zero. -/
  lastPush : machine.storage.lastPush? = some (Replica.replay log).lastReceived
  /-- Duplicating on the passage adds just that at the back. -/
  doubling : machine.space.kind = .passage -> machine.space.isEmpty = false ->
    ∃ doubled, machine.space.dup = .ok doubled ∧
      doubled.contents = machine.space.contents ++ [(Replica.replay log).lastReceived] ∧
      doubled.lastPush? = machine.space.lastPush?

/-- What the passage remembers is what it received last. -/
theorem lastReceived_of_passage (mirrors : machine.storage.Mirrors replica) {items : List N}
    {lastPush : N} (holds : machine.space = .passage items lastPush) :
    replica.lastReceived = lastPush := by
  have remembered := mirrors.lastPush machine.selected
  rw [← space, holds, Space.lastPush?, Replica.repeated?] at remembered
  split at remembered
  · exact (Option.some.inj remembered).symm
  · cases remembered

theorem retold_of_mirrors {log : List (Operation N)}
    (mirrors : machine.storage.Mirrors (Replica.replay log)) : machine.Retold log where
  slots := machine.storage.spaces.size_toArray
  selected := machine.selected.isLt
  kinds := mirrors.shaped
  contents := mirrors.contents
  next := by
    intro slot
    have taking : (if slot.val = 21 then End.front else .back) = slot.kind.taking := by
      unfold Slot.kind
      split
      · rw [if_pos ‹_›]
        rfl
      · rw [if_neg ‹_›]
        split <;> rfl
    rw [taking, Space.peek?_eq, mirrors.shaped, mirrors.contents]
  lastPush := mirrors.lastPush ⟨passageSlot, by decide⟩
  doubling := by
    intro kind filled
    cases holds : machine.space with
    | stack items | queue items =>
        rw [holds] at kind
        cases kind
    | passage items lastPush =>
        rw [lastReceived_of_passage mirrors holds]
        cases items with
        | nil =>
            rw [holds] at filled
            cases filled
        | cons value rest =>
            exact ⟨.passage (lastPush :: value :: rest) lastPush, rfl, by simp [Space.contents],
              rfl⟩

/-- After any number of steps of any program, and after its end or a fault, the storages hold
what replaying the log of the run yields. -/
theorem run_retold_by_log (program : Program) (bound : Nat) (console : Console) :
    (run program bound console : Run N).machine.Retold
      (operations program.linked bound start console) :=
  retold_of_mirrors
    (mirrors_runFrom program.linked bound 0 start console Replica.empty Storage.mirrors_empty)

/-- A product on the passage is no push, so the duplication behind it repeats the factor. -/
example :
    let passage : Slot := ⟨passageSlot, by decide⟩
    let log : List (Operation Int) :=
      [.push passage 2, .push passage 3, .combine passage .mul, .dup passage]
    (Replica.replay log).values passage = [6, 3] := rfl

end Machine
end HangulPane
