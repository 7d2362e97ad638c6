import HangulPane.Machine.Run

namespace HangulPane

/-!
Storages and machines under a change of their numbers.

A machine with numbers of one kind has an image with numbers of another kind: every number
that it holds is exchanged for its image, and all else stays.  Operations that only move
numbers about do the same to a machine and to its image.
-/

namespace Space

variable {N M : Type} (change : N -> M)

/-- The storage with its items, and its last push, exchanged for their images. -/
def map : Space N -> Space M
  | .stack items => .stack (items.map change)
  | .queue items => .queue (items.map change)
  | .passage items lastPush => .passage (items.map change) (change lastPush)

@[simp]
theorem items_map (space : Space N) : (space.map change).items = space.items.map change := by
  cases space <;> rfl

@[simp]
theorem size_map (space : Space N) : (space.map change).size = space.size := by
  simp [size]

theorem map_withItems (items : List N) (space : Space N) :
    (space.withItems items).map change = (space.map change).withItems (items.map change) := by
  cases space <;> rfl

theorem lastPush?_map (space : Space N) :
    (space.map change).lastPush? = space.lastPush?.map change := by
  cases space <;> rfl

theorem map_push (value : N) (space : Space N) :
    (space.push value).map change = (space.map change).push (change value) := by
  cases space <;> simp [map, push]

theorem pop_map (space : Space N) :
    (space.map change).pop =
      space.pop.map fun popped => (change popped.1, popped.2.map change) := by
  unfold pop
  rw [items_map]
  cases space.items with
  | nil => rfl
  | cons value rest => simp [map_withItems, Except.map]

theorem dup_map (space : Space N) :
    (space.map change).dup = space.dup.map (Space.map change) := by
  unfold dup
  rw [items_map, lastPush?_map]
  cases space.items with
  | nil => rfl
  | cons value rest => cases space.lastPush? <;> simp [map_withItems, Except.map]

theorem swap_map (space : Space N) :
    (space.map change).swap = space.swap.map (Space.map change) := by
  unfold swap
  rw [items_map]
  match space.items with
  | [] => rfl
  | [_] => rfl
  | first :: second :: rest => simp [map_withItems, Except.map]

theorem map_putResult (value : N) (rest : List N) (space : Space N) :
    (space.putResult value rest).map change =
      (space.map change).putResult (change value) (rest.map change) := by
  cases space <;> simp [map, putResult, withItems]

theorem map_keepAfterFailure (left : N) (rest : List N) (space : Space N) :
    (space.keepAfterFailure left rest).map change =
      (space.map change).keepAfterFailure (change left) (rest.map change) := by
  cases space <;> simp [map, keepAfterFailure, withItems]

end Space

namespace Storage

variable {N M : Type} (change : N -> M)

/-- The storages, each exchanged for its image. -/
def map (storage : Storage N) : Storage M where
  spaces := storage.spaces.map (Space.map change)

@[simp]
theorem get_map (storage : Storage N) (slot : Slot) :
    (storage.map change).get slot = (storage.get slot).map change := by
  simp [map, get]

theorem map_set (storage : Storage N) (slot : Slot) (space : Space N) :
    (storage.set slot space).map change = (storage.map change).set slot (space.map change) := by
  simp [map, set, Vector.map_set]

end Storage

/-- The machine with its numbers exchanged for their images. -/
def Machine.map {N M : Type} (change : N -> M) (machine : Machine N) : Machine M where
  index := machine.index
  selected := machine.selected
  storage := machine.storage.map change

/-- The step with the numbers of its machine exchanged for their images. -/
def Stepped.map {N M : Type} (change : N -> M) (stepped : Stepped N) : Stepped M where
  result := stepped.result
  machine := stepped.machine.map change
  console := stepped.console

/-- The ending with its value exchanged for its image. -/
def Ending.map {N M : Type} (change : N -> M) : Ending N -> Ending M
  | .finished value => .finished (change value)
  | .faulted fault => .faulted fault
  | .unfinished => .unfinished

/-- The run with all numbers exchanged for their images. -/
def Run.map {N M : Type} (change : N -> M) (run : Run N) : Run M where
  ending := run.ending.map change
  machine := run.machine.map change
  console := run.console
  steps := run.steps

namespace Machine

variable {N M : Type} (change : N -> M) (machine : Machine N) (console : Console)

@[simp]
theorem space_map : (machine.map change).space = machine.space.map change := by
  simp [space, map]

theorem map_withSpace (space : Space N) :
    (machine.withSpace space).map change = (machine.map change).withSpace (space.map change) := by
  simp [withSpace, map, Storage.map_set]

theorem map_push (value : N) :
    (machine.push value).map change = (machine.map change).push (change value) := by
  simp [push, map_withSpace, Space.map_push]

/-- Pushing a value and going on. -/
theorem proceed_push_map (value : N) :
    ((machine.map change).push (change value)).proceed console =
      ((machine.push value).proceed console).map change := by
  rw [← map_push]
  rfl

theorem popThen_map {next : N -> Machine N -> Stepped N} {image : M -> Machine M -> Stepped M}
    (same : forall value machine,
      image (change value) (machine.map change) = (next value machine).map change) :
    (machine.map change).popThen console image = (machine.popThen console next).map change := by
  unfold popThen
  rw [space_map, Space.pop_map]
  cases machine.space.pop with
  | error fault => rfl
  | ok popped =>
      simp only [Except.map, ← map_withSpace]
      exact same popped.1 (machine.withSpace popped.2)

theorem proceedWith_map (changed : Except SpaceFault (Space N)) :
    (machine.map change).proceedWith console (changed.map (Space.map change)) =
      (machine.proceedWith console changed).map change := by
  cases changed with
  | error fault => rfl
  | ok space =>
      simp only [Except.map, proceedWith, ← map_withSpace]
      rfl

theorem select_map (slot : UInt8) :
    (machine.map change).select console slot = (machine.select console slot).map change := by
  unfold select
  cases Slot.ofByte? slot <;> rfl

theorem move_map (slot : UInt8) :
    (machine.map change).move console slot = (machine.move console slot).map change := by
  unfold move
  cases Slot.ofByte? slot with
  | none => rfl
  | some slot =>
      refine machine.popThen_map change console ?_
      intro value machine
      simp [map, Stepped.map, proceed, Storage.map_set, Space.map_push]

theorem output_map {write : Console -> N -> Except ChannelFault Unit × Console}
    {image : Console -> M -> Except ChannelFault Unit × Console}
    (same : forall value, image console (change value) = write console value) :
    (machine.map change).output console image = (machine.output console write).map change := by
  refine machine.popThen_map change console ?_
  intro value machine
  rw [same]
  rcases write console value with ⟨_ | _, _⟩ <;> rfl

variable [Number N] [Number M]

theorem takeResult_map (zero : change Number.zero = Number.zero) :
    (machine.map change).takeResult =
      (change machine.takeResult.1, machine.takeResult.2.map change) := by
  unfold takeResult
  rw [space_map, Space.pop_map]
  cases machine.space.pop with
  | error fault => simp only [Except.map, zero]
  | ok popped => simp only [Except.map, map_withSpace]

theorem conclude_map (zero : change Number.zero = Number.zero) (fault? : Option Fault)
    (steps : Nat) :
    (machine.map change).conclude console fault? steps =
      (machine.conclude console fault? steps).map change := by
  unfold conclude
  rcases console.flush with ⟨_ | _, flushed⟩
  · rfl
  · cases fault? with
    | some fault => rfl
    | none =>
        dsimp only
        rw [machine.takeResult_map change zero]
        rfl

theorem map_start (zero : change Number.zero = Number.zero) :
    (start : Machine N).map change = start := by
  have spaces : forall slot : Nat,
      (Space.forSlot slot : Space N).map change = Space.forSlot slot := by
    intro slot
    unfold Space.forSlot
    split
    · rfl
    · split
      · simp only [Space.map, zero, List.map_nil]
      · rfl
  simp [map, start, Storage.map, Storage.empty, Vector.map_ofFn, Function.comp_def, spaces]

end Machine
end HangulPane
