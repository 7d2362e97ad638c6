import HangulPane.Instruction
import HangulPane.Space

namespace HangulPane

/-!
All storages of a machine.  Slot 21 is the queue, slot 27 the passage, and every
other slot a stack.
-/

/-- The number of a storage that exists. -/
abbrev Slot := Fin slotCount

def Slot.ofByte? (number : UInt8) : Option Slot :=
  if exists_ : number.toNat < slotCount then some ⟨number.toNat, exists_⟩ else none

/-- The empty storage of a slot. -/
def Space.forSlot {N : Type} [Number N] (slot : Nat) : Space N :=
  if slot = queueSlot then .queue []
  else if slot = passageSlot then .passage [] Number.zero
  else .stack []

/-- The storages of a machine, by slot. -/
structure Storage (N : Type) where
  spaces : Vector (Space N) slotCount

namespace Storage

variable {N : Type}

def empty [Number N] : Storage N where
  spaces := Vector.ofFn fun slot => Space.forSlot slot.val

def get (storage : Storage N) (slot : Slot) : Space N :=
  storage.spaces[slot]

def set (storage : Storage N) (slot : Slot) (space : Space N) : Storage N where
  spaces := storage.spaces.set slot space

/-- The last value pushed onto the passage. -/
def lastPush? (storage : Storage N) : Option N :=
  (storage.get ⟨passageSlot, by decide⟩).lastPush?

/-- The slots that hold something, with their contents. -/
def occupied (storage : Storage N) : List (Nat × List N) :=
  (List.finRange slotCount).filterMap fun slot =>
    let space := storage.get slot
    if space.isEmpty then none else some (slot.val, space.contents)

@[simp]
theorem get_set_self (storage : Storage N) (slot : Slot) (space : Space N) :
    (storage.set slot space).get slot = space := by
  simp [get, set]

theorem get_set_of_ne (storage : Storage N) {slot other : Slot} (space : Space N)
    (different : slot ≠ other) : (storage.set slot space).get other = storage.get other := by
  have values : slot.val ≠ other.val := fun equal => different (Fin.ext equal)
  simp [get, set, Vector.getElem_set_ne _ _ values]

end Storage
end HangulPane
