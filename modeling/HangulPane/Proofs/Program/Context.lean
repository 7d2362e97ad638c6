import HangulPane.Program.Collapse
import HangulPane.Program.Reach
import HangulPane.Proofs.Program.Analysis
import HangulPane.Proofs.Program.Collapse
import HangulPane.Proofs.Program.Depth

namespace HangulPane

/-!
Which instructions run with a stack selected.

The context of a program says of each instruction whether it may run with the queue or
the passage selected.  It is closed under control flow, and stays so while jumps are
collapsed.  Together with the fact that no slot ever changes the kind of its storage it
shows that an instruction with the context of a stack finds a stack.
-/

namespace Slot

/-- The kind of storage that a slot holds. -/
def kind (slot : Slot) : SpaceKind :=
  if slot.val = queueSlot then .queue
  else if slot.val = passageSlot then .passage
  else .stack

/-- Whether a slot holds the queue or the passage. -/
def IsSpecial (slot : Slot) : Prop :=
  slot.val = queueSlot ∨ slot.val = passageSlot

theorem kind_of_not_isSpecial {slot : Slot} (plain : ¬ slot.IsSpecial) : slot.kind = .stack := by
  unfold IsSpecial at plain
  unfold kind
  rw [if_neg (fun queue => plain (Or.inl queue)), if_neg (fun passage => plain (Or.inr passage))]

end Slot

/-- Whether each slot holds a storage of its kind. -/
def Storage.Shaped {N : Type} (storage : Storage N) : Prop :=
  forall slot : Slot, (storage.get slot).kind = slot.kind

namespace Storage

variable {N : Type}

theorem shaped_empty [Number N] : (empty : Storage N).Shaped := by
  intro slot
  have held : (empty : Storage N).get slot = Space.forSlot slot.val := by
    simp [empty, get]
  rw [held]
  unfold Space.forSlot Slot.kind
  split
  · rfl
  · split <;> rfl

theorem Shaped.set {storage : Storage N} (shaped : storage.Shaped) (slot : Slot) {space : Space N}
    (kind : space.kind = slot.kind) : (storage.set slot space).Shaped := by
  intro other
  by_cases same : slot = other
  · subst same
    rw [get_set_self]
    exact kind
  · rw [get_set_of_ne _ _ same]
    exact shaped other

end Storage

namespace Machine

variable {N : Type}

theorem Alters.shaped {instruction : Instruction} {machine next : Machine N}
    (alters : Alters instruction machine next) (shaped : machine.storage.Shaped) :
    next.storage.Shaped := by
  rcases alters with ⟨space, notSelect, notMove, becomes, size, kind⟩ |
    ⟨byte, slot, rfl, named, becomes⟩ | ⟨byte, slot, value, rest, rfl, named, popped, becomes⟩
  · rw [becomes]
    exact shaped.set machine.selected (kind.trans (shaped machine.selected))
  · rw [becomes]
    exact shaped
  · have kinds := Space.size_of_pop popped
    have afterPop := shaped.set machine.selected (kinds.2.trans (shaped machine.selected))
    rw [becomes]
    refine afterPop.set slot ?_
    rw [Space.kind_push]
    exact afterPop slot

/-- The selected storage of a stack slot is a stack. -/
theorem exists_stack {machine : Machine N} (shaped : machine.storage.Shaped)
    (plain : ¬ machine.selected.IsSpecial) : ∃ items, machine.space = .stack items := by
  have kind : machine.space.kind = .stack :=
    (shaped machine.selected).trans (Slot.kind_of_not_isSpecial plain)
  cases space : machine.space with
  | stack items => exact ⟨items, rfl⟩
  | queue items => simp [space, Space.kind] at kind
  | passage items lastPush => simp [space, Space.kind] at kind

end Machine

namespace Program

/-- A context of an index that allows for a special storage if it has to. -/
def Allows (context : Array (Option Bool)) (size index : Nat) (special : Bool) : Prop :=
  index < size -> ∃ known, context[index]? = some (some known) ∧
    (special = true -> known = true)

/-- Whether a context is closed under the control flow of a program. -/
structure Contextual (program : Program) (context : Array (Option Bool)) : Prop where
  first : Allows context program.size 0 false
  next : forall index instruction special, context[index]? = some (some special) ->
    program.code[index]? = some instruction -> forall other, other ∈ program.successors index ->
    Allows context program.size other (specialAfter instruction special)

theorem respects_contextGraph (program : Program) :
    program.contextGraph.Respects fun known fact => fact = true -> known = true where
  refl := fun _ special => special
  refused := by
    intro recorded arriving refused
    cases recorded <;> cases arriving <;> simp [contextGraph] at refused ⊢
  arrived := by
    intro recorded arriving joined joining
    cases recorded <;> cases arriving <;> simp [contextGraph] at joining ⊢
    exact joining
  kept := by
    intro recorded arriving joined fact joining
    cases recorded <;> cases arriving <;> simp [contextGraph] at joining ⊢
    exact fun _ _ => joining

theorem allows_of_accounted {program : Program} {memo : Memo Bool} {index : Nat} {special : Bool}
    (accounted : program.contextGraph.Accounted (fun known fact => fact = true -> known = true)
      memo [] index special) : Allows memo program.size index special := by
  intro inside
  cases accounted with
  | waiting listed => simp at listed
  | outside beyond => exact absurd inside (Nat.not_lt.mpr beyond)
  | passed next passing _ => simp [contextGraph] at passing
  | recorded known found covered => exact ⟨known, found, covered⟩

/-- The context of a program is closed under its control flow. -/
theorem contextual_storageContext (program : Program) :
    program.Contextual program.storageContext where
  first := allows_of_accounted
    (Exploration.accounted_outcome program.respects_contextGraph (List.mem_singleton.mpr rfl))
  next := by
    intro index instruction special known fetched other successor
    refine allows_of_accounted
      (Exploration.closed_outcome program.respects_contextGraph index special known
        (other, specialAfter instruction special) ?_)
    simp only [contextGraph, fetched]
    exact List.mem_map.mpr ⟨other, successor, rfl⟩

theorem Allows.mono {context : Array (Option Bool)} {size index : Nat} {less more : Bool}
    (allows : Allows context size index more) (le : less = true -> more = true) :
    Allows context size index less := by
  intro inside
  rcases allows inside with ⟨known, found, covered⟩
  exact ⟨known, found, fun special => covered (le special)⟩

/-- What is allowed at an index with a plain instruction is allowed where that leads. -/
theorem Contextual.follow {program : Program} {context : Array (Option Bool)}
    (closed : program.Contextual context) {index other : Nat} {special : Bool}
    {instruction : Instruction} (allows : Allows context program.size index special)
    (fetched : program.code[index]? = some instruction)
    (plain : forall byte, instruction ≠ .sel byte)
    (successor : other ∈ program.successors index) :
    Allows context program.size other special := by
  have inside : index < program.size := (Array.getElem?_eq_some_iff.mp fetched).1
  rcases allows inside with ⟨known, found, covered⟩
  refine (closed.next index instruction known found fetched other successor).mono ?_
  have same : specialAfter instruction known = known := by
    cases instruction with
    | sel byte => exact absurd rfl (plain byte)
    | _ => rfl
  rw [same]
  exact covered

theorem mem_successors_of_fallsThrough {program : Program} {index : Nat}
    {instruction : Instruction} (fetched : program.code[index]? = some instruction)
    (falls : instruction.fallsThrough = true) : index + 1 ∈ program.successors index := by
  have follows : Machine.Follows instruction program.target program.target index index
      (index + 1) (index + 1) := Or.inl ⟨falls, rfl, rfl⟩
  exact mem_successors_of_follows fetched follows

theorem mem_successors_of_label {program : Program} {index label : Nat}
    {instruction : Instruction} (fetched : program.code[index]? = some instruction)
    (labelled : instruction.label? = some label) :
    program.target label ∈ program.successors index :=
  mem_successors_of_follows fetched (Or.inr ⟨label, labelled, rfl, rfl⟩)

/-- Control goes on with the next instruction or at the target of a label. -/
theorem mem_successors {program : Program} {index other : Nat} {instruction : Instruction}
    (fetched : program.code[index]? = some instruction)
    (successor : other ∈ program.successors index) :
    (instruction.fallsThrough = true ∧ other = index + 1) ∨
      ∃ label, instruction.label? = some label ∧ other = program.target label := by
  unfold successors at successor
  rw [fetched] at successor
  cases instruction <;>
    simp_all [Instruction.fallsThrough, Instruction.label?]

theorem Contextual.collapseLabel {program : Program} {context : Array (Option Bool)}
    (closed : program.Contextual context) (label : Nat) :
    (program.collapseLabel label).Contextual context where
  first := by
    rw [size_collapseLabel]
    exact closed.first
  next := by
    intro index instruction special known fetched other successor
    rw [size_collapseLabel]
    have before := closed.next index instruction special known
    rw [code_collapseLabel] at fetched
    have fetchedAfter : (program.collapseLabel label).code[index]? = some instruction := by
      rw [code_collapseLabel, fetched]
    rcases mem_successors fetchedAfter successor with ⟨falls, rfl⟩ | ⟨used, labelled, rfl⟩
    · exact before fetched _ (mem_successors_of_fallsThrough fetched falls)
    · have atTarget := before fetched _ (mem_successors_of_label fetched labelled)
      rcases program.target_collapseLabel label used with same | ⟨next, rfl, jump, _, moved⟩
      · rw [same]
        exact atTarget
      · rw [moved]
        exact closed.follow atTarget jump (by simp)
          (mem_successors_of_label jump rfl)

theorem Contextual.collapseJumps {program : Program} {context : Array (Option Bool)}
    (closed : program.Contextual context) : program.collapseJumps.Contextual context := by
  unfold Program.collapseJumps
  generalize program.labels.keys = labels
  induction labels generalizing program with
  | nil => exact closed
  | cons label later inductionHypothesis => exact inductionHypothesis (closed.collapseLabel label)

section Runs

variable {N : Type}

/-- What is known of the machines of a run from a context: the storages have the kinds of
their slots, and the context of the index allows for the selected one. -/
structure InContext (program : Program) (context : Array (Option Bool)) (machine : Machine N) :
    Prop where
  shaped : machine.storage.Shaped
  allowed : machine.index < program.size -> ∃ known,
    context[machine.index]? = some (some known) ∧ (machine.selected.IsSpecial -> known = true)

theorem specialAfter_of_alters {instruction : Instruction} {machine next : Machine N}
    {special : Bool} (alters : Machine.Alters instruction machine next)
    (allowed : machine.selected.IsSpecial -> special = true) :
    next.selected.IsSpecial -> specialAfter instruction special = true := by
  rcases alters with ⟨space, notSelect, notMove, becomes, size, kind⟩ |
    ⟨byte, slot, rfl, named, becomes⟩ | ⟨byte, slot, value, rest, rfl, named, popped, becomes⟩
  · rw [becomes]
    cases instruction with
    | sel byte => exact absurd rfl (notSelect byte)
    | _ => exact allowed
  · rw [becomes]
    intro chosen
    unfold Slot.IsSpecial at chosen
    dsimp only at chosen
    rw [Slot.val_of_ofByte? named] at chosen
    simpa [specialAfter, isSpecialSlot] using chosen
  · rw [becomes]
    exact allowed

/-- An instruction with the context of a stack runs with a stack selected. -/
theorem InContext.exists_stack {program : Program} {context : Array (Option Bool)}
    {machine : Machine N} (held : program.InContext context machine)
    (inside : machine.index < program.size)
    (stackOnly : context[machine.index]? = some (some false)) :
    ∃ items, machine.space = .stack items := by
  rcases held.allowed inside with ⟨known, found, covered⟩
  rw [stackOnly] at found
  cases found
  refine Machine.exists_stack held.shaped ?_
  intro special
  exact absurd (covered special) (by decide)

variable [Number N]

/-- Every step keeps a machine in its context. -/
theorem Contextual.maintains {program : Program} {context : Array (Option Bool)}
    (closed : program.Contextual context) :
    Machine.Maintains program.linked (InContext (N := N) program context) := by
  intro machine console call after next held moves
  rcases program.goesOn_cases moves with ⟨instruction, fetched, successor, alters⟩
  have inside : machine.index < program.size := (Array.getElem?_eq_some_iff.mp fetched).1
  rcases held.allowed inside with ⟨special, known, allowed⟩
  refine ⟨alters.shaped held.shaped, ?_⟩
  intro insideNext
  rcases closed.next machine.index instruction special known fetched next.index successor
    insideNext with ⟨knownNext, foundNext, covered⟩
  exact ⟨knownNext, foundNext, fun special =>
    covered (specialAfter_of_alters alters allowed special)⟩

theorem Contextual.inContext_start {program : Program} {context : Array (Option Bool)}
    (closed : program.Contextual context) :
    InContext (N := N) program context Machine.start := by
  refine ⟨Storage.shaped_empty, ?_⟩
  intro inside
  rcases closed.first inside with ⟨known, found, _⟩
  refine ⟨known, found, ?_⟩
  intro special
  simp [Machine.start, Slot.IsSpecial, queueSlot, passageSlot] at special

end Runs
end Program
end HangulPane
