import HangulPane.Proofs.Program.Agreement
import HangulPane.Proofs.Program.Optimize

namespace HangulPane

/-!
What moving blocks makes of a program.

Each move takes one jump away and puts the other instructions in a new order.  Along the moves we
keep the old index of every instruction that is still there, in the new order, and the old indices
of the jumps that are gone.  Together these are all indices of the program.  A label that is
still referred to stands for the instruction that it stood for; if that was a jump that is gone,
it stands for the first instruction that is met by following the jumps that are gone.
-/

theorem filterMap_range_getElem? {α : Type} (values : List α) :
    (List.range values.length).filterMap (fun index => values[index]?) = values := by
  apply List.ext_getElem?
  intro index
  rw [getElem?_filterMap_of_isSome]
  · by_cases inside : index < values.length
    · rw [List.getElem?_range inside, Option.bind_some]
    · rw [List.getElem?_eq_none (by simpa using inside),
        List.getElem?_eq_none (Nat.le_of_not_lt inside), Option.bind_none]
  · intro index listed
    simpa using listed

namespace Program
namespace Block

variable {size : Nat}

theorem nodup_order (block : Block size) : block.order.Nodup := by
  have apart := block.apart
  have distinct : forall first count, (List.range' first count).Nodup :=
    fun _ _ => List.nodup_range' ..
  unfold order
  split
  · simp only [List.nodup_append, distinct, List.mem_append, List.mem_range'_1, true_and]
    refine ⟨⟨?_, ?_⟩, ?_⟩ <;> omega
  · simp only [List.nodup_append, distinct, List.mem_append, List.mem_range'_1, true_and]
    refine ⟨⟨?_, ?_⟩, ?_⟩ <;> omega

/-- The new order leaves out the jump and nothing else. -/
theorem perm_order (block : Block size) : (block.entry :: block.order).Perm (List.range size) := by
  have apart := block.apart
  have listed : forall index, index ∈ block.entry :: block.order <-> index ∈ List.range size := by
    intro index
    rw [List.mem_cons, block.mem_order, List.mem_range]
    omega
  have unlisted : block.entry ∉ block.order := fun member => ((block.mem_order _).mp member).2 rfl
  exact (List.perm_ext_iff_of_nodup (List.nodup_cons.mpr ⟨unlisted, block.nodup_order⟩)
    List.nodup_range).mpr listed

/-- Values in the new order, without the one at the index of the jump. -/
def arrange (block : Block size) {α : Type} (values : List α) : List α :=
  block.order.filterMap fun index => values[index]?

section Arrange

variable {α : Type} (block : Block size) {values : List α} (fits : values.length = size)
include fits

theorem getElem?_arrange (index : Nat) :
    (block.arrange values)[index]? = block.order[index]?.bind fun old => values[old]? := by
  apply getElem?_filterMap_of_isSome
  intro old listed
  have inside := ((block.mem_order old).mp listed).1
  simpa [fits] using inside

theorem getElem?_arrange_newIndex {index : Nat} (inside : index < size)
    (other : index ≠ block.entry) :
    (block.arrange values)[block.newIndex index]? = values[index]? := by
  rw [block.getElem?_arrange fits, block.getElem?_order_newIndex inside other, Option.bind_some]

/-- Only the value at the index of the jump is lost. -/
theorem perm_arrange {value : α} (standing : values[block.entry]? = some value) :
    (value :: block.arrange values).Perm values := by
  have whole : (List.range size).filterMap (fun index => values[index]?) = values := by
    rw [← fits, filterMap_range_getElem?]
  have moved := block.perm_order.filterMap fun index => values[index]?
  rwa [List.filterMap_cons_some standing, whole] at moved

end Arrange
end Block

/-- Whether a program is made of another one by the given number of moves, each of the first
block that can be moved. -/
inductive MovesTo (program : Program) : Nat -> Program -> Prop where
  | unmoved : MovesTo program 0 program
  | move {count : Nat} {current : Program} {block : Block current.size}
      (before : MovesTo program count current) (found : current.movableBlock? = some block) :
      MovesTo program (count + 1) (current.relocate block)

/-- Whether an index of a program leads to a place in a new order of its instructions: the place
of the instruction itself, or, for a jump that is gone, that to which its destination leads. -/
inductive Lands (program : Program) (order removed : List Nat) : Nat -> Nat -> Prop where
  | kept {index place : Nat} (standing : order[place]? = some index) :
      Lands program order removed index place
  | passed {index next place : Nat} (gone : index ∈ removed)
      (jumps : program.jumpDestination? index = some next)
      (later : Lands program order removed next place) : Lands program order removed index place

/-- Whether a program consists of the instructions of another one at the given old indices, in
this order, where the others are jumps, and every label is still in place. -/
structure Rearranged (program : Program) (order removed : List Nat) (result : Program) :
    Prop where
  /-- Every old index is listed once. -/
  parted : (order ++ removed).Perm (List.range program.size)
  jumps : forall index, index ∈ removed -> (program.jumpDestination? index).isSome = true
  size : result.size = order.length
  code : forall place : Nat, result.code[place]? = order[place]?.bind fun old => program.code[old]?
  /-- What a label stands for is still there, or the jumps that are gone lead on from it. -/
  landed : forall label, label ∈ result.referredLabels -> program.target label < program.size ->
    program.Lands order removed (program.target label) (result.target label)
  /-- The end stays the end. -/
  ended : forall label, label ∈ result.referredLabels -> program.size ≤ program.target label ->
    result.size ≤ result.target label

theorem Lands.lt_length {program : Program} {order removed : List Nat} {index place : Nat}
    (lands : program.Lands order removed index place) : place < order.length := by
  induction lands with
  | kept standing => exact (List.getElem?_eq_some_iff.mp standing).1
  | passed _ _ _ inductionHypothesis => exact inductionHypothesis

/-- Moving a block brings no new label. -/
theorem mem_referredLabels_of_relocate {program : Program} {block : Block program.size}
    {label : Nat} (referred : label ∈ (program.relocate block).referredLabels) :
    label ∈ program.referredLabels := by
  rw [mem_referredLabels_iff_getElem?] at referred ⊢
  rcases referred with ⟨index, instruction, fetched, labelled⟩
  rw [getElem?_relocate] at fetched
  rcases Option.bind_eq_some_iff.mp fetched with ⟨old, _, stood⟩
  exact ⟨old, instruction, stood, labelled⟩

theorem rearranged_self (program : Program) :
    program.Rearranged (List.range program.size) [] program where
  parted := by rw [List.append_nil]
  jumps := fun index gone => absurd gone List.not_mem_nil
  size := List.length_range.symm
  code := by
    intro place
    by_cases inside : place < program.size
    · rw [List.getElem?_range inside, Option.bind_some]
    · rw [List.getElem?_eq_none (by simpa using inside), Option.bind_none]
      exact Array.getElem?_eq_none (Nat.le_of_not_lt inside)
  landed := fun label _ inside => .kept (List.getElem?_range inside)
  ended := fun _ _ beyond => beyond

namespace Rearranged

variable {program current : Program} {order removed : List Nat}
  (rearranged : program.Rearranged order removed current)
include rearranged

/-- The instructions that are there and the jumps that are gone are those of the program. -/
theorem perm_code :
    (current.code.toList ++ removed.filterMap fun index => program.code[index]?).Perm
      program.code.toList := by
  have inside : forall index, index ∈ order -> index < program.size := by
    intro index listed
    exact List.mem_range.mp (rearranged.parted.mem_iff.mp (List.mem_append_left _ listed))
  have gathered : current.code.toList = order.filterMap fun index => program.code[index]? := by
    apply List.ext_getElem?
    intro place
    rw [Array.getElem?_toList, rearranged.code, getElem?_filterMap_of_isSome]
    intro index listed
    exact Option.isSome_iff_exists.mpr ⟨_, Array.getElem?_eq_getElem (inside index listed)⟩
  have whole := rearranged.parted.filterMap fun index => program.code[index]?
  rw [List.filterMap_append, ← gathered] at whole
  have all := filterMap_range_getElem? program.code.toList
  simp only [Array.length_toList, Array.getElem?_toList] at all
  rwa [show program.size = program.code.size from rfl, all] at whole

theorem removeUnusedLabels :
    program.Rearranged order removed current.removeUnusedLabels where
  parted := rearranged.parted
  jumps := rearranged.jumps
  size := rearranged.size
  code := rearranged.code
  landed := by
    intro label referred inside
    rw [current.target_removeUnusedLabels referred]
    exact rearranged.landed label referred inside
  ended := by
    intro label referred beyond
    rw [current.target_removeUnusedLabels referred]
    exact rearranged.ended label referred beyond

section Relocate

variable {block : Block current.size} {gone : Nat}

/-- Whatever leads elsewhere than to the jump that goes now is led to the new index. -/
theorem lands_of_ne {index place : Nat} (lands : program.Lands order removed index place)
    (other : place ≠ block.entry) :
    program.Lands (block.arrange order) (gone :: removed) index (block.newIndex place) := by
  have inside : place < current.size := rearranged.size.symm ▸ lands.lt_length
  induction lands with
  | kept found =>
      apply Lands.kept
      rw [block.getElem?_arrange_newIndex rearranged.size.symm inside other]
      exact found
  | passed member jumps _ inductionHypothesis =>
      exact .passed (List.mem_cons_of_mem _ member) jumps (inductionHypothesis other inside)

variable (standing : order[block.entry]? = some gone) (movable : current.Movable block)
include standing movable

/-- What goes now was a jump in the program as well. -/
theorem exists_gone :
    ∃ label, program.code[gone]? = some (.jmp label) ∧ label ∈ current.referredLabels ∧
      current.target label = block.start := by
  rcases exists_of_jumpDestination? movable.entered with ⟨label, fetched, leads⟩
  refine ⟨label, ?_, mem_referredLabels_iff_getElem?.mpr ⟨_, _, fetched, rfl⟩, leads⟩
  rw [rearranged.code, standing, Option.bind_some] at fetched
  exact fetched

/-- The jump that goes now leads to the new index of the block. -/
theorem lands_gone :
    program.Lands (block.arrange order) (gone :: removed) gone (block.newIndex block.start) := by
  have apart := block.apart
  rcases rearranged.exists_gone standing movable with ⟨label, fetched, referred, leads⟩
  -- The end of the program has stayed the end, and the block does not start there.
  have inside : program.target label < program.size := by
    apply Nat.lt_of_not_le
    intro beyond
    have past := rearranged.ended label referred beyond
    omega
  have lands := rearranged.landed label referred inside
  rw [leads] at lands
  exact .passed (List.mem_cons_self ..) (jumpDestination?_of_jmp fetched)
    (rearranged.lands_of_ne lands (by omega))

/-- Whatever leads to a place leads to the new index of that place. -/
theorem lands_relocate {index place : Nat} (lands : program.Lands order removed index place) :
    program.Lands (block.arrange order) (gone :: removed) index (block.newIndex place) := by
  by_cases entry : place = block.entry
  · -- The chain that ended at the jump goes one jump further, to the start of the block.
    rw [entry, block.newIndex_entry]
    induction lands with
    | kept found =>
        rw [entry, standing] at found
        cases found
        exact rearranged.lands_gone standing movable
    | passed member jumps _ inductionHypothesis =>
        exact .passed (List.mem_cons_of_mem _ member) jumps (inductionHypothesis entry)
  · exact rearranged.lands_of_ne lands entry

theorem relocate_of_standing :
    program.Rearranged (block.arrange order) (gone :: removed) (current.relocate block) := by
  have fits : order.length = current.size := rearranged.size.symm
  have moved := block.perm_arrange fits standing
  exact {
    parted := (List.perm_middle.trans (moved.append_right removed)).trans rearranged.parted
    jumps := by
      intro index member
      rcases List.mem_cons.mp member with rfl | before
      · rcases rearranged.exists_gone standing movable with ⟨label, fetched, _, _⟩
        rw [jumpDestination?_of_jmp fetched, Option.isSome_some]
      · exact rearranged.jumps index before
    size := by
      have shorter := moved.length_eq
      rw [List.length_cons] at shorter
      rw [size_relocate]
      omega
    code := by
      intro place
      rw [getElem?_relocate, block.getElem?_arrange fits, Option.bind_assoc]
      simp only [rearranged.code]
    landed := by
      intro label referred inside
      rw [target_relocate]
      exact rearranged.lands_relocate standing movable
        (rearranged.landed label (mem_referredLabels_of_relocate referred) inside)
    ended := by
      intro label referred beyond
      have past := rearranged.ended label (mem_referredLabels_of_relocate referred) beyond
      exact Nat.le_of_eq
        (by rw [size_relocate, target_relocate, block.newIndex_of_ge past]) }

end Relocate

/-- One move takes one more jump away. -/
theorem relocate {block : Block current.size} (movable : current.Movable block) :
    ∃ newOrder gone, program.Rearranged newOrder (gone :: removed) (current.relocate block) := by
  have apart := block.apart
  have inside : block.entry < order.length := by
    rw [← rearranged.size]
    omega
  exact ⟨_, _, rearranged.relocate_of_standing (List.getElem?_eq_getElem inside) movable⟩

end Rearranged

/-- Every number of moves takes that number of jumps away. -/
theorem MovesTo.rearranged {program current : Program} {count : Nat}
    (moves : program.MovesTo count current) :
    ∃ order removed, removed.length = count ∧ program.Rearranged order removed current := by
  induction moves with
  | unmoved => exact ⟨_, [], rfl, program.rearranged_self⟩
  | move _ found inductionHypothesis =>
      rcases inductionHypothesis with ⟨order, removed, counted, rearranged⟩
      rcases rearranged.relocate (movable_of_movableBlock? found) with ⟨newOrder, gone, further⟩
      exact ⟨newOrder, gone :: removed, congrArg Nat.succ counted, further⟩

/-- Moving blocks ends, with a program in which none can be moved. -/
theorem MovesTo.moveBlocks {program current : Program} {count : Nat}
    (moves : program.MovesTo count current) :
    ∃ total, program.MovesTo total current.moveBlocks ∧
      current.moveBlocks.movableBlock? = none := by
  induction current using moveBlocks.induct generalizing count with
  | case1 current nothing =>
      rw [Program.moveBlocks, nothing]
      exact ⟨count, moves, nothing⟩
  | case2 current block found inductionHypothesis =>
      rw [Program.moveBlocks, found]
      exact inductionHypothesis (.move moves found)

theorem jumpDestination?_removeUnusedLabels (program : Program) (index : Nat) :
    program.removeUnusedLabels.jumpDestination? index = program.jumpDestination? index := by
  cases fetched : program.code[index]? with
  | none => simp only [jumpDestination?, removeUnusedLabels, fetched]
  | some instruction =>
      cases instruction with
      | jmp label =>
          have referred : label ∈ program.referredLabels :=
            mem_referredLabels_iff_getElem?.mpr ⟨index, _, fetched, rfl⟩
          rw [jumpDestination?_of_jmp fetched, ← program.target_removeUnusedLabels referred]
          exact jumpDestination?_of_jmp fetched
      | _ => simp only [jumpDestination?, removeUnusedLabels, fetched]

/-- Without labels that no instruction refers to, the same blocks can be moved. -/
theorem movableBlock?_removeUnusedLabels (program : Program) :
    program.removeUnusedLabels.movableBlock? = program.movableBlock? :=
  movableBlock?_congr program.jumpDestination?_removeUnusedLabels

/-- Moving blocks ends after as many moves as jumps are gone, when no block can be moved.  The
other instructions are all there, and no others; every label that is still referred to stands for
the instruction that it stood for, for the one to which the jumps that are gone lead from there,
or as before for the end.  The result runs like the program. -/
theorem reorderBlocks_settles (N : Type) [Number N] (program : Program) :
    ∃ moved order removed, program.MovesTo removed.length moved ∧
      program.reorderBlocks = moved.removeUnusedLabels ∧
      program.reorderBlocks.movableBlock? = none ∧
      (program.reorderBlocks.code.toList ++
        removed.filterMap fun index => program.code[index]?).Perm program.code.toList ∧
      program.Rearranged order removed program.reorderBlocks ∧
      RunsAlike N program program.reorderBlocks ∧
      RunsAlike N program.reorderBlocks program := by
  rcases MovesTo.moveBlocks (.unmoved : program.MovesTo 0 program) with ⟨count, moves, settled⟩
  rcases moves.rearranged with ⟨order, removed, rfl, before⟩
  have rearranged : program.Rearranged order removed program.reorderBlocks :=
    before.removeUnusedLabels
  refine ⟨program.moveBlocks, order, removed, moves, rfl, ?_, rearranged.perm_code, rearranged,
    runsAlike_of_sameBehaviour program.sameBehaviour_reorderBlocks⟩
  exact program.moveBlocks.movableBlock?_removeUnusedLabels.trans settled

end Program
end HangulPane
