import HangulPane.Program.Compact
import HangulPane.Proofs.Program.Analysis
import HangulPane.Proofs.Program.Compact

namespace HangulPane

/-!
The depth analyses are sound.

Both analyses bound how many values a storage holds at least.  A run that meets a guard
without a record holds the values that the guard asks for, so the guard only passes
control on and can be deleted.
-/

theorem Slot.val_of_ofByte? {byte : UInt8} {slot : Slot} (named : Slot.ofByte? byte = some slot) :
    slot.val = byte.toNat := by
  unfold Slot.ofByte? at named
  split at named
  · cases named
    rfl
  · contradiction

namespace Program

/-- A greater bound before an instruction gives a greater bound after it. -/
theorem depthAfter_mono (instruction : Instruction) {less more : Nat} (le : less ≤ more) :
    depthAfter instruction less ≤ depthAfter instruction more := by
  unfold depthAfter
  omega

/-- A guard that a bound satisfies is satisfied by every machine of that depth. -/
theorem silently_of_satisfiesGuard {N : Type} [Number N] {program : Program}
    {machine : Machine N} {instruction : Instruction} {depth : Nat}
    (fetched : program.code[machine.index]? = some instruction)
    (satisfied : satisfiesGuard instruction depth = true) (deep : depth ≤ machine.space.size) :
    Machine.Silently program.linked machine (machine.movedTo (machine.index + 1)) := by
  unfold satisfiesGuard at satisfied
  simp only [Bool.and_eq_true, decide_eq_true_eq] at satisfied
  have linked : program.linked[machine.index]? = some (instruction.mapLabel program.target) := by
    simp [getElem?_linked, fetched]
  refine Machine.silently_guard linked ?_ ?_
  · simpa using satisfied.1
  · rw [Instruction.opcode_mapLabel]
    omega

section Coarse

variable {N : Type}

theorem respects_coarseGraph (program : Program) :
    program.coarseGraph.Respects fun known fact => known ≤ fact where
  refl := Nat.le_refl
  refused := by
    intro recorded arriving refused
    simp only [coarseGraph] at refused
    split at refused
    · contradiction
    · omega
  arrived := by
    intro recorded arriving joined joining
    simp only [coarseGraph] at joining
    split at joining
    · cases joining
      exact Nat.le_refl _
    · contradiction
  kept := by
    intro recorded arriving joined fact joining covered
    have lower := program.coarseGraph.join_lt recorded arriving joined joining
    exact Nat.le_trans (Nat.le_of_lt lower) covered

/-- The bound after an instruction holds of the storage that is selected then. -/
theorem coarseAfter_le {instruction : Instruction} {machine next : Machine N} {depth : Nat}
    (deep : depth ≤ machine.space.size) (alters : Machine.Alters instruction machine next) :
    coarseAfter instruction depth ≤ next.space.size := by
  rcases alters with ⟨space, notSelect, notMove, becomes, size, kind⟩ |
    ⟨byte, slot, rfl, named, becomes⟩ | ⟨byte, slot, value, rest, rfl, named, popped, becomes⟩
  · have bounded : coarseAfter instruction depth = depthAfter instruction depth := by
      cases instruction with
      | sel byte => exact absurd rfl (notSelect byte)
      | _ => rfl
    rw [bounded, becomes, Machine.movedTo_space, Machine.space_withSpace, size]
    exact depthAfter_mono instruction deep
  · exact Nat.zero_le _
  · have sizes := Space.size_of_pop popped
    have bounded : coarseAfter (.mov byte) depth = depth - 1 := rfl
    rw [bounded, becomes, Machine.space]
    by_cases same : slot = machine.selected
    · subst same
      simp only [Storage.get_set_self, Space.size_push]
      omega
    · simp only [Storage.get_set_of_ne _ _ same, Storage.get_set_self]
      omega

/-- The coarse analysis passes over exactly the guards that the bound satisfies. -/
theorem coarseGraph_pass_eq_some_iff {program : Program} {index depth : Nat} {next : Nat × Nat} :
    program.coarseGraph.pass index depth = some next <->
      ∃ instruction, program.code[index]? = some instruction ∧
        satisfiesGuard instruction depth = true ∧ next = (index + 1, depth) := by
  simp only [coarseGraph]
  cases program.code[index]? with
  | none => simp
  | some instruction => simp [eq_comm (a := next)]

/-- What the coarse analysis finds no use for has no record. -/
theorem unrecorded_of_not_coarselyLive {program : Program} {index : Nat}
    (dead : isAlive program.coarselyLive index = false) (known : Nat) :
    (program.coarseGraph.outcome [(0, 0)])[index]? ≠ some (some known) := by
  intro found
  simp [isAlive, coarselyLive, found] at dead

variable [Number N]

theorem analyses_coarseGraph (program : Program) :
    program.Analyses program.coarseGraph (fun known fact => known ≤ fact)
      (Machine.index (N := N)) (fun depth machine => depth ≤ machine.space.size) where
  respects := program.respects_coarseGraph
  wider := fun _ _ _ covered deep => Nat.le_trans covered deep
  inside := fun _ index => index
  passes := by
    intro depth machine next deep passing
    rcases coarseGraph_pass_eq_some_iff.mp passing with ⟨instruction, fetched, satisfied, rfl⟩
    exact ⟨silently_of_satisfiesGuard fetched satisfied deep, rfl, deep⟩
  follows := by
    intro depth machine instruction next deep fetched successor alters
    refine ⟨coarseAfter instruction depth, ?_, coarseAfter_le deep alters⟩
    simp only [coarseGraph, fetched]
    exact List.mem_map.mpr ⟨next.index, successor, rfl⟩

/-- Deleting what the coarse analysis finds no use for keeps the behaviour. -/
theorem sameBehaviour_compact_coarselyLive (program : Program) :
    SameBehaviour N program (program.compact program.coarselyLive) := by
  have analysis := analyses_coarseGraph (N := N) program
  refine program.sameBehaviour_compact program.coarselyLive _
    (analysis.maintains_described [(0, 0)]) (analysis.described_start (Nat.zero_le _)) ?_
  intro machine described index dead
  exact analysis.silently_of_unrecorded described index (unrecorded_of_not_coarselyLive dead)

end Coarse

namespace Depths

/-- Bounds cover others that are at least as great in every slot. -/
def Covers (known fact : Depths) : Prop :=
  forall slot : Slot, known.bound slot.val ≤ fact.bound slot.val

/-- The bounds hold of all storages. -/
def Describes {N : Type} (depths : Depths) (storage : Storage N) : Prop :=
  forall slot : Slot, depths.bound slot.val ≤ (storage.get slot).size

theorem bound_eq (depths : Depths) {slot : Nat} (inside : slot < slotCount) :
    depths.bound slot = depths[slot] := by
  simp [bound, inside]

theorem bound_put (depths : Depths) (slot : Slot) (changed depth : Nat) :
    (depths.put changed depth).bound slot.val =
      if changed = slot.val then depth else depths.bound slot.val := by
  simp only [bound_eq _ slot.isLt, put, Vector.getElem_setIfInBounds]

theorem bound_meet (recorded arriving : Depths) (slot : Slot) :
    (recorded.meet arriving).bound slot.val =
      min (recorded.bound slot.val) (arriving.bound slot.val) := by
  simp only [bound_eq _ slot.isLt, meet, Vector.getElem_zipWith]

theorem covers_of_dominates {recorded arriving : Depths}
    (dominates : arriving.dominates recorded = true) : recorded.Covers arriving := by
  intro slot
  rw [bound_eq _ slot.isLt, bound_eq _ slot.isLt]
  have member : (recorded[slot.val], arriving[slot.val]) ∈
      recorded.toList.zip arriving.toList := by
    refine List.mem_iff_getElem.mpr ⟨slot.val, by simp, by simp⟩
  have pair := List.all_eq_true.mp dominates _ member
  simpa using pair

theorem bound_zero (slot : Slot) : zero.bound slot.val = 0 := by
  simp [bound_eq _ slot.isLt, zero]

/-- Replacing one storage together with its bound. -/
theorem Describes.put {N : Type} {depths : Depths} {storage : Storage N}
    (deep : depths.Describes storage) (changed : Slot) {depth : Nat} {space : Space N}
    (bounded : depth ≤ space.size) :
    (depths.put changed.val depth).Describes (storage.set changed space) := by
  intro slot
  rw [bound_put]
  by_cases here : changed = slot
  · subst here
    rw [if_pos rfl, Storage.get_set_self]
    exact bounded
  · rw [if_neg (fun same => here (Fin.ext same)), Storage.get_set_of_ne _ _ here]
    exact deep slot

end Depths

theorem respects_preciseGraph (program : Program) :
    program.preciseGraph.Respects Depths.Covers where
  refl := fun _ _ => Nat.le_refl _
  refused := by
    intro recorded arriving refused
    simp only [preciseGraph] at refused
    split at refused
    · rename_i dominates
      exact Depths.covers_of_dominates dominates
    · contradiction
  arrived := by
    intro recorded arriving joined joining slot
    simp only [preciseGraph] at joining
    split at joining
    · contradiction
    · cases joining
      rw [Depths.bound_meet]
      exact Nat.min_le_right _ _
  kept := by
    intro recorded arriving joined fact joining covered slot
    simp only [preciseGraph] at joining
    split at joining
    · contradiction
    · cases joining
      rw [Depths.bound_meet]
      exact Nat.le_trans (Nat.min_le_left _ _) (covered slot)

theorem precisePlace_div (index : Nat) {selected : Nat} (below : selected < slotNumbers) :
    precisePlace index selected / slotNumbers = index := by
  unfold precisePlace slotNumbers at *
  omega

theorem precisePlace_mod (index : Nat) {selected : Nat} (below : selected < slotNumbers) :
    precisePlace index selected % slotNumbers = selected := by
  unfold precisePlace slotNumbers at *
  omega

section Precise

variable {N : Type}

/-- The place of a machine in the precise analysis. -/
def placeOf (machine : Machine N) : Nat :=
  precisePlace machine.index machine.selected.val

theorem selected_lt_slotNumbers (machine : Machine N) : machine.selected.val < slotNumbers :=
  Nat.lt_of_lt_of_le machine.selected.isLt (by decide)

theorem placeOf_div (machine : Machine N) : placeOf machine / slotNumbers = machine.index :=
  precisePlace_div machine.index (selected_lt_slotNumbers machine)

theorem placeOf_mod (machine : Machine N) :
    placeOf machine % slotNumbers = machine.selected.val :=
  precisePlace_mod machine.index (selected_lt_slotNumbers machine)

theorem placeOf_next (machine : Machine N) :
    placeOf machine + slotNumbers = placeOf (machine.movedTo (machine.index + 1)) := by
  simp only [placeOf, precisePlace, slotNumbers, Machine.movedTo_index, Machine.movedTo_selected]
  omega

theorem selectedAfter_eq {instruction : Instruction} {machine next : Machine N}
    (alters : Machine.Alters instruction machine next) :
    selectedAfter instruction machine.selected.val = next.selected.val := by
  rcases alters with ⟨space, notSelect, notMove, becomes, size, kind⟩ |
    ⟨byte, slot, rfl, named, becomes⟩ | ⟨byte, slot, value, rest, rfl, named, popped, becomes⟩
  · rw [becomes]
    cases instruction with
    | sel byte => exact absurd rfl (notSelect byte)
    | _ => rfl
  · rw [becomes]
    exact (Slot.val_of_ofByte? named).symm
  · rw [becomes]
    rfl

/-- The bounds after an instruction hold of all storages. -/
theorem describes_depthsAfter {instruction : Instruction} {machine next : Machine N}
    {depths : Depths} (deep : depths.Describes machine.storage)
    (alters : Machine.Alters instruction machine next) :
    (depthsAfter instruction machine.selected.val depths).Describes next.storage := by
  have deepSelected : depths.bound machine.selected.val ≤ machine.space.size :=
    deep machine.selected
  rcases alters with ⟨space, notSelect, notMove, becomes, size, kind⟩ |
    ⟨byte, chosen, rfl, named, becomes⟩ |
    ⟨byte, destination, value, rest, rfl, named, popped, becomes⟩
  · have bounds : depthsAfter instruction machine.selected.val depths =
        depths.put machine.selected.val
          (depthAfter instruction (depths.bound machine.selected.val)) := by
      cases instruction with
      | mov byte => exact absurd rfl (notMove byte)
      | _ => rfl
    rw [bounds, becomes]
    exact deep.put machine.selected (size ▸ depthAfter_mono instruction deepSelected)
  · have unchanged : (depths.put machine.selected.val (depths.bound machine.selected.val)).Describes
        (machine.withSpace machine.space).storage := deep.put machine.selected deepSelected
    rw [Machine.withSpace_space] at unchanged
    rw [becomes]
    exact unchanged
  · have sizes := Space.size_of_pop popped
    have taken : depthAfter (.mov byte) (depths.bound machine.selected.val) ≤ rest.size := by
      change depths.bound machine.selected.val - 1 ≤ rest.size
      omega
    have afterPop := deep.put machine.selected taken
    have pushed := afterPop destination
    rw [becomes]
    unfold depthsAfter
    dsimp only
    rw [← Slot.val_of_ofByte? named]
    refine afterPop.put destination ?_
    rw [Space.size_push]
    omega

/-- The precise analysis passes over exactly the guards that the bound for the selected storage
satisfies. -/
theorem preciseGraph_pass_eq_some_iff {program : Program} {place : Nat} {depths : Depths}
    {next : Nat × Depths} :
    program.preciseGraph.pass place depths = some next <->
      ∃ instruction, program.code[place / slotNumbers]? = some instruction ∧
        satisfiesGuard instruction (depths.bound (place % slotNumbers)) = true ∧
        next = (place + slotNumbers, depths) := by
  simp only [preciseGraph]
  cases program.code[place / slotNumbers]? with
  | none => simp
  | some instruction => simp [eq_comm (a := next)]

theorem satisfiesGuard_of_preciseGraph_pass {program : Program} {machine : Machine N}
    {depths : Depths} {next : Nat × Depths}
    (passing : program.preciseGraph.pass (placeOf machine) depths = some next) :
    ∃ instruction, program.code[machine.index]? = some instruction ∧
      satisfiesGuard instruction (depths.bound machine.selected.val) = true ∧
      next = (placeOf machine + slotNumbers, depths) := by
  rw [preciseGraph_pass_eq_some_iff, placeOf_div, placeOf_mod] at passing
  exact passing

/-- What the precise analysis finds no use for has no record, whichever slot is selected. -/
theorem unrecorded_of_not_preciselyLive {program : Program} {machine : Machine N}
    (index : machine.index < program.size)
    (dead : isAlive program.preciselyLive machine.index = false) (known : Depths) :
    (program.preciseGraph.outcome [(0, Depths.zero)])[placeOf machine]? ≠ some (some known) := by
  intro found
  have selected := selected_lt_slotNumbers machine
  have unseen : ((List.range slotNumbers).any fun selected =>
      (((program.preciseGraph.outcome [(0, Depths.zero)])[precisePlace machine.index
        selected]?).join).isSome) = false := by
    simp only [isAlive, preciselyLive, Array.getElem?_map, Array.getElem?_range, if_pos index,
      Option.map_some, Option.getD_some] at dead
    exact dead
  have missing := List.any_eq_false.mp unseen _ (List.mem_range.mpr selected)
  change ¬ ((program.preciseGraph.outcome [(0, Depths.zero)])[placeOf machine]?).join.isSome = true
    at missing
  simp [found] at missing

variable [Number N]

theorem analyses_preciseGraph (program : Program) :
    program.Analyses program.preciseGraph Depths.Covers (placeOf (N := N))
      (fun depths machine => depths.Describes machine.storage) where
  respects := program.respects_preciseGraph
  wider := fun _ _ _ covered deep slot => Nat.le_trans (covered slot) (deep slot)
  inside := by
    intro machine index
    have bounded : machine.selected.val < 28 := machine.selected.isLt
    simp only [preciseGraph, placeOf, precisePlace, slotNumbers]
    omega
  passes := by
    intro depths machine next deep passing
    rcases satisfiesGuard_of_preciseGraph_pass passing with ⟨instruction, fetched, satisfied, rfl⟩
    exact ⟨silently_of_satisfiesGuard fetched satisfied (deep machine.selected),
      placeOf_next machine, deep⟩
  follows := by
    intro depths machine instruction next deep fetched successor alters
    refine ⟨depthsAfter instruction machine.selected.val depths, ?_,
      describes_depthsAfter deep alters⟩
    simp only [preciseGraph, placeOf_div, placeOf_mod, fetched]
    refine List.mem_map.mpr ⟨next.index, successor, ?_⟩
    rw [selectedAfter_eq alters]
    rfl

/-- The precise analysis starts with bounds that hold of the machine that starts. -/
theorem described_start_preciseGraph (program : Program) :
    Analyses.Described program.preciseGraph Depths.Covers [(0, Depths.zero)]
      (placeOf (N := N)) (fun depths machine => depths.Describes machine.storage)
      Machine.start := by
  have describesStart : Depths.zero.Describes (Storage.empty (N := N)) := by
    intro slot
    rw [Depths.bound_zero]
    exact Nat.zero_le _
  have described := (analyses_preciseGraph (N := N) program).described_start describesStart
  have placed : placeOf (Machine.start (N := N)) = 0 := by
    simp only [placeOf, precisePlace, Machine.start, Nat.zero_mul, Nat.zero_add]
  rw [placed] at described
  exact described

/-- Deleting what the precise analysis finds no use for keeps the behaviour. -/
theorem sameBehaviour_compact_preciselyLive (program : Program) :
    SameBehaviour N program (program.compact program.preciselyLive) := by
  have analysis := analyses_preciseGraph (N := N) program
  refine program.sameBehaviour_compact program.preciselyLive _
    (analysis.maintains_described [(0, Depths.zero)]) program.described_start_preciseGraph ?_
  intro machine described index dead
  exact analysis.silently_of_unrecorded described index
    (unrecorded_of_not_preciselyLive index dead)

end Precise
end Program
end HangulPane
