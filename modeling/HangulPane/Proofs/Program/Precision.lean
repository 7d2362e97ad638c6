import HangulPane.Proofs.Program.Agreement
import HangulPane.Proofs.Program.DeadGuards

namespace HangulPane

/-!
The precise depth analysis finds no more uses than the coarse one.

Whatever arrives in the precise analysis with a slot selected, the coarse analysis accounts for
the bound of that slot.  The coarse analysis forgets its bound where the precise one goes on with
another slot, and elsewhere the two bounds change alike, so the coarse one is never the greater.
A guard that the coarse bound satisfies is therefore satisfied in the precise analysis as well,
and what is recorded there is recorded in the coarse analysis.  All this needs the selected slot
to exist, since the precise analysis knows nothing of the other ones.
-/

namespace Program

/-- A guard that a bound satisfies is satisfied by a greater one. -/
theorem satisfiesGuard_mono {instruction : Instruction} {less more : Nat} (le : less ≤ more)
    (satisfied : satisfiesGuard instruction less = true) :
    satisfiesGuard instruction more = true := by
  simp only [satisfiesGuard, Bool.and_eq_true, decide_eq_true_eq] at satisfied ⊢
  exact ⟨satisfied.1, Nat.le_trans satisfied.2 le⟩

theorem coarseAfter_mono (instruction : Instruction) {less more : Nat} (le : less ≤ more) :
    coarseAfter instruction less ≤ coarseAfter instruction more := by
  cases instruction with
  | sel => exact Nat.le_refl 0
  | _ => exact depthAfter_mono _ le

/-- A guard changes no bound. -/
theorem coarseAfter_of_satisfiesGuard {instruction : Instruction} {depth : Nat}
    (satisfied : satisfiesGuard instruction depth = true) (other : Nat) :
    coarseAfter instruction other = other := by
  cases instruction with
  | brPop1 | brPop2 => rfl
  | _ => cases satisfied

/-- Whether the coarse analysis accounts for a bound at an index. -/
def CoarselyKnown (program : Program) (index depth : Nat) : Prop :=
  program.coarseGraph.Accounted (fun known fact => known ≤ fact)
    (program.coarseGraph.outcome [(0, 0)]) [] index depth

namespace CoarselyKnown

variable {program : Program} {index depth : Nat} {instruction : Instruction}

theorem mono (known : program.CoarselyKnown index depth) {more : Nat} (le : depth ≤ more) :
    program.CoarselyKnown index more := by
  unfold CoarselyKnown at known
  induction known with
  | waiting listed => cases listed
  | outside beyond => exact .outside beyond
  | passed next passing _ inductionHypothesis =>
      rcases coarseGraph_pass_eq_some_iff.mp passing with ⟨guard, fetched, satisfied, rfl⟩
      have passingMore := coarseGraph_pass_eq_some_iff.mpr
        ⟨guard, fetched, satisfiesGuard_mono le satisfied, rfl⟩
      exact .passed _ passingMore (inductionHypothesis le)
  | recorded recorded found covered => exact .recorded recorded found (Nat.le_trans covered le)

/-- What follows from a record at an index is accounted for. -/
theorem of_recorded {recorded : Nat}
    (found : (program.coarseGraph.outcome [(0, 0)])[index]? = some (some recorded))
    (fetched : program.code[index]? = some instruction) {next : Nat}
    (successor : next ∈ program.successors index) :
    program.CoarselyKnown next (coarseAfter instruction recorded) := by
  have follows : (next, coarseAfter instruction recorded) ∈
      program.coarseGraph.follow index recorded := by
    simp only [coarseGraph, fetched]
    exact List.mem_map.mpr ⟨next, successor, rfl⟩
  exact Exploration.closed_outcome program.respects_coarseGraph index recorded found _ follows

/-- Where the analysis does not pass over an instruction, there is a record. -/
theorem exists_recorded (known : program.CoarselyKnown index depth)
    (fetched : program.code[index]? = some instruction)
    (unsatisfied : satisfiesGuard instruction depth = false) :
    ∃ recorded, (program.coarseGraph.outcome [(0, 0)])[index]? = some (some recorded) ∧
      recorded ≤ depth := by
  cases known with
  | waiting listed => cases listed
  | outside beyond =>
      exact absurd (Array.getElem?_eq_some_iff.mp fetched).1 (Nat.not_lt.mpr beyond)
  | passed next passing later =>
      rcases coarseGraph_pass_eq_some_iff.mp passing with ⟨guard, guardFetched, satisfied, _⟩
      rw [fetched] at guardFetched
      cases guardFetched
      rw [unsatisfied] at satisfied
      cases satisfied
  | recorded recorded found covered => exact ⟨recorded, found, covered⟩

/-- The bound goes on to what follows an instruction that is not passed over. -/
theorem followed (known : program.CoarselyKnown index depth)
    (fetched : program.code[index]? = some instruction)
    (unsatisfied : satisfiesGuard instruction depth = false) {next : Nat}
    (successor : next ∈ program.successors index) :
    program.CoarselyKnown next (coarseAfter instruction depth) := by
  rcases known.exists_recorded fetched unsatisfied with ⟨recorded, found, covered⟩
  exact (of_recorded found fetched successor).mono (coarseAfter_mono instruction covered)

/-- The bound goes on to what comes after a guard that it satisfies, whether the coarse
analysis passed over the guard with it or had recorded a lower bound before. -/
theorem passed (known : program.CoarselyKnown index depth)
    (fetched : program.code[index]? = some instruction)
    (satisfied : satisfiesGuard instruction depth = true) :
    program.CoarselyKnown (index + 1) depth := by
  cases known with
  | waiting listed => cases listed
  | outside beyond =>
      exact absurd (Array.getElem?_eq_some_iff.mp fetched).1 (Nat.not_lt.mpr beyond)
  | passed next passing later =>
      rcases coarseGraph_pass_eq_some_iff.mp passing with ⟨_, _, _, rfl⟩
      exact later
  | recorded recorded found covered =>
      have falls : index + 1 ∈ program.successors index := by
        cases instruction with
        | brPop1 | brPop2 => simp [successors, fetched]
        | _ => cases satisfied
      have next := of_recorded found fetched falls
      rw [coarseAfter_of_satisfiesGuard satisfied] at next
      exact next.mono covered

end CoarselyKnown

/-- The coarse bound after an instruction is at most the precise one for the slot that is
selected then. -/
theorem coarseAfter_le_depthsAfter (instruction : Instruction) (depths : Depths)
    (selected : Slot) :
    coarseAfter instruction (depths.bound selected.val) ≤
      (depthsAfter instruction selected.val depths).bound
        (selectedAfter instruction selected.val) := by
  cases instruction with
  | sel byte => exact Nat.zero_le _
  | mov byte =>
      simp only [depthsAfter, selectedAfter, coarseAfter]
      rw [Depths.bound_put]
      split
      · rename_i same
        rw [same, Depths.bound_put, if_pos rfl]
        exact Nat.le_succ _
      · exact Nat.le_of_eq (by rw [Depths.bound_put, if_pos rfl])
  | _ =>
      simp only [depthsAfter, selectedAfter, coarseAfter, Depths.bound_put, if_true]
      exact Nat.le_refl _

/-- A storage instruction that names an existing slot selects an existing one. -/
theorem selectedAfter_lt {instruction : Instruction} (named : instruction.hasSlot = true)
    {selected : Nat} (existing : selected < slotCount) :
    selectedAfter instruction selected < slotCount := by
  cases instruction with
  | sel byte => exact (Instruction.isSome_ofByte?_iff byte).mp named
  | _ => exact existing

/-- Whether the slot of a place exists and the coarse analysis accounts for its bound. -/
structure ShownCoarsely (program : Program) (place : Nat) (depths : Depths) : Prop where
  slot : place % slotNumbers < slotCount
  known : program.CoarselyKnown (place / slotNumbers) (depths.bound (place % slotNumbers))

namespace ShownCoarsely

variable {program : Program} {place : Nat} {depths : Depths}

theorem of_precisePlace {index selected : Nat} (existing : selected < slotCount)
    (known : program.CoarselyKnown index (depths.bound selected)) :
    program.ShownCoarsely (precisePlace index selected) depths := by
  have below : selected < slotNumbers := Nat.lt_of_lt_of_le existing (by decide)
  refine ⟨?_, ?_⟩
  · rwa [precisePlace_mod index below]
  · rwa [precisePlace_div index below, precisePlace_mod index below]

/-- The lesser bound is one of the two. -/
theorem meet {other : Depths} (shown : program.ShownCoarsely place depths)
    (otherShown : program.ShownCoarsely place other) :
    program.ShownCoarsely place (depths.meet other) := by
  refine ⟨shown.slot, ?_⟩
  have lesser := Depths.bound_meet depths other ⟨place % slotNumbers, shown.slot⟩
  dsimp only at lesser
  rw [lesser]
  rcases Nat.le_total (depths.bound (place % slotNumbers))
    (other.bound (place % slotNumbers)) with below | above
  · rw [Nat.min_eq_left below]
    exact shown.known
  · rw [Nat.min_eq_right above]
    exact otherShown.known

end ShownCoarsely

theorem satisfiesGuard_eq_false_of_unpassed {program : Program} {place : Nat} {depths : Depths}
    {instruction : Instruction} (fetched : program.code[place / slotNumbers]? = some instruction)
    (unpassed : program.preciseGraph.pass place depths = none) :
    satisfiesGuard instruction (depths.bound (place % slotNumbers)) = false := by
  apply Bool.eq_false_iff.mpr
  intro satisfied
  have passed := preciseGraph_pass_eq_some_iff.mpr ⟨instruction, fetched, satisfied, rfl⟩
  rw [unpassed] at passed
  cases passed

/-- What the precise analysis does not pass over with some bounds it does not pass over with
lesser ones. -/
theorem preciseGraph_pass_meet {program : Program} {place : Nat} {depths other : Depths}
    (slot : place % slotNumbers < slotCount)
    (unpassed : program.preciseGraph.pass place depths = none) :
    program.preciseGraph.pass place (depths.meet other) = none := by
  apply Option.eq_none_iff_forall_ne_some.mpr
  intro next passing
  rcases preciseGraph_pass_eq_some_iff.mp passing with ⟨guard, fetched, satisfied, _⟩
  have lesser := Depths.bound_meet depths other ⟨place % slotNumbers, slot⟩
  have le : (depths.meet other).bound (place % slotNumbers) ≤
      depths.bound (place % slotNumbers) := by
    dsimp only at lesser
    rw [lesser]
    exact Nat.min_le_left _ _
  have passed := preciseGraph_pass_eq_some_iff.mpr
    ⟨guard, fetched, satisfiesGuard_mono le satisfied, rfl⟩
  rw [unpassed] at passed
  cases passed

/-- The flow of bounds in the precise analysis stays inside what the coarse analysis accounts
for.  What is recorded is moreover not passed over, so there is a record in the coarse analysis
too. -/
theorem sorts_preciseGraph {program : Program}
    (slots : forall instruction, instruction ∈ program.code -> instruction.hasSlot = true) :
    program.preciseGraph.Sorts program.ShownCoarsely fun place depths =>
      program.ShownCoarsely place depths ∧ program.preciseGraph.pass place depths = none where
  recorded := fun _ _ shown unpassed => ⟨shown, unpassed⟩
  joined := by
    rintro place recorded arriving joined joining ⟨shown, unpassed⟩ arrivingShown _
    simp only [preciseGraph] at joining
    split at joining
    · contradiction
    · cases joining
      exact ⟨shown.meet arrivingShown, preciseGraph_pass_meet shown.slot unpassed⟩
  passed := by
    intro place depths next shown passing
    rcases preciseGraph_pass_eq_some_iff.mp passing with ⟨guard, fetched, satisfied, rfl⟩
    have slot : (place + slotNumbers) % slotNumbers = place % slotNumbers :=
      Nat.add_mod_right place slotNumbers
    have index : (place + slotNumbers) / slotNumbers = place / slotNumbers + 1 :=
      Nat.add_div_right place (by decide)
    refine ⟨?_, ?_⟩
    · rw [slot]
      exact shown.slot
    · rw [slot, index]
      exact shown.known.passed fetched satisfied
  followed := by
    rintro place depths next ⟨shown, unpassed⟩ follows
    simp only [preciseGraph] at follows
    split at follows
    · cases follows
    · rename_i instruction fetched
      rcases List.mem_map.mp follows with ⟨successor, listed, rfl⟩
      have named := slots instruction (Array.mem_of_getElem? fetched)
      have known := shown.known.followed fetched
        (satisfiesGuard_eq_false_of_unpassed fetched unpassed) listed
      apply ShownCoarsely.of_precisePlace (selectedAfter_lt named shown.slot)
      exact known.mono
        (coarseAfter_le_depthsAfter instruction depths ⟨place % slotNumbers, shown.slot⟩)

/-- The uses that the precise analysis finds are the records with any slot selected. -/
theorem preciselyLive_eq_some_true_iff {program : Program} {index : Nat} :
    program.preciselyLive[index]? = some true <->
      index < program.size ∧ ∃ selected, selected < slotNumbers ∧
        ((program.preciseGraph.outcome [(0, Depths.zero)])[precisePlace index
          selected]?.join).isSome = true := by
  simp only [preciselyLive, Array.getElem?_map, Array.getElem?_range]
  split
  · rename_i inside
    simp only [Option.map_some, Option.some.injEq, List.any_eq_true, List.mem_range, inside,
      true_and]
  · rename_i outside
    simp [outside]

/-- What the precise analysis records the coarse one records as well. -/
theorem coarselyLive_of_recorded {program : Program}
    (slots : forall instruction, instruction ∈ program.code -> instruction.hasSlot = true)
    {place : Nat} {depths : Depths}
    (found : (program.preciseGraph.outcome [(0, Depths.zero)])[place]? = some (some depths))
    (inside : place / slotNumbers < program.size) :
    program.coarselyLive[place / slotNumbers]? = some true := by
  have first : forall arrival, arrival ∈ [(0, Depths.zero)] ->
      program.ShownCoarsely arrival.1 arrival.2 := by
    intro arrival listed
    rw [List.mem_singleton.mp listed]
    have start : program.CoarselyKnown 0 0 :=
      Exploration.accounted_outcome program.respects_coarseGraph (List.mem_singleton.mpr rfl)
    exact ⟨by decide, start.mono (Nat.zero_le _)⟩
  rcases Exploration.records_outcome (sorts_preciseGraph slots) first found with
    ⟨shown, unpassed⟩
  have fetched : program.code[place / slotNumbers]? = some program.code[place / slotNumbers] :=
    Array.getElem?_eq_getElem inside
  rcases shown.known.exists_recorded fetched
    (satisfiesGuard_eq_false_of_unpassed fetched unpassed) with ⟨recorded, recordedHere, _⟩
  rw [coarselyLive, Array.getElem?_map, recordedHere]
  rfl

/-- Whatever the precise analysis finds a use for, the coarse one does as well, if every storage
that the program names exists; so whatever the coarse analysis finds no use for, the precise one
finds none for either. -/
theorem coarselyLive_of_preciselyLive (program : Program)
    (slots : forall instruction, instruction ∈ program.code -> instruction.hasSlot = true)
    (index : Nat) :
    (program.preciselyLive[index]? = some true -> program.coarselyLive[index]? = some true) ∧
      (program.coarselyLive[index]? = some false ->
        program.preciselyLive[index]? = some false) := by
  have live : program.preciselyLive[index]? = some true ->
      program.coarselyLive[index]? = some true := by
    intro marked
    rcases preciselyLive_eq_some_true_iff.mp marked with ⟨inside, selected, below, recorded⟩
    rcases Option.isSome_iff_exists.mp recorded with ⟨depths, found⟩
    have quotient := precisePlace_div index below
    have coarse := coarselyLive_of_recorded slots (Option.join_eq_some_iff.mp found)
      (quotient.symm ▸ inside)
    rwa [quotient] at coarse
  refine ⟨live, ?_⟩
  intro unmarked
  have inside : index < program.preciselyLive.size := by
    rw [program.size_preciselyLive, ← program.size_coarselyLive]
    exact (Array.getElem?_eq_some_iff.mp unmarked).1
  rw [Array.getElem?_eq_getElem inside, Option.some.injEq]
  apply Bool.eq_false_iff.mpr
  intro marked
  have coarse := live (by rw [Array.getElem?_eq_getElem inside, marked])
  rw [unmarked] at coarse
  cases coarse

/-- A guard that comes after two values have been pushed onto a selected storage. -/
def guardedAdd : Program where
  code := #[.sel 1, .push 2, .push 3, .brPop2 0, .add, .halt]
  labels := Table.empty
  comments := none

/-- Neither analysis finds a use for the guard. -/
theorem guardedAdd_preciselyLive :
    (forall instruction, instruction ∈ guardedAdd.code -> instruction.hasSlot = true) ∧
      guardedAdd.coarselyLive[3]? = some false ∧ guardedAdd.preciselyLive[3]? = some false := by
  have slots : forall instruction, instruction ∈ guardedAdd.code ->
      instruction.hasSlot = true := by decide
  have unmarked : guardedAdd.coarselyLive[3]? = some false := by cbv
  exact ⟨slots, unmarked, (coarselyLive_of_preciselyLive guardedAdd slots 3).2 unmarked⟩

end Program
end HangulPane
