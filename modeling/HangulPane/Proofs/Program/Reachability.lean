import HangulPane.Proofs.Program.Optimize
import HangulPane.Proofs.Program.WellFormed
import Mathlib.Logic.Relation

namespace HangulPane
namespace Program

/-!
Everything that is left after optimising can be reached.

Control flows from an instruction to the next one, unless it is a jump or a halt, and to the
target of its label.  Exploring that flow finds exactly the instructions that lie on a path
from the first one.  The last compaction deletes what folding discarded and what is not
reached.  What folding discarded on a path only passes control on, so compaction shortens
paths and cuts none: every survivor is reached in the compacted program as well.
-/

/-- Whether control can go from one index directly to another one: to the next index unless
the instruction is a jump or a halt, and to the target of a jump or branch. -/
inductive Flows (program : Program) : Nat -> Nat -> Prop where
  | falls {index : Nat} {instruction : Instruction}
      (fetched : program.code[index]? = some instruction)
      (falls : instruction.fallsThrough = true) : Flows program index (index + 1)
  | leads {index target : Nat} (leads : program.jumpTarget? index = some target) :
      Flows program index target

/-- Whether control can go from the first instruction to an index. -/
def Reaches (program : Program) (index : Nat) : Prop :=
  Relation.ReflTransGen program.Flows 0 index

theorem jumpTarget?_eq_some_iff {program : Program} {index target : Nat} :
    program.jumpTarget? index = some target <->
      ∃ instruction label, program.code[index]? = some instruction ∧
        instruction.label? = some label ∧ target = program.target label := by
  simp only [jumpTarget?, Option.map_eq_some_iff, Option.bind_eq_some_iff]
  constructor
  · rintro ⟨label, ⟨instruction, fetched, labelled⟩, rfl⟩
    exact ⟨instruction, label, fetched, labelled, rfl⟩
  · rintro ⟨instruction, label, fetched, labelled, rfl⟩
    exact ⟨label, ⟨instruction, fetched, labelled⟩, rfl⟩

theorem Flows.lt_size {program : Program} {index next : Nat} (flows : program.Flows index next) :
    index < program.size := by
  cases flows with
  | falls fetched _ => exact (Array.getElem?_eq_some_iff.mp fetched).1
  | leads leads =>
      rcases jumpTarget?_eq_some_iff.mp leads with ⟨_, _, fetched, _⟩
      exact (Array.getElem?_eq_some_iff.mp fetched).1

/-- The successors that analyses follow are where control flows to. -/
theorem mem_successors_iff_flows {program : Program} {index next : Nat} :
    next ∈ program.successors index <-> program.Flows index next := by
  constructor
  · intro successor
    cases fetched : program.code[index]? with
    | none => simp [successors, fetched] at successor
    | some instruction =>
        rcases mem_successors fetched successor with ⟨falls, rfl⟩ | ⟨label, labelled, rfl⟩
        · exact .falls fetched falls
        · exact .leads (jumpTarget?_eq_some_iff.mpr ⟨instruction, label, fetched, labelled, rfl⟩)
  · intro flows
    cases flows with
    | falls fetched falls => exact mem_successors_of_fallsThrough fetched falls
    | leads leads =>
        rcases jumpTarget?_eq_some_iff.mp leads with ⟨instruction, label, fetched, labelled, rfl⟩
        exact mem_successors_of_label fetched labelled

/-- What the exploration of the control flow records is on a path from the start. -/
theorem conserves_reachGraph (program : Program) :
    program.reachGraph.Conserves fun index _ => program.Reaches index where
  joined := fun _ _ _ _ _ reached _ => reached
  passed := by
    intro index fact next reached passing
    cases passing
  followed := by
    intro index fact next reached follows
    rcases List.mem_map.mp follows with ⟨successor, listed, rfl⟩
    exact reached.tail (mem_successors_iff_flows.mp listed)

theorem exists_recorded_of_isAlive_reachable {program : Program} {index : Nat}
    (alive : isAlive program.reachable index = true) :
    (program.reachGraph.outcome [(0, ())])[index]? = some (some ()) := by
  rw [isAlive, reachable, Array.getElem?_map] at alive
  cases found : (program.reachGraph.outcome [(0, ())])[index]? with
  | none => simp [found] at alive
  | some fact =>
      cases fact with
      | none => simp [found] at alive
      | some known => rfl

/-- Exactly the instructions on a path from the start are found reachable. -/
theorem isAlive_reachable_iff {program : Program} {index : Nat} (inside : index < program.size) :
    isAlive program.reachable index = true <-> program.Reaches index := by
  constructor
  · intro alive
    refine Exploration.holds_outcome program.conserves_reachGraph ?_
      (exists_recorded_of_isAlive_reachable alive)
    intro arrival listed
    rw [List.mem_singleton.mp listed]
    exact .refl
  · intro reached
    refine isAlive_reachable_of_accounted ?_ inside
    -- The recorded facts are closed under the flow, so the accounting follows the path.
    induction reached with
    | refl =>
        exact Exploration.accounted_outcome program.respects_reachGraph
          (List.mem_singleton.mpr rfl)
    | tail _ flows inductionHypothesis =>
        have recorded := exists_recorded_of_isAlive_reachable
          (isAlive_reachable_of_accounted (inductionHypothesis flows.lt_size) flows.lt_size)
        exact Exploration.closed_outcome program.respects_reachGraph _ () recorded _
          (List.mem_map.mpr ⟨_, mem_successors_iff_flows.mpr flows, rfl⟩)

theorem size_reachable (program : Program) : program.reachable.size = program.size := by
  rw [reachable, Array.size_map, Exploration.size_outcome]
  rfl

/-- All instructions are found reachable exactly if each is on a path from the start. -/
theorem reachable_eq_replicate_iff {program : Program} :
    program.reachable = Array.replicate program.size true <->
      forall index, index < program.size -> program.Reaches index := by
  constructor
  · intro full index inside
    apply (isAlive_reachable_iff inside).mp
    rw [full, isAlive, Array.getElem?_replicate, if_pos inside, Option.getD_some]
  · intro reached
    apply Array.ext
    · rw [size_reachable, Array.size_replicate]
    · intro index found _
      have alive := (isAlive_reachable_iff (size_reachable program ▸ found)).mpr
        (reached index (size_reachable program ▸ found))
      rw [isAlive, Array.getElem?_eq_getElem found, Option.getD_some] at alive
      rw [alive, Array.getElem_replicate]

section Compact

variable {program : Program} {live : Array Bool}

/-- Control that flows on from a survivor flows on from its new place. -/
theorem flows_compact {index next : Nat} (alive : isAlive live index = true)
    (flows : program.Flows index next) :
    (program.compact live).Flows (survivorsBefore live index)
      (survivorsBefore live (min next program.size)) := by
  have inside := flows.lt_size
  have moved := program.getElem?_code_compact live alive inside
  cases flows with
  | falls fetched falls =>
      have clamped : min (index + 1) program.size = index + 1 := Nat.min_eq_left inside
      rw [clamped, survivorsBefore_succ, if_pos alive]
      exact .falls (moved.trans fetched) falls
  | leads leads =>
      rcases jumpTarget?_eq_some_iff.mp leads with ⟨instruction, label, fetched, labelled, rfl⟩
      refine .leads (jumpTarget?_eq_some_iff.mpr
        ⟨instruction, label, moved.trans fetched, labelled, ?_⟩)
      exact (program.target_compact live fetched alive labelled).symm

/-- Control that meets an idle instruction flows on to the next one. -/
theorem Flows.eq_succ_of_noop {index next : Nat} (flows : program.Flows index next)
    (idle : program.code[index]? = some .noop) : next = index + 1 := by
  cases flows with
  | falls _ _ => rfl
  | leads leads =>
      rw [jumpTarget?, idle] at leads
      cases leads

/-- A path on which only idle instructions are deleted leads, shortened by these, to the
survivor at its end or to the next one. -/
theorem reaches_compact
    (idle : forall index, index < program.size -> program.Reaches index ->
      isAlive live index = false -> program.code[index]? = some .noop)
    {index : Nat} (reached : program.Reaches index) :
    (program.compact live).Reaches (survivorsBefore live (min index program.size)) := by
  induction reached with
  | refl =>
      rw [Nat.zero_min]
      exact .refl
  | @tail index next before flows inductionHypothesis =>
      have inside := flows.lt_size
      rw [Nat.min_eq_left (Nat.le_of_lt inside)] at inductionHypothesis
      cases alive : isAlive live index with
      | true => exact inductionHypothesis.tail (flows_compact alive flows)
      | false =>
          have passed := flows.eq_succ_of_noop (idle index inside before alive)
          rw [passed, Nat.min_eq_left inside, survivorsBefore_succ, alive]
          exact inductionHypothesis

end Compact

/-- What lies on a path from the start has a context. -/
theorem Contextual.allows_of_reaches {program : Program} {context : Array (Option Bool)}
    (closed : program.Contextual context) {index : Nat} (reached : program.Reaches index) :
    ∃ special, Allows context program.size index special := by
  induction reached with
  | refl => exact ⟨false, closed.first⟩
  | tail _ flows inductionHypothesis =>
      rcases inductionHypothesis with ⟨special, allows⟩
      rcases allows flows.lt_size with ⟨known, found, _⟩
      exact ⟨_, closed.next _ _ known found (Array.getElem?_eq_getElem flows.lt_size) _
        (mem_successors_iff_flows.mpr flows)⟩

/-- Whether nothing is left in a program that does not serve: each instruction is on a path
from the start, and is found to be, and exactly the labels that are referred to are bound,
none past the end. -/
structure Swept (program : Program) : Prop where
  reached : forall index, index < program.size -> program.Reaches index
  reachable : program.reachable = Array.replicate program.size true
  bound : forall label, label ∈ program.labels.keys <-> label ∈ program.referredLabels
  targets : program.LabelsInside

/-- Compaction leaves nothing that does not serve if each survivor was on a path from the
start and only idle instructions of such paths are deleted. -/
theorem swept_compact {program : Program} {live : Array Bool}
    (survives : forall index, index < program.size -> isAlive live index = true ->
      program.Reaches index)
    (idle : forall index, index < program.size -> program.Reaches index ->
      isAlive live index = false -> program.code[index]? = some .noop) :
    (program.compact live).Swept := by
  have reached : forall place, place < (program.compact live).size ->
      (program.compact live).Reaches place := by
    intro place inside
    rw [size_compact] at inside
    rcases exists_survivor live inside with ⟨index, below, alive, rfl⟩
    have path := reaches_compact idle (survives index below alive)
    rwa [Nat.min_eq_left (Nat.le_of_lt below)] at path
  refine ⟨reached, reachable_eq_replicate_iff.mpr reached, ?_, program.labelsInside_compact live⟩
  intro label
  rw [Table.mem_keys_iff, find?_compact]
  split <;> simp [*]

theorem LabelsInside.swept_foldAndSweep {program : Program} (inside : program.LabelsInside) :
    program.foldAndSweep.Swept := by
  obtain ⟨folded, needed, found⟩ := inside.exists_foldConstants? true
  obtain ⟨folding, rfl, rfl, consistent, _⟩ := foldConstants?_preserves (N := Int) found
  have closed := consistent.closed.collapseJumps
  unfold Program.foldAndSweep
  rw [found]
  apply swept_compact
  · intro index inside alive
    rw [isAlive_zipWith_and, Bool.and_eq_true] at alive
    exact (isAlive_reachable_iff inside).mp alive.2
  · intro index inside reached dead
    -- What is reached has a context, so folding can only have discarded it as idle.
    rw [isAlive_zipWith_and, (isAlive_reachable_iff inside).mpr reached, Bool.and_true] at dead
    rcases closed.allows_of_reaches reached with ⟨special, allows⟩
    rcases allows inside with ⟨known, found, _⟩
    rw [size, code_collapseJumps] at inside
    rw [code_collapseJumps]
    exact consistent.noop_of_dead found dead inside

/-- Each level that optimises leaves a program of which every instruction is on a path from
the first one, under exactly the labels that are referred to. -/
theorem optimize_swept (program : Program) :
    (program.optimize .coarse).Swept ∧ (program.optimize .precise).Swept :=
  ⟨(labelsInside_compact _ _).swept_foldAndSweep,
    (labelsInside_compact _ _).reorderBlocks.swept_foldAndSweep⟩

end Program
end HangulPane
