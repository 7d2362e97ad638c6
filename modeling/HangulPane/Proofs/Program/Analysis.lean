import HangulPane.Proofs.Exploration
import HangulPane.Proofs.Machine.Effect

namespace HangulPane
namespace Program

/-!
Analyses that follow the control flow know something true of every machine of a run.

An analysis explores a graph whose places tell at least the index of a machine, and
its facts describe machines.  If passing over a place and going on to a successor keep
the description true, then every machine that a run meets is described by a fact that
is accounted for.  In particular an instruction that a run meets and that has no record
is one that the analysis passed over.
-/

variable {N : Type} [Number N] {Fact : Type}

/-- A fact that describes a machine whose analysis passes over its instruction: the
step leads to the next instruction and changes nothing else. -/
def PassesOver (program : Program) (place : Machine N -> Nat)
    (describes : Fact -> Machine N -> Prop) (machine : Machine N) (next : Nat × Fact) : Prop :=
  Machine.Silently program.linked machine (machine.movedTo (machine.index + 1)) ∧
    next.1 = place (machine.movedTo (machine.index + 1)) ∧
    describes next.2 (machine.movedTo (machine.index + 1))

/-- What makes an exploration an analysis of a program. -/
structure Analyses (program : Program) (graph : Exploration Fact)
    (covers : Fact -> Fact -> Prop) (place : Machine N -> Nat)
    (describes : Fact -> Machine N -> Prop) : Prop where
  respects : graph.Respects covers
  /-- A fact describes whatever the facts that it covers describe. -/
  wider : forall known fact machine, covers known fact -> describes fact machine ->
    describes known machine
  /-- Only machines past the end of the program have a place outside the graph. -/
  inside : forall machine, machine.index < program.size -> place machine < graph.places
  passes : forall fact machine next, describes fact machine ->
    graph.pass (place machine) fact = some next -> program.PassesOver place describes machine next
  follows : forall fact machine instruction next, describes fact machine ->
    program.code[machine.index]? = some instruction ->
    next.index ∈ program.successors machine.index -> Machine.Alters instruction machine next ->
    ∃ after, (place next, after) ∈ graph.follow (place machine) fact ∧ describes after next

namespace Analyses

variable {program : Program} {graph : Exploration Fact} {covers : Fact -> Fact -> Prop}
  {place : Machine N -> Nat} {describes : Fact -> Machine N -> Prop}

/-- What an analysis that started from the given arrivals knows of a machine. -/
def Described (graph : Exploration Fact) (covers : Fact -> Fact -> Prop)
    (arrivals : List (Nat × Fact)) (place : Machine N -> Nat)
    (describes : Fact -> Machine N -> Prop) (machine : Machine N) : Prop :=
  ∃ fact, graph.Accounted covers (graph.outcome arrivals) [] (place machine) fact ∧
    describes fact machine

/-- Each step keeps a machine described.  A machine whose fact was passed over makes the
step that passes over its instruction; one whose fact is recorded makes a step to a
successor. -/
theorem maintains_described (analysis : program.Analyses graph covers place describes)
    (arrivals : List (Nat × Fact)) :
    Machine.Maintains program.linked
      (Described graph covers arrivals place describes) := by
  rintro machine console call after next ⟨fact, accounted, described⟩ moves
  rcases program.goesOn_cases moves with ⟨instruction, fetched, successor, alters⟩
  have index : machine.index < program.size := (Array.getElem?_eq_some_iff.mp fetched).1
  cases accounted with
  | waiting listed => simp at listed
  | outside beyond => exact absurd (analysis.inside machine index) (Nat.not_lt.mpr beyond)
  | passed nextArrival passing later =>
      rcases analysis.passes fact machine nextArrival described passing with
        ⟨silently, samePlace, describedNext⟩
      have same := silently console
      rw [moves] at same
      simp only [Move.mk.injEq, Continuation.goOn.injEq] at same
      rw [same.2.2]
      exact ⟨nextArrival.2, samePlace ▸ later, describedNext⟩
  | recorded known found covered =>
      have describedKnown := analysis.wider known fact machine covered described
      rcases analysis.follows known machine instruction next describedKnown fetched successor
        alters with ⟨nextFact, follows, describedNext⟩
      exact ⟨nextFact, Exploration.closed_outcome analysis.respects _ known found _ follows,
        describedNext⟩

/-- A machine that is described and has no record at its place has a fact with which the
analysis passed over that place. -/
theorem exists_pass_of_unrecorded (analysis : program.Analyses graph covers place describes)
    {arrivals : List (Nat × Fact)} {machine : Machine N}
    (described : Described graph covers arrivals place describes machine)
    (index : machine.index < program.size)
    (unrecorded : forall known,
      (graph.outcome arrivals)[place machine]? ≠ some (some known)) :
    ∃ fact next, describes fact machine ∧ graph.pass (place machine) fact = some next := by
  rcases described with ⟨fact, accounted, describedHere⟩
  cases accounted with
  | waiting listed => simp at listed
  | outside beyond => exact absurd (analysis.inside machine index) (Nat.not_lt.mpr beyond)
  | passed next passing _ => exact ⟨fact, next, describedHere, passing⟩
  | recorded known found _ => exact absurd found (unrecorded known)

/-- Such a machine passes over its instruction. -/
theorem silently_of_unrecorded (analysis : program.Analyses graph covers place describes)
    {arrivals : List (Nat × Fact)} {machine : Machine N}
    (described : Described graph covers arrivals place describes machine)
    (index : machine.index < program.size)
    (unrecorded : forall known,
      (graph.outcome arrivals)[place machine]? ≠ some (some known)) :
    Machine.Silently program.linked machine (machine.movedTo (machine.index + 1)) := by
  rcases analysis.exists_pass_of_unrecorded described index unrecorded with
    ⟨fact, next, describedHere, passing⟩
  exact (analysis.passes fact machine next describedHere passing).1

theorem described_start (analysis : program.Analyses graph covers place describes)
    {fact : Fact} (described : describes fact Machine.start) :
    Described graph covers [(place Machine.start, fact)] place describes Machine.start :=
  ⟨fact, Exploration.accounted_outcome analysis.respects (List.mem_singleton.mpr rfl), described⟩

end Analyses
end Program
end HangulPane
