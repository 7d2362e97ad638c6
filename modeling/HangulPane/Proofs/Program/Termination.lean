import HangulPane.Proofs.Program.DeadGuards
import HangulPane.Proofs.Program.StorageContext
import Mathlib.Logic.Relation

namespace HangulPane

/-!
The analyses of a program come to an end.

An exploration handles one arrival after the other, and nothing here depends on the order in
which it does so.  Each time a fact is recorded where there was none, a place fewer is unseen.
Each join lowers the weight of what is recorded.  All else takes an arrival away, or moves it
to a later place.  These three quantities, in this order, go down with every arrival that is
handled, however large the facts become that travel around a loop.
-/

/-- The order in which numbers are summed does not matter. -/
theorem sumOf_of_perm {numbers others : List Nat} (same : numbers.Perm others) :
    sumOf numbers = sumOf others := by
  induction same with
  | nil => rfl
  | cons number _ inductionHypothesis => rw [sumOf_cons, sumOf_cons, inductionHypothesis]
  | swap first second rest =>
      simp only [sumOf_cons]
      omega
  | trans _ _ left right => exact left.trans right

namespace Exploration

variable {Fact : Type}

/-- What an exploration has recorded, and the arrivals that wait to be handled. -/
structure Stage (Fact : Type) where
  memo : Memo Fact
  arrivals : List (Nat × Fact)

/-- The stage at which nothing is handled yet. -/
def start (graph : Exploration Fact) (arrivals : List (Nat × Fact)) : Stage Fact where
  memo := Array.replicate graph.places none
  arrivals := arrivals

/-- Whether a stage comes from another one by handling one of the waiting arrivals, whichever
it is. -/
inductive Handles (graph : Exploration Fact) : Stage Fact -> Stage Fact -> Prop where
  /-- The arrival lies outside the graph. -/
  | leaves {memo : Memo Fact} {arrivals later : List (Nat × Fact)} {place : Nat} {fact : Fact}
      (chosen : arrivals.Perm ((place, fact) :: later))
      (outside : ¬(place < graph.places ∧ place < memo.size)) :
      Handles graph ⟨memo, arrivals⟩ ⟨memo, later⟩
  /-- It passes over its place. -/
  | passes {memo : Memo Fact} {arrivals later : List (Nat × Fact)} {place : Nat} {fact : Fact}
      {next : Nat × Fact} (chosen : arrivals.Perm ((place, fact) :: later))
      (inside : place < graph.places) (passing : graph.pass place fact = some next) :
      Handles graph ⟨memo, arrivals⟩ ⟨memo, next :: later⟩
  /-- It is the first that is recorded at its place. -/
  | enters {memo : Memo Fact} {arrivals later : List (Nat × Fact)} {place : Nat} {fact : Fact}
      (chosen : arrivals.Perm ((place, fact) :: later)) (bounded : place < memo.size)
      (stays : graph.pass place fact = none) (fresh : memo[place] = none) :
      Handles graph ⟨memo, arrivals⟩
        ⟨memo.set place (some fact) bounded, later ++ graph.follow place fact⟩
  /-- It adds nothing to what is recorded at its place. -/
  | ceases {memo : Memo Fact} {arrivals later : List (Nat × Fact)} {place : Nat}
      {fact recorded : Fact} (chosen : arrivals.Perm ((place, fact) :: later))
      (bounded : place < memo.size) (seen : memo[place] = some recorded)
      (refused : graph.join recorded fact = none) :
      Handles graph ⟨memo, arrivals⟩ ⟨memo, later⟩
  /-- It is joined with what is recorded at its place. -/
  | joins {memo : Memo Fact} {arrivals later : List (Nat × Fact)} {place : Nat}
      {fact recorded joined : Fact} (chosen : arrivals.Perm ((place, fact) :: later))
      (bounded : place < memo.size) (stays : graph.pass place fact = none)
      (seen : memo[place] = some recorded) (joining : graph.join recorded fact = some joined) :
      Handles graph ⟨memo, arrivals⟩
        ⟨memo.set place (some joined) bounded, later ++ graph.follow place joined⟩

variable {graph : Exploration Fact}

/-- How far the waiting arrivals can still move on, and how many they are. -/
def remaining (graph : Exploration Fact) (arrivals : List (Nat × Fact)) : Nat :=
  sumOf (arrivals.map fun (place, _) => graph.places - place + 1)

theorem remaining_of_perm {arrivals later : List (Nat × Fact)} {place : Nat} {fact : Fact}
    (chosen : arrivals.Perm ((place, fact) :: later)) :
    graph.remaining arrivals = graph.places - place + 1 + graph.remaining later := by
  unfold remaining
  rw [sumOf_of_perm (chosen.map _), List.map_cons, sumOf_cons]

/-- What goes down when an arrival is handled. -/
def effort (graph : Exploration Fact) (stage : Stage Fact) : Nat × Nat × Nat :=
  (stage.memo.unseen, stage.memo.burden graph.weight, graph.remaining stage.arrivals)

theorem effort_of_handles {stage next : Stage Fact} (handles : graph.Handles stage next) :
    Prod.Lex (· < ·) (Prod.Lex (· < ·) (· < ·)) (graph.effort next) (graph.effort stage) := by
  cases handles with
  | @leaves memo arrivals later place fact chosen outside =>
      refine Prod.Lex.right _ (Prod.Lex.right _ ?_)
      change graph.remaining later < graph.remaining arrivals
      rw [remaining_of_perm chosen]
      omega
  | @passes memo arrivals later place fact next chosen inside passing =>
      refine Prod.Lex.right _ (Prod.Lex.right _ ?_)
      have onward := graph.pass_lt place fact next passing
      have after : graph.remaining (next :: later) =
          graph.places - next.1 + 1 + graph.remaining later := remaining_of_perm (.refl _)
      change graph.remaining (next :: later) < graph.remaining arrivals
      rw [remaining_of_perm chosen, after]
      omega
  | enters chosen bounded stays fresh =>
      exact Prod.Lex.left _ _ (Memo.unseen_set_lt bounded _ fresh)
  | @ceases memo arrivals later place fact recorded chosen bounded seen refused =>
      refine Prod.Lex.right _ (Prod.Lex.right _ ?_)
      change graph.remaining later < graph.remaining arrivals
      rw [remaining_of_perm chosen]
      omega
  | joins chosen bounded stays seen joining =>
      -- The place is as seen as before, so what counts is the weight of what it holds.
      unfold effort
      rw [Memo.unseen_set_eq bounded _ _ seen]
      exact Prod.Lex.right _ (Prod.Lex.left _ _ (Memo.burden_set_lt graph.weight bounded _ _ seen
        (graph.join_lt _ _ _ joining)))

/-- No exploration handles arrivals for ever, from whatever stage and in whatever order. -/
theorem wellFounded_handles (graph : Exploration Fact) :
    WellFounded fun next stage => graph.Handles stage next :=
  Subrelation.wf effort_of_handles (InvImage.wf graph.effort
    (Prod.lex Nat.lt_wfRel (Prod.lex Nat.lt_wfRel Nat.lt_wfRel)).wf)

theorem size_of_handles {stage next : Stage Fact} (handles : graph.Handles stage next) :
    next.memo.size = stage.memo.size := by
  cases handles with
  | leaves _ _ | passes _ _ _ | ceases _ _ _ _ => rfl
  | enters _ bounded _ _ | joins _ bounded _ _ _ => exact Array.size_set bounded

/-- Handling the first arrival first, an exploration gets to what it is computed as. -/
theorem handles_explore (graph : Exploration Fact) (memo : Memo Fact)
    (arrivals : List (Nat × Fact)) :
    Relation.ReflTransGen graph.Handles ⟨memo, arrivals⟩ ⟨graph.explore memo arrivals, []⟩ := by
  fun_induction explore graph memo arrivals with
  | case1 memo => exact .refl
  | case2 memo place fact later inside bounded next passing _ inductionHypothesis =>
      exact .head (.passes (.refl _) inside.1 passing) inductionHypothesis
  | case3 memo place fact later inside bounded stays fresh _ inductionHypothesis =>
      exact .head (.enters (.refl _) bounded stays fresh) inductionHypothesis
  | case4 memo place fact later inside bounded stays recorded seen refused
      inductionHypothesis =>
      exact .head (.ceases (.refl _) bounded seen refused) inductionHypothesis
  | case5 memo place fact later inside bounded stays recorded seen joined joining _ _
      inductionHypothesis =>
      exact .head (.joins (.refl _) bounded stays seen joining) inductionHypothesis
  | case6 memo place fact later outside inductionHypothesis =>
      exact .head (.leaves (.refl _) outside) inductionHypothesis

/-- As long as an arrival waits, one can be handled. -/
theorem exists_handles (stage : Stage Fact) (waiting : stage.arrivals ≠ []) :
    ∃ next, graph.Handles stage next := by
  rcases (graph.handles_explore stage.memo stage.arrivals).cases_head with done | ⟨next, first, _⟩
  · exact absurd (congrArg Stage.arrivals done) waiting
  · exact ⟨next, first⟩

/-- A sequence of stages in which an arrival is handled as long as one waits gets to a stage at
which none waits. -/
theorem exists_settled (run : Nat -> Stage Fact)
    (handles : forall step, (run step).arrivals ≠ [] ->
      graph.Handles (run step) (run (step + 1))) :
    ∃ steps, (run steps).arrivals = [] := by
  -- The induction is on the first stage; the rest of the run is a run from the second one.
  generalize first : run 0 = stage
  induction stage using graph.wellFounded_handles.induction generalizing run with
  | h stage inductionHypothesis =>
      by_cases settled : (run 0).arrivals = []
      · exact ⟨0, settled⟩
      · have next := handles 0 settled
        rw [first] at next
        rcases inductionHypothesis _ next (fun step => run (step + 1))
          (fun step => handles (step + 1)) rfl with ⟨steps, done⟩
        exact ⟨steps + 1, done⟩

/-- Whether exploring from some arrivals comes to an end: however the next arrival is chosen,
after finitely many steps none waits; only then does the exploration stop; at every stage there
is an entry for each place; and first come first served leads to the outcome. -/
structure Ends (graph : Exploration Fact) (arrivals : List (Nat × Fact)) : Prop where
  settles : forall run : Nat -> Stage Fact, run 0 = graph.start arrivals ->
    (forall step, (run step).arrivals ≠ [] -> graph.Handles (run step) (run (step + 1))) ->
    ∃ steps, (run steps).arrivals = []
  goesOn : forall stage, Relation.ReflTransGen graph.Handles (graph.start arrivals) stage ->
    stage.arrivals ≠ [] -> ∃ next, graph.Handles stage next
  full : forall stage, Relation.ReflTransGen graph.Handles (graph.start arrivals) stage ->
    stage.memo.size = graph.places
  served : Relation.ReflTransGen graph.Handles (graph.start arrivals)
    ⟨graph.outcome arrivals, []⟩

theorem ends (graph : Exploration Fact) (arrivals : List (Nat × Fact)) :
    graph.Ends arrivals where
  settles := fun run _ handles => exists_settled run handles
  goesOn := fun stage _ waiting => exists_handles stage waiting
  full := by
    intro stage reached
    induction reached with
    | refl => exact Array.size_replicate
    | tail _ handles inductionHypothesis =>
        exact (size_of_handles handles).trans inductionHypothesis
  served := graph.handles_explore _ arrivals

end Exploration

namespace Program

/-- On every program the two depth analyses and the analysis of the selected storage come to
an end and have an entry for each instruction. -/
theorem analyses_end (program : Program) :
    (program.coarseGraph.Ends [(0, 0)] ∧ program.coarselyLive.size = program.size) ∧
      (program.preciseGraph.Ends [(0, Depths.zero)] ∧
        program.preciselyLive.size = program.size) ∧
      (program.contextGraph.Ends [(0, false)] ∧
        program.storageContext.size = program.size) :=
  ⟨⟨program.coarseGraph.ends _, program.size_coarselyLive⟩,
    ⟨program.preciseGraph.ends _, program.size_preciselyLive⟩,
    ⟨program.contextGraph.ends _, program.size_storageContext⟩⟩

end Program
end HangulPane
