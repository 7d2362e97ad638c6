namespace HangulPane

/-!
Exploring a finite graph of places while keeping one fact per place.

An exploration starts from some arrivals, each a fact that holds at a place.  An
arrival may pass over its place without a trace, to a later place; otherwise it
is recorded there, joined with the fact that was recorded before, and arrives at
the successors of the place.  An arrival that adds nothing to the recorded fact
ends.  Facts carry a weight that every join lowers, so no place takes new facts
for ever: an exploration is finite although the graph may have cycles and the
facts along a cycle may grow without bound.
-/

def sumOf (numbers : List Nat) : Nat :=
  numbers.foldr (fun number rest => number + rest) 0

@[simp]
theorem sumOf_nil : sumOf [] = 0 := rfl

@[simp]
theorem sumOf_cons (number : Nat) (rest : List Nat) :
    sumOf (number :: rest) = number + sumOf rest := rfl

/-- What is known at each place: nothing yet, or a fact. -/
abbrev Memo (Fact : Type) := Array (Option Fact)

namespace Memo

variable {Fact : Type}

/-- How many places have no fact yet. -/
def unseen (memo : Memo Fact) : Nat :=
  memo.toList.countP Option.isNone

/-- The weight of all recorded facts together. -/
def burden (weight : Fact -> Nat) (memo : Memo Fact) : Nat :=
  sumOf (memo.toList.map fun fact => (fact.map weight).getD 0)

/-- Recording a fact where there was none leaves one place fewer without. -/
theorem unseen_set_lt {memo : Memo Fact} {place : Nat} (inside : place < memo.size)
    (fact : Fact) (fresh : memo[place] = none) :
    unseen (memo.set place (some fact) inside) < unseen memo := by
  unfold unseen
  have inList : place < memo.toList.length := by simpa using inside
  have counted : 0 < memo.toList.countP Option.isNone := by
    apply List.countP_pos_iff.mpr
    refine ⟨memo[place], ?_, by simp [fresh]⟩
    exact Array.getElem_mem_toList inside
  have freshInList : memo.toList[place] = none := by simpa using fresh
  rw [Array.toList_set, List.countP_set inList]
  simp only [freshInList, Option.isNone_none, if_true, Option.isNone_some]
  simp only [Bool.false_eq_true, if_false]
  omega

/-- Recording a fact over another changes nothing about which places have one. -/
theorem unseen_set_eq {memo : Memo Fact} {place : Nat} (inside : place < memo.size)
    (fact old : Fact) (seen : memo[place] = some old) :
    unseen (memo.set place (some fact) inside) = unseen memo := by
  unfold unseen
  have inList : place < memo.toList.length := by simpa using inside
  have seenInList : memo.toList[place] = some old := by simpa using seen
  rw [Array.toList_set, List.countP_set inList]
  simp [seenInList]

/-- The sum of numbers after one of them is replaced by a smaller one. -/
theorem sum_set_lt (numbers : List Nat) (place value : Nat) (inside : place < numbers.length)
    (smaller : value < numbers[place]) : sumOf (numbers.set place value) < sumOf numbers := by
  induction numbers generalizing place with
  | nil => simp at inside
  | cons head tail inductionHypothesis =>
      cases place with
      | zero => simpa using smaller
      | succ place =>
          have tailSmaller := inductionHypothesis place (by simpa using inside)
            (by simpa using smaller)
          simpa using tailSmaller

/-- Recording a lighter fact over another lowers the burden. -/
theorem burden_set_lt (weight : Fact -> Nat) {memo : Memo Fact} {place : Nat}
    (inside : place < memo.size) (fact old : Fact) (seen : memo[place] = some old)
    (lighter : weight fact < weight old) :
    burden weight (memo.set place (some fact) inside) < burden weight memo := by
  unfold burden
  rw [Array.toList_set, List.map_set]
  apply sum_set_lt _ _ _ (by simpa using inside)
  simpa [seen] using lighter

end Memo

/-- A graph of places together with the way facts travel along it. -/
structure Exploration (Fact : Type) where
  places : Nat
  weight : Fact -> Nat
  /-- What a recorded fact becomes when another one arrives; nothing if the
  arriving one adds nothing. -/
  join : (recorded arriving : Fact) -> Option Fact
  /-- A join makes the recorded fact lighter. -/
  join_lt : forall recorded arriving joined, join recorded arriving = some joined ->
    weight joined < weight recorded
  /-- Where an arrival goes on when it passes over a place. -/
  pass : Nat -> Fact -> Option (Nat × Fact)
  /-- Passing over leads to a later place. -/
  pass_lt : forall place fact next, pass place fact = some next -> place < next.1
  /-- The arrivals that follow from a recorded fact. -/
  follow : Nat -> Fact -> List (Nat × Fact)

namespace Exploration

variable {Fact : Type}

/-- The place of the first arrival, as far as it matters for progress. -/
def distance (places : Nat) : List (Nat × Fact) -> Nat
  | [] => 0
  | arrival :: _ => places - arrival.1

/-- Handle the arrivals, first come first served, until none is left. -/
def explore (graph : Exploration Fact) (memo : Memo Fact) (arrivals : List (Nat × Fact)) :
    Memo Fact :=
  match arrivals with
  | [] => memo
  | (place, fact) :: later =>
      if inside : place < graph.places ∧ place < memo.size then
        have bounded : place < memo.size := inside.2
        match passing : graph.pass place fact with
        | some next =>
            have := graph.pass_lt place fact next passing
            explore graph memo (next :: later)
        | none =>
            match known : memo[place] with
            | none =>
                have := Memo.unseen_set_lt bounded fact known
                explore graph (memo.set place (some fact) bounded)
                  (later ++ graph.follow place fact)
            | some recorded =>
                match joining : graph.join recorded fact with
                | none => explore graph memo later
                | some joined =>
                    have := Memo.unseen_set_eq bounded joined recorded known
                    have := Memo.burden_set_lt graph.weight bounded joined recorded known
                      (graph.join_lt recorded fact joined joining)
                    explore graph (memo.set place (some joined) bounded)
                      (later ++ graph.follow place joined)
      else
        explore graph memo later
termination_by
  (memo.unseen, memo.burden graph.weight, arrivals.length, distance graph.places arrivals)
decreasing_by
  all_goals simp_wf
  all_goals simp_all [Prod.lex_def, distance]
  all_goals omega

/-- What is known after exploring from the given arrivals. -/
def outcome (graph : Exploration Fact) (arrivals : List (Nat × Fact)) : Memo Fact :=
  graph.explore (Array.replicate graph.places none) arrivals

end Exploration
end HangulPane
