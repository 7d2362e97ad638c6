import HangulPane.Exploration

namespace HangulPane
namespace Exploration

/-!
What an exploration knows in the end.

An arrival is accounted for if it waits in line, lies outside the graph, passes over
its place to one that is accounted for, or is covered by the fact recorded at its
place.  Every step of an exploration keeps all arrivals accounted for, and after the
last one nothing waits any more.  So in the end the recorded facts are closed under the
flow of facts along the graph.  Which facts cover which is a parameter; the joins have
to respect it.

Conversely nothing is recorded that did not arrive: a property of the first arrivals that
the flow of facts keeps holds of every recorded fact.  Facts that pass over a place are not
recorded there, so the recorded facts may have a property that not all arriving ones have.
-/

variable {Fact : Type}

/-- Whether the joins of a graph lose nothing: what a recorded fact covers stays
covered, and what arrives is covered afterwards. -/
structure Respects (graph : Exploration Fact) (covers : Fact -> Fact -> Prop) : Prop where
  refl : forall fact, covers fact fact
  refused : forall recorded arriving, graph.join recorded arriving = none ->
    covers recorded arriving
  arrived : forall recorded arriving joined, graph.join recorded arriving = some joined ->
    covers joined arriving
  kept : forall recorded arriving joined fact, graph.join recorded arriving = some joined ->
    covers recorded fact -> covers joined fact

/-- Whether an arrival at a place is accounted for by what is recorded and by the
arrivals that wait. -/
inductive Accounted (graph : Exploration Fact) (covers : Fact -> Fact -> Prop)
    (memo : Memo Fact) (arrivals : List (Nat × Fact)) : Nat -> Fact -> Prop where
  | waiting {place : Nat} {fact : Fact} (listed : (place, fact) ∈ arrivals) :
      Accounted graph covers memo arrivals place fact
  | outside {place : Nat} {fact : Fact} (beyond : graph.places ≤ place) :
      Accounted graph covers memo arrivals place fact
  | passed {place : Nat} {fact : Fact} (next : Nat × Fact)
      (passing : graph.pass place fact = some next)
      (later : Accounted graph covers memo arrivals next.1 next.2) :
      Accounted graph covers memo arrivals place fact
  | recorded {place : Nat} {fact : Fact} (known : Fact)
      (found : memo[place]? = some (some known)) (covered : covers known fact) :
      Accounted graph covers memo arrivals place fact

/-- Whether all that follows from recorded facts is accounted for. -/
def Closed (graph : Exploration Fact) (covers : Fact -> Fact -> Prop) (memo : Memo Fact)
    (arrivals : List (Nat × Fact)) : Prop :=
  forall (place : Nat) (known : Fact), memo[place]? = some (some known) ->
    forall next, next ∈ graph.follow place known ->
      Accounted graph covers memo arrivals next.1 next.2

/-- What one step of an exploration does: what waited is accounted for, recorded facts
cover as much as before, and what follows from a new one waits. -/
structure Advances (graph : Exploration Fact) (covers : Fact -> Fact -> Prop)
    (memo : Memo Fact) (arrivals : List (Nat × Fact)) (memoAfter : Memo Fact)
    (arrivalsAfter : List (Nat × Fact)) : Prop where
  handled : forall place fact, (place, fact) ∈ arrivals ->
    Accounted graph covers memoAfter arrivalsAfter place fact
  kept : forall (place : Nat) (known : Fact), memo[place]? = some (some known) ->
    ∃ knownAfter, memoAfter[place]? = some (some knownAfter) ∧
      forall fact, covers known fact -> covers knownAfter fact
  queued : forall (place : Nat) (known : Fact), memoAfter[place]? = some (some known) ->
    memo[place]? = some (some known) ∨
      forall next, next ∈ graph.follow place known -> next ∈ arrivalsAfter

variable {graph : Exploration Fact} {covers : Fact -> Fact -> Prop}
  {memo memoAfter : Memo Fact} {arrivals arrivalsAfter : List (Nat × Fact)}

theorem Advances.accounted (step : Advances graph covers memo arrivals memoAfter arrivalsAfter)
    {place : Nat} {fact : Fact} (before : Accounted graph covers memo arrivals place fact) :
    Accounted graph covers memoAfter arrivalsAfter place fact := by
  induction before with
  | waiting listed => exact step.handled _ _ listed
  | outside beyond => exact .outside beyond
  | passed next passing _ inductionHypothesis => exact .passed next passing inductionHypothesis
  | recorded known found covered =>
      rcases step.kept _ known found with ⟨knownAfter, foundAfter, wider⟩
      exact .recorded knownAfter foundAfter (wider _ covered)

theorem Advances.closed (step : Advances graph covers memo arrivals memoAfter arrivalsAfter)
    (before : Closed graph covers memo arrivals) :
    Closed graph covers memoAfter arrivalsAfter := by
  intro place known found next follows
  rcases step.queued place known found with old | queued
  · exact step.accounted (before place known old next follows)
  · exact .waiting (queued next follows)

/-- An arrival that needs no record is dropped. -/
theorem advances_drop {place : Nat} {fact : Fact} {later : List (Nat × Fact)}
    (accounted : Accounted graph covers memo later place fact) :
    Advances graph covers memo ((place, fact) :: later) memo later where
  handled := by
    intro other otherFact listed
    rcases List.mem_cons.mp listed with same | listedLater
    · cases same
      exact accounted
    · exact .waiting listedLater
  kept := fun _ known found => ⟨known, found, fun _ covered => covered⟩
  queued := fun _ _ found => Or.inl found

/-- An arrival passes over its place. -/
theorem advances_pass {place : Nat} {fact : Fact} {later : List (Nat × Fact)}
    {next : Nat × Fact} (passing : graph.pass place fact = some next) :
    Advances graph covers memo ((place, fact) :: later) memo (next :: later) where
  handled := by
    intro other otherFact listed
    rcases List.mem_cons.mp listed with same | listedLater
    · cases same
      exact .passed next passing (.waiting (List.mem_cons_self ..))
    · exact .waiting (List.mem_cons_of_mem _ listedLater)
  kept := fun _ known found => ⟨known, found, fun _ covered => covered⟩
  queued := fun _ _ found => Or.inl found

/-- An arrival is recorded, over what was recorded before if there was something. -/
theorem advances_record {place : Nat} {fact new : Fact} {later : List (Nat × Fact)}
    (bounded : place < memo.size) (covered : covers new fact)
    (wider : forall known, memo[place]? = some (some known) ->
      forall other, covers known other -> covers new other) :
    Advances graph covers memo ((place, fact) :: later) (memo.set place (some new) bounded)
      (later ++ graph.follow place new) where
  handled := by
    intro other otherFact listed
    rcases List.mem_cons.mp listed with same | listedLater
    · cases same
      exact .recorded new (by simp) covered
    · exact .waiting (List.mem_append_left _ listedLater)
  kept := by
    intro other known found
    by_cases here : place = other
    · subst here
      exact ⟨new, by simp, wider known found⟩
    · exact ⟨known, by simpa [Array.getElem?_set_ne bounded here] using found,
        fun _ covered => covered⟩
  queued := by
    intro other known found
    by_cases here : place = other
    · subst here
      have same : new = known := by simpa using found
      subst same
      exact Or.inr fun next follows => List.mem_append_right _ follows
    · exact Or.inl (by simpa [Array.getElem?_set_ne bounded here] using found)

/-- Whether a result still accounts for all that waiting arrivals and recorded facts
accounted for, with nothing left that waits. -/
structure Settles (graph : Exploration Fact) (covers : Fact -> Fact -> Prop)
    (memo : Memo Fact) (arrivals : List (Nat × Fact)) (result : Memo Fact) : Prop where
  accounted : forall place fact, Accounted graph covers memo arrivals place fact ->
    Accounted graph covers result [] place fact
  closed : Closed graph covers memo arrivals -> Closed graph covers result []

theorem Advances.settles (step : Advances graph covers memo arrivals memoAfter arrivalsAfter)
    {result : Memo Fact} (rest : Settles graph covers memoAfter arrivalsAfter result) :
    Settles graph covers memo arrivals result where
  accounted := fun place fact before => rest.accounted place fact (step.accounted before)
  closed := fun before => rest.closed (step.closed before)

/-- An exploration settles all that waits.  The induction is on its steps. -/
theorem settles_explore (respects : Respects graph covers) (memo : Memo Fact)
    (arrivals : List (Nat × Fact)) (full : memo.size = graph.places) :
    Settles graph covers memo arrivals (graph.explore memo arrivals) := by
  fun_induction explore graph memo arrivals with
  | case1 memo => exact ⟨fun _ _ accounted => accounted, fun closed => closed⟩
  | case2 memo place fact later inside bounded next passing _ inductionHypothesis =>
      exact (advances_pass passing).settles (inductionHypothesis full)
  | case3 memo place fact later inside bounded passing fresh _ inductionHypothesis =>
      refine (advances_record bounded (respects.refl fact) ?_).settles
        (inductionHypothesis (by simpa using full))
      intro known found
      simp [Array.getElem?_eq_getElem bounded, fresh] at found
  | case4 memo place fact later inside bounded passing known found refused inductionHypothesis =>
      refine (advances_drop (.recorded known ?_ ?_)).settles (inductionHypothesis full)
      · simp [Array.getElem?_eq_getElem bounded, found]
      · exact respects.refused known fact refused
  | case5 memo place fact later inside bounded passing known found joined joining _ _
      inductionHypothesis =>
      refine (advances_record bounded (respects.arrived known fact joined joining) ?_).settles
        (inductionHypothesis (by simpa using full))
      intro recorded recordedThere other
      have recordedKnown : recorded = known := by
        simpa [Array.getElem?_eq_getElem bounded, found, eq_comm] using recordedThere
      subst recordedKnown
      exact respects.kept recorded fact joined other joining
  | case6 memo place fact later outside inductionHypothesis =>
      refine (advances_drop (.outside ?_)).settles (inductionHypothesis full)
      omega

/-- The arrivals from which an exploration starts are accounted for in the end. -/
theorem accounted_outcome (respects : Respects graph covers) {place : Nat} {fact : Fact}
    (listed : (place, fact) ∈ arrivals) :
    Accounted graph covers (graph.outcome arrivals) [] place fact :=
  (settles_explore respects _ arrivals (by simp)).accounted place fact (.waiting listed)

/-- What is recorded in the end is closed. -/
theorem closed_outcome (respects : Respects graph covers) :
    Closed graph covers (graph.outcome arrivals) [] := by
  refine (settles_explore respects _ arrivals (by simp)).closed ?_
  intro place known found
  simp [Array.getElem?_replicate] at found

theorem size_explore (graph : Exploration Fact) (memo : Memo Fact)
    (arrivals : List (Nat × Fact)) : (graph.explore memo arrivals).size = memo.size := by
  fun_induction explore graph memo arrivals with
  | case1 => rfl
  | case2 _ _ _ _ _ _ _ _ _ inductionHypothesis => exact inductionHypothesis
  | case3 _ _ _ _ _ _ _ _ _ inductionHypothesis =>
      exact inductionHypothesis.trans (Array.size_set _)
  | case4 _ _ _ _ _ _ _ _ _ _ inductionHypothesis => exact inductionHypothesis
  | case5 _ _ _ _ _ _ _ _ _ _ _ _ _ inductionHypothesis =>
      exact inductionHypothesis.trans (Array.size_set _)
  | case6 _ _ _ _ _ inductionHypothesis => exact inductionHypothesis

/-- There is an entry for each place in the end. -/
theorem size_outcome (graph : Exploration Fact) (arrivals : List (Nat × Fact)) :
    (graph.outcome arrivals).size = graph.places := by
  rw [outcome, size_explore, Array.size_replicate]

/-- Whether the flow of facts keeps a property of the facts that arrive and another one of
those that are recorded.  Only a fact that does not pass over its place is recorded there. -/
structure Sorts (graph : Exploration Fact) (arrives records : Nat -> Fact -> Prop) : Prop where
  recorded : forall place fact, arrives place fact -> graph.pass place fact = none ->
    records place fact
  joined : forall place recorded arriving joined, graph.join recorded arriving = some joined ->
    records place recorded -> arrives place arriving -> graph.pass place arriving = none ->
    records place joined
  passed : forall place fact next, arrives place fact -> graph.pass place fact = some next ->
    arrives next.1 next.2
  followed : forall place fact next, records place fact -> next ∈ graph.follow place fact ->
    arrives next.1 next.2

variable {arrives records holds : Nat -> Fact -> Prop}

/-- Recording a fact with a property keeps it true of all that is recorded. -/
theorem records_set {place : Nat} (bounded : place < memo.size) {new : Fact}
    (recorded : forall (place : Nat) (known : Fact), memo[place]? = some (some known) ->
      records place known) (recordsNew : records place new) (other : Nat) (known : Fact)
    (found : (memo.set place (some new) bounded)[other]? = some (some known)) :
    records other known := by
  by_cases here : place = other
  · subst here
    have same : new = known := by simpa using found
    exact same ▸ recordsNew
  · exact recorded other known (by simpa [Array.getElem?_set_ne bounded here] using found)

/-- What an exploration records has the property of recorded facts if what it starts from has
the two properties.  The induction is on its steps. -/
theorem records_explore (sorts : graph.Sorts arrives records) (memo : Memo Fact)
    (arrivals : List (Nat × Fact))
    (recorded : forall (place : Nat) (known : Fact), memo[place]? = some (some known) ->
      records place known)
    (waiting : forall arrival, arrival ∈ arrivals -> arrives arrival.1 arrival.2)
    (place : Nat) (known : Fact)
    (found : (graph.explore memo arrivals)[place]? = some (some known)) :
    records place known := by
  fun_induction explore graph memo arrivals with
  | case1 memo => exact recorded place known found
  | case2 memo here fact later inside bounded next passing _ inductionHypothesis =>
      rcases List.forall_mem_cons.mp waiting with ⟨first, rest⟩
      have onward : arrives next.1 next.2 := sorts.passed here fact next first passing
      exact inductionHypothesis recorded (List.forall_mem_cons.mpr ⟨onward, rest⟩) found
  | case3 memo here fact later inside bounded passing fresh _ inductionHypothesis =>
      rcases List.forall_mem_cons.mp waiting with ⟨first, rest⟩
      have after := sorts.recorded here fact first passing
      have onward := fun next => sorts.followed here fact next after
      exact inductionHypothesis (records_set bounded recorded after)
        (List.forall_mem_append.mpr ⟨rest, onward⟩) found
  | case4 memo here fact later inside bounded passing old seen refused inductionHypothesis =>
      exact inductionHypothesis recorded (List.forall_mem_cons.mp waiting).2 found
  | case5 memo here fact later inside bounded passing old seen joined joining _ _
      inductionHypothesis =>
      rcases List.forall_mem_cons.mp waiting with ⟨first, rest⟩
      have before : records here old :=
        recorded here old (by rw [Array.getElem?_eq_getElem bounded, seen])
      have after := sorts.joined here old fact joined joining before first passing
      have onward := fun next => sorts.followed here joined next after
      exact inductionHypothesis (records_set bounded recorded after)
        (List.forall_mem_append.mpr ⟨rest, onward⟩) found
  | case6 memo here fact later outside inductionHypothesis =>
      exact inductionHypothesis recorded (List.forall_mem_cons.mp waiting).2 found

/-- What is recorded in the end has the property of recorded facts if the first arrivals have
that of arriving ones. -/
theorem records_outcome (sorts : graph.Sorts arrives records)
    (waiting : forall arrival, arrival ∈ arrivals -> arrives arrival.1 arrival.2)
    {place : Nat} {known : Fact}
    (found : (graph.outcome arrivals)[place]? = some (some known)) : records place known := by
  refine records_explore sorts _ arrivals ?_ waiting place known found
  intro other otherFact recorded
  simp [Array.getElem?_replicate] at recorded

/-- Whether the flow of facts keeps a property of facts at their places. -/
structure Conserves (graph : Exploration Fact) (holds : Nat -> Fact -> Prop) : Prop where
  joined : forall place recorded arriving joined, graph.join recorded arriving = some joined ->
    holds place recorded -> holds place arriving -> holds place joined
  passed : forall place fact next, holds place fact -> graph.pass place fact = some next ->
    holds next.1 next.2
  followed : forall place fact next, holds place fact -> next ∈ graph.follow place fact ->
    holds next.1 next.2

/-- What is recorded in the end has every property of the first arrivals that the flow of
facts keeps. -/
theorem holds_outcome (conserves : graph.Conserves holds)
    (waiting : forall arrival, arrival ∈ arrivals -> holds arrival.1 arrival.2)
    {place : Nat} {known : Fact}
    (found : (graph.outcome arrivals)[place]? = some (some known)) : holds place known := by
  have sorts : graph.Sorts holds holds :=
    ⟨fun _ _ held _ => held, fun place recorded arriving joined joining before first _ =>
      conserves.joined place recorded arriving joined joining before first,
      conserves.passed, conserves.followed⟩
  exact records_outcome sorts waiting found

end Exploration
end HangulPane
