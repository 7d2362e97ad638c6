import HangulPane.Machine.Run

namespace HangulPane

/-!
What can be seen of a run from outside, and when two runs look alike.

A process makes one step after another and talks to a console while it does.
Seen from outside, a number of its steps is a history: the calls it made with
their results, the console they left behind, and how the process ended if it
did.  A process that stops flushes its output; where that fails, it has ended by
that.  Two processes behave alike when every history of the one is a history of
the other.  That covers runs without an end as well: if the one goes on for ever
the other has no history with an ending, and each finite number of calls of the
one is made by the other.

A simulation lets the two processes move together or one at a time.  A process
that moves alone does so silently, and only finitely often before the other one
moves too; the two ranks count down to that.
-/

/-- A call to the console, with its result. -/
inductive ConsoleCall (N : Type) where
  | writeNumber (value : N) (result : Except ChannelFault Unit)
  | writeChar (value : N) (result : Except ChannelFault Unit)
  | readNumber (result : Except ChannelFault (Option N))
  | readChar (result : Except ChannelFault N)

/-- How a process ended, without the place in its code. -/
inductive Outcome (N : Type) where
  /-- It ended normally, inside its code only at a halt. -/
  | finished (value : N) (selected : Slot) (storage : Storage N) (inside : Bool)
  /-- A fault ended it.  The fault is kept as one at index zero. -/
  | faulted (fault : Fault) (selected : Slot) (storage : Storage N) (inside : Bool)

/-- Whether a process ended inside its code, not where there is nothing more to run. -/
def Outcome.isInside {N : Type} : Outcome N -> Bool
  | .finished _ _ _ inside | .faulted _ _ _ inside => inside

/-- How a process stops before it flushes its output: by a fault, if there is one. -/
structure Stop (N : Type) where
  fault? : Option Fault
  /-- The machine that is left, kept as one at index zero. -/
  machine : Machine N
  inside : Bool

/-- How a process that has stopped ends, if its output was flushed with the given result. -/
def Stop.outcome {N : Type} [Number N] (stop : Stop N) : Except ChannelFault Unit -> Outcome N
  | .error fault =>
      .faulted (.channel fault) stop.machine.selected stop.machine.storage stop.inside
  | .ok () =>
      match stop.fault? with
      | some fault => .faulted fault stop.machine.selected stop.machine.storage stop.inside
      | none =>
          let (value, machine) := stop.machine.takeResult
          .finished value machine.selected machine.storage stop.inside

theorem Stop.isInside_outcome {N : Type} [Number N] (stop : Stop N)
    (flushed : Except ChannelFault Unit) : (stop.outcome flushed).isInside = stop.inside := by
  cases flushed with
  | error fault => rfl
  | ok done =>
      simp only [outcome]
      cases stop.fault? <;> rfl

/-- What follows after a step. -/
inductive Continuation (N State : Type) where
  | goOn (state : State)
  | ended (stop : Stop N)

/-- One step: the call it made, if any, the console after it, and what follows. -/
structure Move (N State : Type) where
  call : Option (ConsoleCall N)
  console : Console
  next : Continuation N State

/-- Something that makes steps and talks to a console. -/
abbrev Process (N State : Type) := State -> Console -> Move N State

/-- What can be seen of a number of steps. -/
structure History (N : Type) where
  calls : List (ConsoleCall N)
  console : Console
  /-- How the process ended, if it did. -/
  outcome : Option (Outcome N)

namespace History

variable {N : Type}

/-- The history with a call made before it. -/
def after (call : Option (ConsoleCall N)) (history : History N) : History N :=
  { history with calls := call.toList ++ history.calls }

end History

namespace Process

variable {N Left Right State : Type} [Number N]

/-- The history of at most the given number of steps. -/
def history (process : Process N State) : Nat -> State -> Console -> History N
  | 0, _, console => { calls := [], console, outcome := none }
  | bound + 1, state, console =>
      let move := process state console
      match move.next with
      | .goOn next => (history process bound next move.console).after move.call
      | .ended stop =>
          let (flushed, console) := move.console.flush
          { calls := move.call.toList
            console
            outcome := some (stop.outcome flushed) }

/-- Whether a process can show a history. -/
def Shows (process : Process N State) (state : State) (console : Console)
    (history : History N) : Prop :=
  ∃ bound, process.history bound state console = history

theorem history_of_goOn {process : Process N State} {state next : State}
    {console after : Console} {call : Option (ConsoleCall N)}
    (moved : process state console = { call, console := after, next := .goOn next })
    (bound : Nat) :
    process.history (bound + 1) state console =
      (process.history bound next after).after call := by
  simp only [history, moved]

theorem history_of_ended {process : Process N State} {state : State}
    {console after : Console} {call : Option (ConsoleCall N)} {stop : Stop N}
    (moved : process state console = { call, console := after, next := .ended stop })
    (bound : Nat) :
    process.history (bound + 1) state console =
      { calls := call.toList
        console := after.flush.2
        outcome := some (stop.outcome after.flush.1) } := by
  simp only [history, moved]

/-- A family of pairs of states, each pair with the two ranks that bound how often
the left and the right process may still move alone. -/
abbrev Pairing (Left Right : Type) := Nat -> Nat -> Left -> Right -> Prop

/-- The moves of two processes from a pair of states: both end alike, both go on
with the same call, or one of them goes on alone and silently while its rank falls. -/
inductive Tandem (left : Process N Left) (right : Process N Right)
    (related : Pairing Left Right) (console : Console) (leftRank rightRank : Nat)
    (leftState : Left) (rightState : Right) : Prop where
  | ended (call : Option (ConsoleCall N)) (after : Console) (stop : Stop N)
      (leftMoves : left leftState console = { call, console := after, next := .ended stop })
      (rightMoves : right rightState console = { call, console := after, next := .ended stop })
  | both (call : Option (ConsoleCall N)) (after : Console) (leftNext : Left)
      (rightNext : Right) (leftRankAfter rightRankAfter : Nat)
      (leftMoves : left leftState console = { call, console := after, next := .goOn leftNext })
      (rightMoves : right rightState console = { call, console := after, next := .goOn rightNext })
      (still : related leftRankAfter rightRankAfter leftNext rightNext)
  | leftOnly (leftNext : Left) (leftRankAfter rightRankAfter : Nat)
      (leftMoves : left leftState console =
        { call := none, console, next := .goOn leftNext })
      (falls : leftRankAfter < leftRank)
      (still : related leftRankAfter rightRankAfter leftNext rightState)
  | rightOnly (rightNext : Right) (leftRankAfter rightRankAfter : Nat)
      (rightMoves : right rightState console =
        { call := none, console, next := .goOn rightNext })
      (falls : rightRankAfter < rightRank)
      (still : related leftRankAfter rightRankAfter leftState rightNext)

/-- A family of pairs in which two processes can always move on together. -/
def Simulates (left : Process N Left) (right : Process N Right)
    (related : Pairing Left Right) : Prop :=
  forall leftRank rightRank leftState rightState,
    related leftRank rightRank leftState rightState ->
    forall console, Tandem left right related console leftRank rightRank leftState rightState

/-- The pairs with their sides exchanged. -/
def Pairing.flip (related : Pairing Left Right) : Pairing Right Left :=
  fun rightRank leftRank right left => related leftRank rightRank left right

omit [Number N] in
theorem Simulates.flip {left : Process N Left} {right : Process N Right}
    {related : Pairing Left Right} (simulation : Simulates left right related) :
    Simulates right left related.flip := by
  intro rightRank leftRank rightState leftState pair console
  rcases simulation leftRank rightRank leftState rightState pair console with
    ⟨call, after, stop, leftMoves, rightMoves⟩ |
    ⟨call, after, leftNext, rightNext, leftAfter, rightAfter, leftMoves, rightMoves, still⟩ |
    ⟨leftNext, leftAfter, rightAfter, leftMoves, falls, still⟩ |
    ⟨rightNext, leftAfter, rightAfter, rightMoves, falls, still⟩
  · exact .ended call after stop rightMoves leftMoves
  · exact .both call after rightNext leftNext rightAfter leftAfter rightMoves leftMoves still
  · exact .rightOnly leftNext rightAfter leftAfter leftMoves falls still
  · exact .leftOnly rightNext rightAfter leftAfter rightMoves falls still

/-- Each history of the left process is one of the right process.  The induction is
on the steps of the left one; inside it, the right rank bounds how often the right
one moves alone before it keeps up. -/
theorem Simulates.right_shows {left : Process N Left} {right : Process N Right}
    {related : Pairing Left Right} (simulation : Simulates left right related)
    (bound : Nat) : forall (leftRank rightRank : Nat) (leftState : Left) (rightState : Right)
      (console : Console), related leftRank rightRank leftState rightState ->
      right.Shows rightState console (left.history bound leftState console) := by
  induction bound with
  | zero => exact fun _ _ _ _ _ _ => ⟨0, rfl⟩
  | succ bound inductionHypothesis =>
      intro leftRank rightRank
      induction rightRank using Nat.strongRecOn generalizing leftRank with
      | ind rightRank fewer =>
          intro leftState rightState console pair
          cases simulation leftRank rightRank leftState rightState pair console with
          | ended call after stop leftMoves rightMoves =>
              exact ⟨1, (history_of_ended rightMoves 0).trans
                (history_of_ended leftMoves bound).symm⟩
          | both call after leftNext rightNext leftAfter rightAfter leftMoves rightMoves still =>
              rcases inductionHypothesis leftAfter rightAfter leftNext rightNext after still with
                ⟨steps, same⟩
              refine ⟨steps + 1, ?_⟩
              rw [history_of_goOn leftMoves, history_of_goOn rightMoves, same]
          | leftOnly leftNext leftAfter rightAfter leftMoves _ still =>
              rw [history_of_goOn leftMoves]
              exact inductionHypothesis leftAfter rightAfter leftNext rightState console still
          | rightOnly rightNext leftAfter rightAfter rightMoves falls still =>
              rcases fewer rightAfter falls leftAfter leftState rightNext console still with
                ⟨steps, same⟩
              refine ⟨steps + 1, ?_⟩
              rw [history_of_goOn rightMoves, same]
              rfl

/-- Processes that a simulation relates show the same histories. -/
theorem Simulates.shows_iff {left : Process N Left} {right : Process N Right}
    {related : Pairing Left Right} (simulation : Simulates left right related)
    {leftRank rightRank : Nat} {leftState : Left} {rightState : Right}
    (pair : related leftRank rightRank leftState rightState) (console : Console)
    (history : History N) :
    left.Shows leftState console history <-> right.Shows rightState console history := by
  constructor
  · rintro ⟨bound, rfl⟩
    exact simulation.right_shows bound leftRank rightRank leftState rightState console pair
  · rintro ⟨bound, rfl⟩
    exact simulation.flip.right_shows bound rightRank leftRank rightState leftState console pair

end Process
end HangulPane
