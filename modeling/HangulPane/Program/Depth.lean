import HangulPane.Exploration
import HangulPane.Program.Basic

namespace HangulPane
namespace Program

/-!
Lower bounds on the depth of storages, and the instructions that they show to be
of no use.

Two analyses follow the control flow with a bound on how many values the
selected storage holds at least.  A guard that the bound satisfies is passed over
without a mark, so guards that every path satisfies, and code that only they lead
to, stay unmarked.  The coarse analysis knows one bound, for whichever storage is
selected, and forgets it when another one is selected.  The precise analysis
knows a bound for every storage and which one is selected.
-/

/-- A lower bound on a depth after an instruction, given one before it. -/
def depthAfter (instruction : Instruction) (depth : Nat) : Nat :=
  depth - instruction.opcode.taken + instruction.opcode.given

/-- Whether an instruction is a guard that a storage of the given depth satisfies. -/
def satisfiesGuard (instruction : Instruction) (depth : Nat) : Bool :=
  instruction.opcode.isGuard && instruction.opcode.requiredDepth ≤ depth

/-- The bound for the selected storage after an instruction, in the coarse
analysis. -/
def coarseAfter (instruction : Instruction) (depth : Nat) : Nat :=
  match instruction with
  | .sel _ => 0
  | _ => depthAfter instruction depth

/-- The control-flow graph with one bound for the selected storage. -/
def coarseGraph (program : Program) : Exploration Nat where
  places := program.size
  weight depth := depth
  join recorded arriving := if arriving < recorded then some arriving else none
  join_lt := by
    intro recorded arriving joined joining
    split at joining
    · cases joining; assumption
    · contradiction
  pass index depth :=
    match program.code[index]? with
    | none => none
    | some instruction =>
        if satisfiesGuard instruction depth then some (index + 1, depth) else none
  pass_lt := by
    intro index depth next passing
    split at passing
    · contradiction
    · split at passing
      · cases passing; exact Nat.lt_succ_self index
      · contradiction
  follow index depth :=
    match program.code[index]? with
    | none => []
    | some instruction =>
        (program.successors index).map fun next => (next, coarseAfter instruction depth)

/-- For each instruction, whether the coarse analysis finds a use for it. -/
def coarselyLive (program : Program) : Array Bool :=
  (program.coarseGraph.outcome [(0, 0)]).map Option.isSome

/-- A lower bound on the depth of every storage. -/
abbrev Depths := Vector Nat slotCount

namespace Depths

/-- No storage is known to hold anything. -/
def zero : Depths :=
  Vector.replicate slotCount 0

/-- The bound for a slot; a slot that does not exist holds nothing. -/
def bound (depths : Depths) (slot : Nat) : Nat :=
  depths[slot]?.getD 0

/-- The bounds with the one for a slot changed, if the slot exists. -/
def put (depths : Depths) (slot depth : Nat) : Depths :=
  depths.setIfInBounds slot depth

def total (depths : Depths) : Nat :=
  sumOf depths.toList

/-- Whether every bound is at least the recorded one. -/
def dominates (arriving recorded : Depths) : Bool :=
  (recorded.toList.zip arriving.toList).all fun pair => pair.1 ≤ pair.2

/-- The lesser bound for every slot. -/
def meet (recorded arriving : Depths) : Depths :=
  recorded.zipWith min arriving

/-- Lesser numbers have a sum that is at most as great. -/
theorem sum_zipWith_min_le (recorded arriving : List Nat) :
    sumOf (recorded.zipWith min arriving) ≤ sumOf recorded := by
  induction recorded generalizing arriving with
  | nil => simp
  | cons head tail inductionHypothesis =>
      cases arriving with
      | nil => simp
      | cons other others =>
          have tailBound := inductionHypothesis others
          simp only [List.zipWith_cons_cons, sumOf_cons]
          omega

/-- If one number is truly less, so is the sum. -/
theorem sum_zipWith_min_lt (recorded arriving : List Nat)
    (less : ((recorded.zip arriving).all fun pair => pair.1 ≤ pair.2) = false) :
    sumOf (recorded.zipWith min arriving) < sumOf recorded := by
  induction recorded generalizing arriving with
  | nil => simp at less
  | cons head tail inductionHypothesis =>
      cases arriving with
      | nil => simp at less
      | cons other others =>
          simp only [List.zip_cons_cons, List.all_cons, Bool.and_eq_false_iff,
            decide_eq_false_iff_not] at less
          simp only [List.zipWith_cons_cons, sumOf_cons]
          rcases less with here | later
          · have tailBound := sum_zipWith_min_le tail others
            omega
          · have tailBound := inductionHypothesis others later
            omega

/-- Meeting with bounds that do not dominate lowers the sum. -/
theorem total_meet_lt {recorded arriving : Depths}
    (undominated : arriving.dominates recorded = false) :
    (recorded.meet arriving).total < recorded.total := by
  unfold total meet
  rw [Vector.toList_zipWith]
  exact sum_zipWith_min_lt _ _ undominated

end Depths

/-- A slot number is a byte, so this many of them can be selected. -/
def slotNumbers : Nat := 256

/-- The place of an instruction reached with the given slot selected. -/
def precisePlace (index selected : Nat) : Nat :=
  index * slotNumbers + selected

/-- The slot selected after an instruction. -/
def selectedAfter (instruction : Instruction) (selected : Nat) : Nat :=
  match instruction with
  | .sel slot => slot.toNat
  | _ => selected

/-- The bounds after an instruction that runs with the given slot selected.
Moving a value raises the bound of the storage it goes to. -/
def depthsAfter (instruction : Instruction) (selected : Nat) (depths : Depths) : Depths :=
  let changed := depths.put selected (depthAfter instruction (depths.bound selected))
  match instruction with
  | .mov slot => changed.put slot.toNat (changed.bound slot.toNat + 1)
  | _ => changed

/-- The control-flow graph with the selected slot and a bound for every storage. -/
def preciseGraph (program : Program) : Exploration Depths where
  places := program.size * slotNumbers
  weight := Depths.total
  join recorded arriving :=
    if arriving.dominates recorded then none else some (recorded.meet arriving)
  join_lt := by
    intro recorded arriving joined joining
    split at joining
    · contradiction
    · rename_i undominated
      cases joining
      exact Depths.total_meet_lt (by simpa using undominated)
  pass place depths :=
    match program.code[place / slotNumbers]? with
    | none => none
    | some instruction =>
        if satisfiesGuard instruction (depths.bound (place % slotNumbers)) then
          some (place + slotNumbers, depths)
        else
          none
  pass_lt := by
    intro place depths next passing
    split at passing
    · contradiction
    · split at passing
      · cases passing
        exact Nat.lt_add_of_pos_right (by decide)
      · contradiction
  follow place depths :=
    let index := place / slotNumbers
    let selected := place % slotNumbers
    match program.code[index]? with
    | none => []
    | some instruction =>
        (program.successors index).map fun next =>
          (precisePlace next (selectedAfter instruction selected),
            depthsAfter instruction selected depths)

/-- For each instruction, whether the precise analysis finds a use for it, with
any slot selected. -/
def preciselyLive (program : Program) : Array Bool :=
  let memo := program.preciseGraph.outcome [(0, Depths.zero)]
  (Array.range program.size).map fun index =>
    (List.range slotNumbers).any fun selected =>
      (memo[precisePlace index selected]?.join).isSome

end Program
end HangulPane
