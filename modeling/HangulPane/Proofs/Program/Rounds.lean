import HangulPane.Program.Fold
import HangulPane.Proofs.Program.Labels

namespace HangulPane
namespace Program

/-!
The rounds of folding.

The pass goes over the duplicates, if it is asked to, and then over the operations and jumps.
A round changes nothing, or it is a fold, or the pass breaks off in it: at a jump whose label
stands for an index that no other one comes after.  What a program has at the start and every
fold keeps, it has after any number of rounds.

A fold moves no label that stands for an index past the end, and it makes no jump.  So where
the pass breaks off can be told from the program that it was given.
-/

/-- Only past the end there may be no next index. -/
theorem nextIndex?_eq_none_iff (program : Program) (index : Nat) :
    program.nextIndex? index = none <-> program.size < index ∧ maxIndex ≤ index := by
  simp [nextIndex?]

theorem eq_succ_of_nextIndex? {program : Program} {index next : Nat}
    (found : program.nextIndex? index = some next) : next = index + 1 := by
  unfold nextIndex? at found
  split at found
  · exact (Option.some.inj found).symm
  · cases found

namespace Folding

/-- Two literals that are left one after the other before an index, by instructions that only
ever run with a stack selected, with no label for an index after the first of them. -/
structure FindsLiterals (context : Array (Option Bool)) (folding : Folding)
    (left right last : Nat) (leftValue rightValue : Int64) : Prop where
  rightFound : previous? folding.program.code last = some right
  leftFound : previous? folding.program.code right = some left
  push : folding.at? left = some (.push leftValue)
  pushed : pushedValue? leftValue (folding.at? right) = some rightValue
  stackOnly : (isStackOnly context last && isStackOnly context right &&
    isStackOnly context left) = true
  untargeted : folding.hasTarget (left + 1) last = false

/-- What one fold makes of a folding, from the first literal that it uses to the instruction
that it is about. -/
inductive Folds (context : Array (Option Bool)) (folding : Folding) (first last : Nat) :
    Folding -> Prop where
  /-- A duplicate of a literal becomes that literal. -/
  | duplicate {literal : Int64} (found : previous? folding.program.code last = some first)
      (push : folding.at? first = some (.push literal)) (repeats : folding.at? last = some .dup)
      (stackOnly : (isStackOnly context last && isStackOnly context first) = true)
      (untargeted : folding.hasTarget (first + 1) last = false) :
      Folds context folding first last (folding.replace last (.push literal))
  /-- An operation on two literals becomes its value. -/
  | operation {right : Nat} {leftValue rightValue value : Int64} {operation : Instruction}
      (literals : folding.FindsLiterals context first right last leftValue rightValue)
      (fetched : folding.at? last = some operation)
      (binary : operation.opcode.isBinary = true)
      (folded : foldedValue? operation leftValue rightValue = some value) :
      Folds context folding first last
        (((folding.replace last (.push value)).discard right).discard first)
  /-- Two literals before a jump become the value of the operation that the jump leads to, and
  the label of the jump moves past the operation. -/
  | jump {right label : Nat} {leftValue rightValue value : Int64} {operation : Instruction}
      (literals : folding.FindsLiterals context first right last leftValue rightValue)
      (jump : folding.at? last = some (.jmp label))
      (alone : folding.unique.find? (folding.program.target label) = some label)
      (once : folding.uses.find? label = some 1)
      (inside : folding.program.target label + 1 < folding.program.size)
      (fetched : folding.at? (folding.program.target label) = some operation)
      (binary : operation.opcode.isBinary = true)
      (folded : foldedValue? operation leftValue rightValue = some value) :
      Folds context folding first last
        ((((folding.replace right (.push value)).discard first).advanceLabel label
          (folding.program.target label)).moveComments (folding.program.target label) right)

/-- Whether the pass breaks off at a jump: two literals come before it, its label is the only
one where it stands and belongs to no other instruction, and there is no index after that. -/
structure BreaksAt (context : Array (Option Bool)) (folding : Folding) (last label : Nat) :
    Prop where
  literals : ∃ left right leftValue rightValue,
    folding.FindsLiterals context left right last leftValue rightValue
  jump : folding.at? last = some (.jmp label)
  alone : folding.unique.find? (folding.program.target label) = some label
  once : folding.uses.find? label = some 1
  beyond : folding.program.nextIndex? (folding.program.target label) = none

/-- What a round over the instruction at an index comes to, with the first literal before that
index. -/
inductive Attempt (context : Array (Option Bool)) (folding : Folding) (first? : Option Nat)
    (last : Nat) : Option Folding -> Prop where
  | idle : Attempt context folding first? last (some folding)
  | folded {first : Nat} {after : Folding} (spans : first? = some first)
      (folds : folding.Folds context first last after) :
      Attempt context folding first? last (some after)
  | brokenOff {label : Nat} (breaks : folding.BreaksAt context last label) :
      Attempt context folding first? last none

section Attempts

variable (context : Array (Option Bool)) (folding : Folding) (index : Nat)

theorem foldDuplicate_attempt :
    folding.Attempt context (previous? folding.program.code index) index
      (some (folding.foldDuplicate context index)) := by
  unfold foldDuplicate
  split
  · rename_i repeats
    split
    · exact .idle
    · rename_i first found
      split
      · rename_i allowed
        obtain ⟨stackOnly, untargeted⟩ := Bool.and_eq_true_iff.mp allowed
        rw [Bool.not_eq_true'] at untargeted
        split
        · rename_i literal push
          exact .folded found (.duplicate found push repeats stackOnly untargeted)
        · exact .idle
      · exact .idle
  · exact .idle

section Jumps

variable {context folding index} {first right label : Nat} {leftValue rightValue : Int64}
  (literals : folding.FindsLiterals context first right index leftValue rightValue)
  (jump : folding.at? index = some (.jmp label))
include literals jump

theorem foldWithTarget_attempt {first? : Option Nat} (spans : first? = some first)
    (alone : folding.unique.find? (folding.program.target label) = some label)
    (once : folding.uses.find? label = some 1)
    (inside : folding.program.target label + 1 < folding.program.size) :
    folding.Attempt context first? index
      (some (folding.foldWithTarget right first label rightValue leftValue)) := by
  unfold foldWithTarget
  dsimp only
  split
  · exact .idle
  · rename_i operation fetched
    split
    · rename_i binary
      split
      · exact .idle
      · rename_i value folded
        exact .folded spans (.jump literals jump alone once inside fetched binary folded)
    · exact .idle

theorem foldThroughJump?_attempt {first? : Option Nat} (spans : first? = some first) :
    folding.Attempt context first? index
      (folding.foldThroughJump? right first label rightValue leftValue) := by
  unfold foldThroughJump?
  dsimp only
  split
  · rename_i admissible
    cases follows : folding.program.nextIndex? (folding.program.target label) with
    | none =>
        exact .brokenOff ⟨⟨_, _, _, _, literals⟩, jump, admissible.1, admissible.2, follows⟩
    | some next =>
        rw [Option.map_some]
        split
        · rename_i inside
          rw [eq_succ_of_nextIndex? follows] at inside
          exact foldWithTarget_attempt literals jump spans admissible.1 admissible.2 inside
        · exact .idle
  · exact .idle

end Jumps

theorem foldOperation?_attempt :
    folding.Attempt context
      ((previous? folding.program.code index).bind (previous? folding.program.code)) index
      (folding.foldOperation? context index) := by
  unfold foldOperation?
  split
  · exact .idle
  · rename_i right rightFound
    split
    · exact .idle
    · rename_i first leftFound
      have spans : (previous? folding.program.code index).bind
          (previous? folding.program.code) = some first := by
        rw [rightFound]
        exact leftFound
      split
      · rename_i leftValue push
        split
        · exact .idle
        · rename_i rightValue pushed
          split
          · rename_i allowed
            obtain ⟨stackOnly, untargeted⟩ := Bool.and_eq_true_iff.mp allowed
            rw [Bool.not_eq_true'] at untargeted
            have literals : folding.FindsLiterals context first right index leftValue rightValue :=
              ⟨rightFound, leftFound, push, pushed, stackOnly, untargeted⟩
            split
            · rename_i label jump
              exact foldThroughJump?_attempt literals jump spans
            · rename_i operation notJump fetched
              split
              · rename_i binary
                split
                · exact .idle
                · rename_i value folded
                  exact .folded spans (.operation literals fetched binary folded)
              · exact .idle
            · exact .idle
          · exact .idle
      · exact .idle

end Attempts

variable {context : Array (Option Bool)} {folding after : Folding} {first last : Nat}

section Parts

variable (folding : Folding)

@[simp]
theorem size_replace (index : Nat) (new : Instruction) :
    (folding.replace index new).program.size = folding.program.size :=
  Array.size_setIfInBounds

@[simp]
theorem size_discard (index : Nat) :
    (folding.discard index).program.size = folding.program.size :=
  folding.size_replace index .noop

@[simp]
theorem target_replace (index : Nat) (new : Instruction) (label : Nat) :
    (folding.replace index new).program.target label = folding.program.target label := by
  unfold Program.target
  rw [size_replace]
  rfl

@[simp]
theorem target_discard (index label : Nat) :
    (folding.discard index).program.target label = folding.program.target label :=
  folding.target_replace index .noop label

@[simp]
theorem target_moveComments (source destination label : Nat) :
    (folding.moveComments source destination).program.target label =
      folding.program.target label := rfl

theorem target_advanceLabel (moved target label : Nat) :
    (folding.advanceLabel moved target).program.target label =
      if label = moved then target + 1 else folding.program.target label := by
  unfold advanceLabel Program.target
  dsimp only
  rw [Table.find?_insert]
  split
  · rfl
  · rfl

theorem unique_advanceLabel {moved target index : Nat} (notHere : index ≠ target)
    (notNext : index ≠ target + 1) :
    (folding.advanceLabel moved target).unique.find? index = folding.unique.find? index := by
  unfold advanceLabel
  dsimp only
  split
  · rw [Table.find?_insert, if_neg notNext, Table.find?_erase, if_neg notHere]
  · rw [Table.find?_erase, if_neg notNext, Table.find?_erase, if_neg notHere]

/-- What is found where another instruction was put was there before. -/
theorem at?_of_replace {index other : Nat} {new instruction : Instruction}
    (differs : instruction ≠ new)
    (fetched : (folding.replace index new).at? other = some instruction) :
    folding.at? other = some instruction := by
  by_cases here : index = other
  · subst here
    refine absurd ?_ differs
    unfold at? replace at fetched
    rw [Array.getElem?_setIfInBounds_self] at fetched
    split at fetched
    · exact (Option.some.inj fetched).symm
    · cases fetched
  · rwa [at?, replace, Array.getElem?_setIfInBounds_ne here] at fetched

end Parts

namespace Folds

variable (folds : folding.Folds context first last after)
include folds

/-- A fold only makes literals and idle instructions. -/
theorem at?_of_ne {index : Nat} {instruction : Instruction}
    (noLiteral : forall literal, instruction ≠ .push literal) (busy : instruction ≠ .noop)
    (fetched : after.at? index = some instruction) : folding.at? index = some instruction := by
  cases folds with
  | duplicate => exact folding.at?_of_replace (noLiteral _) fetched
  | operation =>
      have beforeFirst := at?_of_replace _ busy fetched
      have beforeRight := at?_of_replace _ busy beforeFirst
      exact folding.at?_of_replace (noLiteral _) beforeRight
  | jump =>
      have beforeFirst := at?_of_replace _ busy fetched
      exact folding.at?_of_replace (noLiteral _) beforeFirst

theorem size_eq : after.program.size = folding.program.size := by
  cases folds with
  | duplicate => exact folding.size_replace ..
  | operation => simp
  | jump => exact (size_discard ..).trans (folding.size_replace ..)

theorem uses_eq : after.uses = folding.uses := by
  cases folds <;> rfl

/-- A fold moves a label only past an operation that the label alone stands for. -/
theorem moved {label : Nat}
    (moved : after.program.target label ≠ folding.program.target label) :
    after.program.target label = folding.program.target label + 1 ∧
      folding.program.target label + 1 < folding.program.size ∧
      folding.unique.find? (folding.program.target label) = some label ∧
      ∃ operation, folding.at? (folding.program.target label) = some operation ∧
        operation.opcode.isBinary = true := by
  cases folds with
  | duplicate => simp at moved
  | operation => simp at moved
  | @jump right own _ _ _ operation _ _ alone _ inside fetched binary =>
      rw [target_moveComments, target_advanceLabel] at moved ⊢
      by_cases same : label = own
      · subst same
        rw [if_pos rfl]
        exact ⟨rfl, inside, alone, operation, fetched, binary⟩
      · simp [same] at moved

/-- Which labels are the only ones changes inside the program alone. -/
theorem unique_eq {index : Nat} (outside : folding.program.size ≤ index) :
    after.unique.find? index = folding.unique.find? index := by
  cases folds with
  | duplicate => rfl
  | operation => rfl
  | jump _ _ _ _ inside =>
      exact unique_advanceLabel _ (by omega) (by omega)

end Folds

end Folding

/-- One round of the pass. -/
inductive Round where
  | duplicate (index : Nat)
  | operation (index : Nat)

namespace Round

/-- The index of the instruction that a round is about. -/
def index : Round -> Nat
  | .duplicate index | .operation index => index

/-- The index of the first literal that a round uses if it folds. -/
def first? (code : Array Instruction) : Round -> Option Nat
  | .duplicate index => previous? code index
  | .operation index => (previous? code index).bind (previous? code)

/-- What a round makes of a folding, unless the pass breaks off in it. -/
def perform? (context : Array (Option Bool)) (folding : Folding) : Round -> Option Folding
  | .duplicate index => some (folding.foldDuplicate context index)
  | .operation index => folding.foldOperation? context index

theorem perform?_attempt (context : Array (Option Bool)) (folding : Folding) (round : Round) :
    folding.Attempt context (round.first? folding.program.code) round.index
      (round.perform? context folding) := by
  cases round with
  | duplicate index => exact folding.foldDuplicate_attempt context index
  | operation index => exact folding.foldOperation?_attempt context index

end Round

/-- The rounds of the pass, in order: over the duplicates on request, then over the operations
and jumps. -/
def foldingRounds (program : Program) (duplicates : Bool) : List Round :=
  (if duplicates then (List.range' 1 (program.size - 1)).map .duplicate else []) ++
    (List.range' 2 (program.size - 2)).map .operation

/-- The folding after the first rounds of the pass, as many as are given, unless the pass has
broken off before. -/
def foldingAfter (program : Program) (duplicates : Bool) (count : Nat) : Option Folding :=
  ((program.foldingRounds duplicates).take count).foldlM (Round.perform? program.storageContext)
    (Folding.start program)

section Rounds

theorem foldlM_duplicate (context : Array (Option Bool)) (folding : Folding)
    (indices : List Nat) :
    (indices.map Round.duplicate).foldlM (Round.perform? context) folding =
      some (indices.foldl (Folding.foldDuplicate context) folding) := by
  rw [List.foldlM_map]
  exact List.foldlM_pure

theorem foldlM_operation (context : Array (Option Bool)) (folding : Folding)
    (indices : List Nat) :
    (indices.map Round.operation).foldlM (Round.perform? context) folding =
      indices.foldlM (Folding.foldOperation? context) folding :=
  List.foldlM_map ..

variable {program : Program} {duplicates : Bool} {count later : Nat} {before after : Folding}

/-- All rounds together are the pass. -/
theorem foldConstants?_eq (program : Program) (duplicates : Bool) :
    program.foldConstants? duplicates =
      (program.foldingAfter duplicates (program.foldingRounds duplicates).length).map
        fun folding => (folding.program, folding.live) := by
  unfold foldingAfter foldConstants?
  rw [List.take_length, foldingRounds, List.foldlM_append]
  cases duplicates with
  | false =>
      simp only [Bool.false_eq_true, if_false, List.foldlM_nil, pure_bind, foldlM_operation]
  | true =>
      simp only [if_true, foldlM_duplicate, Option.bind_eq_bind, Option.bind_some,
        foldlM_operation]

theorem foldingAfter_succ (program : Program) (duplicates : Bool) (count : Nat) :
    program.foldingAfter duplicates (count + 1) =
      (program.foldingAfter duplicates count).bind fun folding =>
        match (program.foldingRounds duplicates)[count]? with
        | none => some folding
        | some round => round.perform? program.storageContext folding := by
  unfold foldingAfter
  rw [List.take_add_one, List.foldlM_append]
  cases (program.foldingRounds duplicates)[count]? with
  | none => rfl
  | some round =>
      rw [Option.toList_some]
      congr
      funext folding
      simp only [List.foldlM_cons, List.foldlM_nil, bind_pure]

/-- From one count of rounds to the next nothing changes, or the next round is tried. -/
theorem foldingAfter_succ_cases (found : program.foldingAfter duplicates count = some before) :
    program.foldingAfter duplicates (count + 1) = some before ∨
      ∃ round, (program.foldingRounds duplicates)[count]? = some round ∧
        before.Attempt program.storageContext (round.first? before.program.code) round.index
          (program.foldingAfter duplicates (count + 1)) := by
  rw [foldingAfter_succ, found, Option.bind_some]
  cases next : (program.foldingRounds duplicates)[count]? with
  | none => exact Or.inl rfl
  | some round => exact Or.inr ⟨round, rfl, round.perform?_attempt program.storageContext before⟩

/-- The pass does not go on once it has broken off. -/
theorem exists_foldingAfter_of_le (ordered : count ≤ later)
    (found : program.foldingAfter duplicates later = some after) :
    ∃ before, program.foldingAfter duplicates count = some before := by
  induction ordered generalizing after with
  | refl => exact ⟨after, found⟩
  | @step later _ inductionHypothesis =>
      rw [Nat.succ_eq_add_one, foldingAfter_succ, Option.bind_eq_some_iff] at found
      obtain ⟨between, foundBetween, _⟩ := found
      exact inductionHypothesis foundBetween

/-- What folds keep holds after any later round, once it holds. -/
theorem foldingAfter_induction {motive : Folding -> Prop} (ordered : count ≤ later)
    (started : program.foldingAfter duplicates count = some before) (holds : motive before)
    (kept : forall before first last after, motive before ->
      before.Folds program.storageContext first last after -> motive after)
    (found : program.foldingAfter duplicates later = some after) : motive after := by
  induction ordered generalizing after with
  | refl =>
      rw [started] at found
      cases found
      exact holds
  | @step later ordered inductionHypothesis =>
      obtain ⟨between, foundBetween⟩ := exists_foldingAfter_of_le (Nat.le_succ later) found
      have held := inductionHypothesis foundBetween
      rcases foldingAfter_succ_cases foundBetween with same | ⟨round, _, attempt⟩
      · rw [found] at same
        cases same
        exact held
      · rw [found] at attempt
        cases attempt with
        | idle => exact held
        | folded _ folds => exact kept between _ _ after held folds

/-- What a program has and folds keep, the folded program has. -/
theorem foldConstants?_induction {motive : Folding -> Prop} (started : motive (Folding.start program))
    (kept : forall before first last after, motive before ->
      before.Folds program.storageContext first last after -> motive after)
    {folded : Program} {needed : Array Bool}
    (found : program.foldConstants? duplicates = some (folded, needed)) :
    ∃ folding, folding.program = folded ∧ folding.live = needed ∧ motive folding := by
  rw [foldConstants?_eq, Option.map_eq_some_iff] at found
  obtain ⟨folding, foundFolding, ⟨⟩⟩ := found
  exact ⟨folding, rfl, rfl, foldingAfter_induction (Nat.zero_le _) rfl started kept foundFolding⟩

end Rounds

/-! Where the pass breaks off. -/

/-- What a folding has from the program that it started from, whatever was folded. -/
structure Inherits (program : Program) (folding : Folding) : Prop where
  size : folding.program.size = program.size
  uses : folding.uses = program.labelUses
  jumps : forall index label, folding.at? index = some (.jmp label) ->
    program.code[index]? = some (.jmp label)
  targets : forall label, program.size < folding.program.target label ->
    program.target label = folding.program.target label
  unique : forall index, program.size ≤ index ->
    folding.unique.find? index = program.uniqueLabels.find? index

theorem inherits_start (program : Program) : program.Inherits (Folding.start program) :=
  ⟨rfl, rfl, fun _ _ fetched => fetched, fun _ _ => rfl, fun _ _ => rfl⟩

theorem Inherits.folds {program : Program} {context : Array (Option Bool)}
    {folding after : Folding} {first last : Nat} (inherits : program.Inherits folding)
    (folds : folding.Folds context first last after) : program.Inherits after where
  size := folds.size_eq.trans inherits.size
  uses := folds.uses_eq.trans inherits.uses
  jumps := by
    intro index label fetched
    exact inherits.jumps index label (folds.at?_of_ne (by simp) (by simp) fetched)
  targets := by
    intro label beyond
    by_cases stays : after.program.target label = folding.program.target label
    · rw [stays] at beyond ⊢
      exact inherits.targets label beyond
    · -- A label that moves stays inside the program.
      obtain ⟨next, inside, _⟩ := folds.moved stays
      rw [next, ← inherits.size] at beyond
      omega
  unique := by
    intro index beyond
    rw [folds.unique_eq (inherits.size ▸ beyond)]
    exact inherits.unique index beyond

/-- Whether folding can break off at a jump of a program: no other label stands where its label
stands, no other instruction refers to that, and there is no index after it. -/
structure Overruns (program : Program) (index label : Nat) : Prop where
  jump : program.code[index]? = some (.jmp label)
  alone : program.uniqueLabels.find? (program.target label) = some label
  once : program.labelUses.find? label = some 1
  beyond : program.nextIndex? (program.target label) = none

theorem Inherits.overruns {program : Program} {context : Array (Option Bool)} {folding : Folding}
    {last label : Nat} (inherits : program.Inherits folding)
    (breaks : folding.BreaksAt context last label) : program.Overruns last label := by
  have beyond := (nextIndex?_eq_none_iff ..).mp breaks.beyond
  rw [inherits.size] at beyond
  have same := inherits.targets label beyond.1
  refine ⟨inherits.jumps last label breaks.jump, ?_, inherits.uses ▸ breaks.once, ?_⟩
  · rw [same, ← inherits.unique _ (Nat.le_of_lt beyond.1)]
    exact breaks.alone
  · rw [same]
    exact (nextIndex?_eq_none_iff ..).mpr beyond

/-- The pass breaks off only at a jump of the program whose label stands for an index that none
comes after. -/
theorem overruns_of_foldConstants?_eq_none {program : Program} {duplicates : Bool}
    (broken : program.foldConstants? duplicates = none) :
    ∃ index label, program.Overruns index label := by
  rw [foldConstants?_eq, Option.map_eq_none_iff] at broken
  generalize (program.foldingRounds duplicates).length = count at broken
  induction count with
  | zero => cases broken
  | succ count inductionHypothesis =>
      cases found : program.foldingAfter duplicates count with
      | none => exact inductionHypothesis found
      | some folding =>
          have inherits : program.Inherits folding :=
            foldingAfter_induction (Nat.zero_le count) rfl program.inherits_start
              (fun _ _ _ _ inherits folds => inherits.folds folds) found
          rcases foldingAfter_succ_cases found with same | ⟨round, _, attempt⟩
          · rw [broken] at same
            cases same
          · rw [broken] at attempt
            cases attempt with
            | brokenOff breaks => exact ⟨_, _, inherits.overruns breaks⟩

/-- Whether no label stands for an index past the end. -/
def LabelsInside (program : Program) : Prop :=
  forall label target, program.labels.find? label = some target -> target ≤ program.size

theorem LabelsInside.target_le {program : Program} (inside : program.LabelsInside)
    (label : Nat) : program.target label ≤ program.size := by
  unfold target
  cases found : program.labels.find? label with
  | none => exact Nat.le_refl _
  | some index => exact inside label index found

/-- The pass goes through to its end where no label stands for an index past the end. -/
theorem LabelsInside.exists_foldConstants? {program : Program} (inside : program.LabelsInside)
    (duplicates : Bool) :
    ∃ folded needed, program.foldConstants? duplicates = some (folded, needed) := by
  cases found : program.foldConstants? duplicates with
  | some result => exact ⟨result.1, result.2, rfl⟩
  | none =>
      obtain ⟨_, label, overruns⟩ := overruns_of_foldConstants?_eq_none found
      have beyond := ((nextIndex?_eq_none_iff ..).mp overruns.beyond).1
      exact absurd (inside.target_le label) (Nat.not_le.mpr beyond)

end Program
end HangulPane
