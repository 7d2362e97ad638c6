import HangulPane.Proofs.Machine.Window
import HangulPane.Proofs.Program.Context
import HangulPane.Proofs.Program.Labels

namespace HangulPane
namespace Program

/-!
Rewriting a stretch of a program that only works on literals.

Inside the stretch the two programs may have different literals pending on top of their
stacks.  No label leads into the stretch, so control enters it at its first instruction
and only there.  Either the pending literals are the same at the end of the stretch, or
the stretch ends with a jump to an operation on them and the label of that jump skips the
operation.
-/

/-- Whether literals may be pending at an index of a stretch. -/
def Within (first last index : Nat) : Prop :=
  first < index ∧ index ≤ last

/-- The literals that are pending before each instruction, in the left and in the right
program. -/
abbrev Pending := Nat -> List Int64 × List Int64

/-- Two programs that differ in a stretch that works on literals. -/
structure Stretch (left right : Program) (first last : Nat) (pending : Pending) : Prop where
  outside : forall index, index < first ∨ last < index ->
    right.code[index]? = left.code[index]?
  /-- No label leads inside. -/
  untargeted : forall label index, Within first last index -> left.target label ≠ index
  enters : pending first = ([], [])
  occupied : forall index, Within first last index -> (pending index).1 ≠ []
  works : forall index, first ≤ index -> index < last -> ∃ leftInstruction rightInstruction,
    left.code[index]? = some leftInstruction ∧ right.code[index]? = some rightInstruction ∧
      leftInstruction.OnLiterals (pending index).1 (pending (index + 1)).1 ∧
      rightInstruction.OnLiterals (pending index).2 (pending (index + 1)).2

/-- Machines side by side, outside a stretch or with its pending literals. -/
def Stretch.beside (first last : Nat) (pending : Pending) : Machine.Window :=
  fun left right leftLiterals rightLiterals => left = right ∧
    ((¬ Within first last left ∧ leftLiterals = [] ∧ rightLiterals = []) ∨
      (Within first last left ∧ (leftLiterals, rightLiterals) = pending left))

namespace Stretch

variable {left right : Program} {first last : Nat} {pending : Pending}

theorem beside_outside (pending : Pending) {index : Nat} (outside : ¬ Within first last index) :
    beside first last pending index index [] [] :=
  ⟨rfl, Or.inl ⟨outside, rfl, rfl⟩⟩

theorem beside_within (pending : Pending) {index : Nat} (within : Within first last index) :
    beside first last pending index index (pending index).1 (pending index).2 :=
  ⟨rfl, Or.inr ⟨within, rfl⟩⟩

theorem linked_of_onLiterals {program : Program} {index : Nat} {instruction : Instruction}
    {literals after : List Int64} (fetched : program.code[index]? = some instruction)
    (works : instruction.OnLiterals literals after) :
    program.linked[index]? = some instruction := by
  rw [getElem?_linked, fetched, Option.map_some, Instruction.mapLabel_of_onLiterals works]

variable {N : Type} {machine : Machine N} {window : Machine.Window} {rank : Nat -> Nat -> Nat}

/-- Outside a stretch both programs have the same instructions. -/
theorem aligned_outside (stretch : Stretch left right first last pending)
    (outside : machine.index < first ∨ last < machine.index)
    (together : forall index, ¬ Within first last index -> window index index [] [])
    (targets : forall instruction label, left.code[machine.index]? = some instruction ->
      instruction.label? = some label -> right.target label = left.target label) :
    Machine.Aligned left.linked right.linked window rank machine machine.index [] [] := by
  have sameCode := stretch.outside machine.index outside
  cases fetched : left.code[machine.index]? with
  | none =>
      rw [fetched] at sameCode
      exact .past (by simp [getElem?_linked, fetched]) (by simp [getElem?_linked, sameCode])
  | some instruction =>
      rw [fetched] at sameCode
      refine .same instruction left.target right.target (by simp [getElem?_linked, fetched])
        (by simp [getElem?_linked, sameCode]) ?_
      rintro leftNext rightNext (⟨_, rfl, rfl⟩ | ⟨label, labelled, rfl, rfl⟩)
      · refine together _ ?_
        unfold Within
        omega
      · rw [targets instruction label fetched labelled]
        exact together _ fun within => stretch.untargeted label _ within rfl

/-- Before the last instruction of a stretch both programs work on literals. -/
theorem aligned_works (stretch : Stretch left right first last pending)
    (started : first ≤ machine.index) (before : machine.index < last)
    (admits : forall index, Within first last index ->
      window index index (pending index).1 (pending index).2)
    (onStack : machine.index = first -> ∃ items, machine.space = .stack items) :
    Machine.Aligned left.linked right.linked window rank machine machine.index
      (pending machine.index).1 (pending machine.index).2 := by
  rcases stretch.works machine.index started before with
    ⟨leftInstruction, rightInstruction, leftFetched, rightFetched, leftWorks, rightWorks⟩
  refine .work leftInstruction rightInstruction _ _
    (linked_of_onLiterals leftFetched leftWorks) (linked_of_onLiterals rightFetched rightWorks)
    leftWorks rightWorks ?_ (Or.inr (admits _ ⟨by omega, by omega⟩))
  intro none_
  by_cases entry : machine.index = first
  · exact onStack entry
  · exact absurd none_ (stretch.occupied machine.index ⟨by omega, by omega⟩)

variable {context : Array (Option Bool)} {index : Nat} {leftLiterals rightLiterals : List Int64}

/-- Machines side by side can move on together unless they stand at the last instruction of
the stretch. -/
theorem aligned_beside (stretch : Stretch left right first last pending)
    (nonempty : first < last) (inside : first < left.size)
    (stackOnly : context[first]? = some (some false)) (held : left.InContext context machine)
    (together : forall index, ¬ Within first last index -> window index index [] [])
    (admits : forall index, Within first last index ->
      window index index (pending index).1 (pending index).2)
    (targets : forall instruction label, left.code[machine.index]? = some instruction ->
      instruction.label? = some label -> right.target label = left.target label)
    (pair : beside first last pending machine.index index leftLiterals rightLiterals)
    (notLast : machine.index ≠ last) :
    Machine.Aligned left.linked right.linked window rank machine index leftLiterals
      rightLiterals := by
  have onStack : machine.index = first -> ∃ items, machine.space = .stack items := by
    intro entry
    refine held.exists_stack (by omega) ?_
    rw [entry]
    exact stackOnly
  rcases pair with ⟨rfl, ⟨outside, rfl, rfl⟩ | ⟨within, literals⟩⟩
  · by_cases entry : machine.index = first
    · have aligned : Machine.Aligned left.linked right.linked window rank machine machine.index
          (pending machine.index).1 (pending machine.index).2 :=
        stretch.aligned_works (by omega) (by omega) admits onStack
      have none_ : pending machine.index = ([], []) := by
        rw [entry]
        exact stretch.enters
      rwa [none_] at aligned
    · refine stretch.aligned_outside ?_ together targets
      unfold Within at outside
      omega
  · have aligned : Machine.Aligned left.linked right.linked window rank machine machine.index
        (pending machine.index).1 (pending machine.index).2 :=
      stretch.aligned_works (Nat.le_of_lt within.1) (Nat.lt_of_le_of_ne within.2 notLast) admits onStack
    rwa [← literals] at aligned

variable [Number N] [LiteralNumber N]

/-- A stretch at whose end both programs have the same literals keeps the behaviour. -/
theorem sameBehaviour_of_equal_end (stretch : Stretch left right first last pending)
    (nonempty : first < last) (closed : left.Contextual context)
    (stackOnly : context[first]? = some (some false))
    (targets : forall label, right.target label = left.target label)
    {leftInstruction rightInstruction : Instruction} {literals : List Int64}
    (leftFetched : left.code[last]? = some leftInstruction)
    (rightFetched : right.code[last]? = some rightInstruction)
    (leftWorks : leftInstruction.OnLiterals (pending last).1 literals)
    (rightWorks : rightInstruction.OnLiterals (pending last).2 literals) :
    SameBehaviour N left right := by
  have together : forall index, ¬ Within first last index ->
      beside first last pending index index [] [] := fun _ => beside_outside pending
  have atLast : Within first last last := ⟨nonempty, Nat.le_refl last⟩
  have inside : first < left.size :=
    Nat.lt_trans nonempty (Array.getElem?_eq_some_iff.mp leftFetched).1
  refine .of_window (left.InContext context) (beside first last pending) (fun _ _ => 0)
    closed.maintains ?_ closed.inContext_start (together 0 (by unfold Within; omega))
  intro machine index leftLiterals rightLiterals held pair
  by_cases ending : machine.index = last
  · rcases pair with ⟨rfl, ⟨outside, _, _⟩ | ⟨_, pendingHere⟩⟩
    · exact absurd (ending ▸ atLast) outside
    · rw [ending] at pendingHere
      have leftPending := congrArg Prod.fst pendingHere
      have rightPending := congrArg Prod.snd pendingHere
      dsimp only at leftPending rightPending
      subst leftPending rightPending
      refine .work leftInstruction rightInstruction literals literals
        (by rw [ending]; exact linked_of_onLiterals leftFetched leftWorks)
        (by rw [ending]; exact linked_of_onLiterals rightFetched rightWorks) leftWorks rightWorks
        (fun none_ => absurd none_ (stretch.occupied last atLast)) (Or.inl ⟨rfl, ?_⟩)
      refine together _ ?_
      unfold Within
      omega
  · exact stretch.aligned_beside nonempty inside stackOnly held together
      (fun _ => beside_within pending) (fun _ label _ _ => targets label) pair ending

/-- Machines side by side, or the left one at an operation that the right one has skipped. -/
def besideOrSkipped (first last : Nat) (pending : Pending) (target : Nat) : Machine.Window :=
  fun left right leftLiterals rightLiterals =>
    beside first last pending left right leftLiterals rightLiterals ∨
      (left = target ∧ right = target + 1 ∧ (leftLiterals, rightLiterals) = pending last)

/-- A stretch that ends with a jump to an operation on the pending literals keeps the
behaviour if the jump skips the operation and its result is pending instead. -/
theorem sameBehaviour_of_skipped_operation (stretch : Stretch left right first last pending)
    (nonempty : first < last) (closed : left.Contextual context)
    (stackOnly : context[first]? = some (some false)) {label : Nat} {operation : Instruction}
    (leftJump : left.code[last]? = some (.jmp label))
    (rightJump : right.code[last]? = some (.jmp label))
    (once : forall index instruction, left.code[index]? = some instruction ->
      instruction.label? = some label -> index = last)
    (advanced : right.target label = left.target label + 1)
    (targets : forall other, other ≠ label -> right.target other = left.target other)
    (notFirst : left.target label ≠ first)
    (fetched : left.code[left.target label]? = some operation)
    (works : operation.OnLiterals (pending last).1 (pending last).2) :
    SameBehaviour N left right := by
  have together : forall index, ¬ Within first last index ->
      besideOrSkipped first last pending (left.target label) index index [] [] :=
    fun _ outside => Or.inl (beside_outside pending outside)
  have atLast : Within first last last := ⟨nonempty, Nat.le_refl last⟩
  have inside : first < left.size :=
    Nat.lt_trans nonempty (Array.getElem?_eq_some_iff.mp leftJump).1
  refine .of_window (left.InContext context) (besideOrSkipped first last pending
    (left.target label)) (fun left right => if left = right then 0 else 1) closed.maintains ?_
    closed.inContext_start (together 0 (by unfold Within; omega))
  rintro machine index leftLiterals rightLiterals held (pair | ⟨atTarget, rfl, pendingHere⟩)
  · by_cases ending : machine.index = last
    · rcases pair with ⟨rfl, ⟨outside, _, _⟩ | ⟨_, pendingHere⟩⟩
      · exact absurd (ending ▸ atLast) outside
      · refine .jump (left.target label) (left.target label + 1) ?_ ?_
          (Or.inr ⟨rfl, rfl, ending ▸ pendingHere⟩)
        · rw [ending, getElem?_linked, leftJump]
          rfl
        · rw [ending, getElem?_linked, rightJump, ← advanced]
          rfl
    · refine stretch.aligned_beside nonempty inside stackOnly held together
        (fun _ within => Or.inl (beside_within pending within)) ?_ pair ending
      intro instruction other otherFetched labelled
      refine targets other ?_
      rintro rfl
      exact ending (once machine.index instruction otherFetched labelled)
  · have leftPending := congrArg Prod.fst pendingHere
    have rightPending := congrArg Prod.snd pendingHere
    dsimp only at leftPending rightPending
    subst leftPending rightPending
    have outside := stretch.untargeted label
    refine .catchUp operation (pending last).2
      (by rw [atTarget]; exact linked_of_onLiterals fetched works) works
      (fun none_ => absurd none_ (stretch.occupied last atLast)) (Or.inl ⟨rfl, ?_⟩) ?_
    · rw [atTarget]
      refine together _ ?_
      intro within
      by_cases before : first < left.target label
      · exact outside _ ⟨before, Nat.le_of_succ_le within.2⟩ rfl
      · exact notFirst (Nat.le_antisymm (Nat.le_of_not_lt before) (Nat.le_of_lt_succ within.1))
    · simp [atTarget]

end Stretch
end Program
end HangulPane
