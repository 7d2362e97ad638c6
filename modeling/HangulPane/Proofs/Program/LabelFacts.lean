import HangulPane.Proofs.Program.Overrun

namespace HangulPane
namespace Program

/-!
The facts about labels that folding keeps.

Folding takes stock of the labels once and from then on only patches what it noted down.
Before and after each round the facts are those of the program as it is then.  A round moves a
label only past an operation, and what a round has folded starts with an instruction that is
none and never becomes one, so no label gets inside.
-/

namespace Folding

variable {context : Array (Option Bool)} {folding after : Folding} {first last : Nat}

/-- Whether no label stands for an index after `first` up to `last`, and none can get there
from `first`, because what is there is no operation. -/
structure Sealed (folding : Folding) (first last : Nat) : Prop where
  untargeted : forall label, ¬ Within first last (folding.program.target label)
  entry : forall operation, folding.at? first = some operation ->
    operation.opcode.isBinary = false

/-- What was sealed stays so, whatever is folded. -/
theorem Sealed.folds {otherFirst otherLast : Nat} (isSealed : folding.Sealed first last)
    (folds : folding.Folds context otherFirst otherLast after) : after.Sealed first last where
  untargeted := by
    intro label within
    by_cases stays : after.program.target label = folding.program.target label
    · rw [stays] at within
      exact isSealed.untargeted label within
    · obtain ⟨next, _, _, operation, fetched, binary⟩ := folds.moved stays
      rw [next] at within
      -- The label came from inside, or it came from the entry, past an operation.
      by_cases atEntry : folding.program.target label = first
      · rw [atEntry] at fetched
        rw [isSealed.entry operation fetched] at binary
        cases binary
      · refine isSealed.untargeted label ?_
        unfold Within at within ⊢
        omega
  entry := by
    intro operation fetched
    by_contra isBinary
    rw [Bool.not_eq_false] at isBinary
    have before : folding.at? first = some operation := by
      refine folds.at?_of_ne ?_ ?_ fetched
      · rintro literal rfl
        cases isBinary
      · rintro rfl
        cases isBinary
    rw [isSealed.entry operation before] at isBinary
    cases isBinary

/-- What is about to be folded is sealed. -/
theorem Folds.isSealed (folds : folding.Folds context first last after)
    (consistent : folding.Consistent context) : folding.Sealed first last := by
  have seals : forall {literal : Int64} {instruction : Instruction},
      folding.at? first = some (.push literal) -> folding.at? last = some instruction ->
      folding.hasTarget (first + 1) last = false -> folding.Sealed first last := by
    intro literal instruction push fetched untargeted
    have inside : last < folding.program.size := (Array.getElem?_eq_some_iff.mp fetched).1
    refine ⟨fun label within => ?_, fun operation found => ?_⟩
    · exact consistent.target_ne untargeted inside label _ within.1 within.2 rfl
    · rw [push] at found
      cases found
      rfl
  cases folds with
  | duplicate found push repeats stackOnly untargeted => exact seals push repeats untargeted
  | operation literals fetched => exact seals literals.push fetched literals.untargeted
  | jump literals jump => exact seals literals.push jump literals.untargeted

end Folding

section Rounds

variable {program : Program} {duplicates : Bool} {count : Nat} {folding : Folding}

end Rounds

end Program
end HangulPane
