import HangulPane.Program.Collapse
import HangulPane.Proofs.Machine.Reindex

namespace HangulPane
namespace Program

/-!
Collapsing jumps keeps the behaviour.

One label is moved at a time.  Where a program goes to the label's old target and
from there, by the jump that stands at it, to the new one, the collapsed program
goes to the new target at once.  The jump itself stays, so every other way to it is
as before.  Cycles of jumps need no special care: a label moves past a jump only if
that leads elsewhere, so the collapsed program keeps making steps as long as the
other one does.
-/

theorem code_collapseLabel (program : Program) (label : Nat) :
    (program.collapseLabel label).code = program.code := by
  unfold collapseLabel
  dsimp only
  repeat' split
  all_goals rfl

theorem size_collapseLabel (program : Program) (label : Nat) :
    (program.collapseLabel label).size = program.size :=
  congrArg Array.size (program.code_collapseLabel label)

theorem code_collapseJumps (program : Program) : program.collapseJumps.code = program.code := by
  unfold collapseJumps
  generalize program.labels.keys = labels
  induction labels generalizing program with
  | nil => rfl
  | cons label later inductionHypothesis =>
      rw [List.foldl_cons, inductionHypothesis, code_collapseLabel]

/-- What a collapsed label stands for: what it stood for, or what the jump there
leads to. -/
theorem target_collapseLabel (program : Program) (label other : Nat) :
    (program.collapseLabel label).target other = program.target other ∨
      ∃ next, other = label ∧ program.code[program.target label]? = some (.jmp next) ∧
        program.target next ≠ program.target label ∧
        (program.collapseLabel label).target other = program.target next := by
  unfold collapseLabel
  dsimp only
  split
  · rename_i next found
    split
    · exact Or.inl rfl
    · rename_i elsewhere
      by_cases same : other = label
      · refine Or.inr ⟨next, same, found, elsewhere, ?_⟩
        simp [target, Table.find?_insert, same]
      · left
        simp [target, Table.find?_insert, same, size]
  · exact Or.inl rfl

/-- The indices that belong together when a label is moved past a jump: equal ones,
and the jump together with what it leads to. -/
def Collapsed (program : Program) (index other : Nat) : Prop :=
  other = index ∨ ∃ next, program.code[index]? = some (.jmp next) ∧
    program.target next ≠ index ∧ other = program.target next

theorem collapsed_target (program : Program) (label other : Nat) :
    program.Collapsed (program.target other) ((program.collapseLabel label).target other) := by
  rcases program.target_collapseLabel label other with same | ⟨next, rfl, found, elsewhere, moved⟩
  · exact Or.inl same
  · exact Or.inr ⟨next, found, elsewhere, moved⟩

theorem sameBehaviour_collapseLabel {N : Type} [Number N] (program : Program) (label : Nat) :
    SameBehaviour N program (program.collapseLabel label) := by
  refine .of_reindexing (fun _ => True) program.Collapsed
    (fun left right => if left = right then 0 else 1) (fun _ _ _ _ _ _ _ => trivial) ?_
    trivial (Or.inl rfl)
  intro machine index _ pair
  rcases pair with rfl | ⟨next, found, elsewhere, rfl⟩
  · cases fetched : program.code[machine.index]? with
    | none =>
        refine .past ?_ ?_ <;> simp [getElem?_linked, code_collapseLabel, fetched]
    | some instruction =>
        refine .same instruction program.target (program.collapseLabel label).target
          ?_ ?_ ?_
        · simp [getElem?_linked, fetched]
        · simp [getElem?_linked, code_collapseLabel, fetched]
        · rintro leftNext rightNext (⟨_, rfl, rfl⟩ | ⟨other, _, rfl, rfl⟩)
          · exact Or.inl rfl
          · exact program.collapsed_target label other
  · refine .passed (program.target next) ?_ (Or.inl rfl) ?_
    · exact Machine.silently_jmp (by simp [getElem?_linked, found, Instruction.mapLabel])
    · simp [elsewhere.symm]

/-- Collapsing jumps keeps the behaviour. -/
theorem sameBehaviour_collapseJumps {N : Type} [Number N] (program : Program) :
    SameBehaviour N program program.collapseJumps := by
  unfold collapseJumps
  generalize program.labels.keys = labels
  induction labels generalizing program with
  | nil => exact .refl program
  | cons label later inductionHypothesis =>
      exact (program.sameBehaviour_collapseLabel label).trans
        (inductionHypothesis (program.collapseLabel label))

end Program
end HangulPane
