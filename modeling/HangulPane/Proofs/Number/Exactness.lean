import HangulPane.Proofs.Number.ExitStatus
import HangulPane.Proofs.Number.Word
import Mathlib.Data.Rat.Floor

namespace HangulPane

/-!
Both representations of numbers compute exactly.

What an operation should give is said about the integers for which its operands stand: sums,
differences and products, the rational quotient rounded down, and what that quotient leaves.
A representation combines its values exactly if it gives that integer whenever it can hold it,
and otherwise fails for the reason that there is.  Integers of any size hold every result,
and words hold the results in their range.
-/

/-- Whether an exit status is the reduction of a value modulo `2 ^ 32`, and says if that is
another number. -/
structure ExitStatus.Reduces (status : ExitStatus) (value : Int) : Prop where
  lower : -2 ^ 31 ≤ status.code.toInt
  upper : status.code.toInt < 2 ^ 31
  congruent : status.code.toInt ≡ value [ZMOD 2 ^ 32]
  flagged : status.reduced = true <-> status.code.toInt ≠ value

namespace Number

/-- The value of an operation on integers, if there is one.  What combines nothing yields the
right operand. -/
def exactValue? (operation : Opcode) (left right : Int) : Option Int :=
  match operation with
  | .add => some (left + right)
  | .sub => some (left - right)
  | .mul => some (left * right)
  | .div => if right = 0 then none else some ⌊(left : ℚ) / right⌋
  | .mod => if right = 0 then none else some (left - right * ⌊(left : ℚ) / right⌋)
  | .cmp => some (if right ≤ left then 1 else 0)
  | _ => some right

/-- Whether a quotient and a remainder are those of a division that rounds down. -/
structure FloorDivision (left right quotient remainder : Int) : Prop where
  sum : left = quotient * right + remainder
  sign : remainder = 0 ∨ remainder.sign = right.sign
  smaller : |remainder| < |right|

/-- Whether a representation computes exactly with the integers of a range. -/
structure ComputesExactly (N : Type) [Number N] (range : Int -> Prop) : Prop where
  value : forall operation (left right result : N),
    combine operation left right = .ok result <->
      exactValue? operation (toInt left) (toInt right) = some (toInt result)
  succeeds : forall operation (left right : N),
    (∃ result, combine operation left right = .ok result) <->
      ∃ value, exactValue? operation (toInt left) (toInt right) = some value ∧ range value
  overflow : forall operation (left right : N),
    combine operation left right = .error .overflow <->
      ∃ value, exactValue? operation (toInt left) (toInt right) = some value ∧ ¬ range value
  divisionByZero : forall operation (left right : N),
    combine operation left right = .error .divisionByZero <->
      operation = .div ∧ toInt right = 0
  moduloByZero : forall operation (left right : N),
    combine operation left right = .error .moduloByZero <->
      operation = .mod ∧ toInt right = 0
  /-- There always is a remainder, and the quotient that it belongs to is what a division gives
  if it gives anything. -/
  division : forall left right : N, toInt right ≠ 0 -> ∃ (quotient : Int) (remainder : N),
    FloorDivision (toInt left) (toInt right) quotient (toInt remainder) ∧
      combine .mod left right = .ok remainder ∧
      forall result, combine .div left right = .ok result <-> toInt result = quotient
  exitStatus : forall value : N, (exitStatus value).Reduces (toInt value)

/-! Integers of any size. -/

theorem floor_div_of_nonneg (left : Int) {right : Int} (nonneg : 0 ≤ right) :
    ⌊(left : ℚ) / right⌋ = left.fdiv right := by
  obtain ⟨divisor, rfl⟩ := Int.eq_ofNat_of_zero_le nonneg
  rw [Int.fdiv_eq_ediv_of_nonneg left nonneg]
  exact Rat.floor_intCast_div_natCast left divisor

/-- The floored quotient of integers is the rational quotient rounded down. -/
theorem floor_div (left right : Int) : ⌊(left : ℚ) / right⌋ = left.fdiv right := by
  by_cases nonneg : 0 ≤ right
  · exact floor_div_of_nonneg left nonneg
  · have opposite := floor_div_of_nonneg (-left) (show 0 ≤ -right by omega)
    rwa [Int.neg_fdiv_neg, Int.cast_neg, Int.cast_neg, neg_div_neg_eq] at opposite

/-- Integers of any size combine to the exact value. -/
theorem toOption_combine (operation : Opcode) (left right : Int) :
    (combine operation left right).toOption = exactValue? operation left right := by
  cases operation with
  | div =>
      simp only [combine, Number.div, exactValue?, floor_div]
      split <;> rfl
  | mod =>
      simp only [combine, Number.rem, exactValue?, floor_div, ← Int.fmod_def]
      split <;> rfl
  | cmp =>
      simp only [combine, exactValue?, atLeast, decide_eq_true_eq, Except.toOption]
      by_cases least : right ≤ left
      · rw [if_pos least]
        simp only [if_pos least]
        rfl
      · rw [if_neg least]
        simp only [if_neg least]
        rfl
  | _ => rfl

theorem combine_eq_ok_iff (operation : Opcode) (left right value : Int) :
    combine operation left right = .ok value <-> exactValue? operation left right = some value := by
  rw [← toOption_combine]
  cases combine operation left right with
  | error fault => simp [Except.toOption]
  | ok result => simp [Except.toOption]

/-- Integers of any size fail to combine only when they are divided by zero. -/
theorem combine_eq_error_iff (operation : Opcode) (left right : Int) (fault : ArithmeticFault) :
    combine operation left right = .error fault <->
      right = 0 ∧ (operation = .div ∧ fault = .divisionByZero ∨
        operation = .mod ∧ fault = .moduloByZero) := by
  cases operation with
  | div =>
      simp only [combine, Number.div]
      by_cases zero : right = 0
      · simp [zero, eq_comm]
      · simp [zero]
  | mod =>
      simp only [combine, Number.rem]
      by_cases zero : right = 0
      · simp [zero, eq_comm]
      · simp [zero]
  | _ => simp [combine, Number.add, Number.sub, Number.mul]

theorem floorDivision_fdiv (left : Int) {right : Int} (nonzero : right ≠ 0) :
    FloorDivision left right (left.fdiv right) (left.fmod right) := by
  have law := Int.fmod_add_mul_fdiv left right
  have sum : left = left.fdiv right * right + left.fmod right := by
    rw [Int.mul_comm]
    omega
  rcases WordArithmetic.fmod_bounds left right nonzero with
    ⟨positive, nonneg, less⟩ | ⟨negative, greater, nonpos⟩
  · refine ⟨sum, ?_, ?_⟩
    · rcases Int.lt_or_eq_of_le nonneg with above | zero
      · exact Or.inr (by rw [Int.sign_eq_one_of_pos above, Int.sign_eq_one_of_pos positive])
      · exact Or.inl zero.symm
    · rwa [abs_of_nonneg nonneg, abs_of_pos positive]
  · refine ⟨sum, ?_, ?_⟩
    · rcases Int.lt_or_eq_of_le nonpos with below | zero
      · exact Or.inr (by
          rw [Int.sign_eq_neg_one_of_neg below, Int.sign_eq_neg_one_of_neg negative])
      · exact Or.inl zero
    · rw [abs_of_nonpos nonpos, abs_of_neg negative]
      omega

theorem reduces_exitStatus (value : Int) : (exitStatus value).Reduces value := by
  rw [exitStatus_eq]
  exact ⟨Int32.le_toInt _, Int32.toInt_lt _, modEq_toInt_ofInt value, bne_iff_ne⟩

/-! Representations that hold what is in their range. -/

/-- Whether a representation combines values by combining the integers for which they stand,
and then holds the result if it is in a range, as every remainder is. -/
structure Holds (N : Type) [Number N] (range : Int -> Prop)
    (hold : Int -> Except ArithmeticFault N) : Prop where
  combine_eq : forall operation (left right : N), combine operation left right =
    (combine operation (toInt left) (toInt right)).bind hold
  eq_ok_iff : forall value (result : N), hold value = .ok result <-> value = toInt result
  eq_error_iff : forall value fault,
    hold value = .error fault <-> fault = .overflow ∧ ¬ range value
  remainder : forall left right : N, toInt right ≠ 0 -> range ((toInt left).fmod (toInt right))
  exitStatus_eq : forall value : N, exitStatus (toInt value) = exitStatus value

namespace Holds

variable {N : Type} [Number N] {range : Int -> Prop} {hold : Int -> Except ArithmeticFault N}
  (held : Holds N range hold) (operation : Opcode) (left right : N)
include held

theorem combine_eq_ok_iff (result : N) :
    combine operation left right = .ok result <->
      exactValue? operation (toInt left) (toInt right) = some (toInt result) := by
  rw [held.combine_eq, ← Number.combine_eq_ok_iff]
  cases combine operation (toInt left) (toInt right) with
  | error fault => simp [Except.bind]
  | ok value => simp [Except.bind, held.eq_ok_iff]

/-- An operation fails because it has no result, or because it has one out of the range. -/
theorem combine_eq_error_iff (fault : ArithmeticFault) :
    combine operation left right = .error fault <->
      combine operation (toInt left) (toInt right) = .error fault ∨
        fault = .overflow ∧
          ∃ value, exactValue? operation (toInt left) (toInt right) = some value ∧
            ¬ range value := by
  simp only [held.combine_eq, ← Number.combine_eq_ok_iff]
  cases combine operation (toInt left) (toInt right) with
  | error other => simp [Except.bind]
  | ok value => simp [Except.bind, held.eq_error_iff]

theorem exists_combine_eq_ok_iff :
    (∃ result, combine operation left right = .ok result) <->
      ∃ value, exactValue? operation (toInt left) (toInt right) = some value ∧ range value := by
  constructor
  · rintro ⟨result, succeeded⟩
    refine ⟨toInt result, (held.combine_eq_ok_iff ..).mp succeeded, ?_⟩
    by_contra outside
    have failed := (held.eq_error_iff (toInt result) .overflow).mpr ⟨rfl, outside⟩
    rw [(held.eq_ok_iff (toInt result) result).mpr rfl] at failed
    cases failed
  · rintro ⟨value, exactly, inside⟩
    rw [held.combine_eq, (Number.combine_eq_ok_iff ..).mpr exactly]
    change ∃ result, hold value = .ok result
    cases outcome : hold value with
    | error fault => exact absurd inside ((held.eq_error_iff value fault).mp outcome).2
    | ok result => exact ⟨result, rfl⟩

theorem exists_floorDivision (nonzero : toInt right ≠ 0) :
    ∃ (quotient : Int) (remainder : N),
      FloorDivision (toInt left) (toInt right) quotient (toInt remainder) ∧
        combine .mod left right = .ok remainder ∧
        forall result, combine .div left right = .ok result <-> toInt result = quotient := by
  have quotientExact : exactValue? .div (toInt left) (toInt right) =
      some ((toInt left).fdiv (toInt right)) :=
    (Number.combine_eq_ok_iff ..).mp (if_neg nonzero)
  have remainderExact : exactValue? .mod (toInt left) (toInt right) =
      some ((toInt left).fmod (toInt right)) :=
    (Number.combine_eq_ok_iff ..).mp (if_neg nonzero)
  obtain ⟨remainder, found⟩ := (held.exists_combine_eq_ok_iff .mod left right).mpr
    ⟨_, remainderExact, held.remainder left right nonzero⟩
  have same : toInt remainder = (toInt left).fmod (toInt right) := by
    rw [held.combine_eq_ok_iff, remainderExact] at found
    exact (Option.some.inj found).symm
  refine ⟨(toInt left).fdiv (toInt right), remainder, ?_, found, ?_⟩
  · rw [same]
    exact floorDivision_fdiv (toInt left) nonzero
  · intro result
    rw [held.combine_eq_ok_iff, quotientExact, Option.some.injEq, eq_comm]

theorem computesExactly : ComputesExactly N range where
  value := held.combine_eq_ok_iff
  succeeds := held.exists_combine_eq_ok_iff
  overflow := by
    intro operation left right
    rw [held.combine_eq_error_iff, Number.combine_eq_error_iff]
    simp
  divisionByZero := by
    intro operation left right
    rw [held.combine_eq_error_iff, Number.combine_eq_error_iff]
    simp [and_comm]
  moduloByZero := by
    intro operation left right
    rw [held.combine_eq_error_iff, Number.combine_eq_error_iff]
    simp [and_comm]
  division := held.exists_floorDivision
  exitStatus := by
    intro value
    rw [← held.exitStatus_eq]
    exact reduces_exitStatus (toInt value)

end Holds

/-- Whether a word of sixty-four bits can stand for an integer. -/
def InWordRange (value : Int) : Prop :=
  -2 ^ 63 ≤ value ∧ value < 2 ^ 63

theorem holds_integers : Holds Int (fun _ => True) .ok where
  combine_eq := fun operation left right => (bind_pure (combine operation left right)).symm
  eq_ok_iff := fun _ _ => ⟨Except.ok.inj, congrArg Except.ok⟩
  eq_error_iff := by simp
  remainder := fun _ _ _ => trivial
  exitStatus_eq := fun _ => rfl

theorem holds_words : Holds Int64 InWordRange WordArithmetic.held where
  combine_eq := combine_words
  eq_ok_iff := WordArithmetic.held_eq_ok_iff
  eq_error_iff := by
    intro value fault
    rw [WordArithmetic.held_eq_error_iff, Bool.eq_false_iff, ne_eq, WordArithmetic.fitsWord_iff]
    rfl
  remainder := by
    intro left right nonzero
    exact (WordArithmetic.fitsWord_iff _).mp (WordArithmetic.fitsWord_fmod left right nonzero)
  exitStatus_eq := exitStatus_toInt

/-- Integers of any size compute exactly, and so do words as far as they go: a result that a
word can hold is what the integers give, and a word has the exit status of its integer. -/
theorem integers_and_words_exact :
    ComputesExactly Int (fun _ => True) ∧ ComputesExactly Int64 InWordRange ∧
      (forall operation (left right result : Int64),
        combine operation left right = .ok result <->
          combine operation left.toInt right.toInt = .ok result.toInt) ∧
      forall value : Int64, exitStatus value = exitStatus value.toInt := by
  refine ⟨holds_integers.computesExactly, holds_words.computesExactly, ?_,
    fun value => (exitStatus_toInt value).symm⟩
  intro operation left right result
  rw [combine_eq_ok_iff]
  exact holds_words.combine_eq_ok_iff operation left right result

/-- The least word has no quotient by minus one, but it has a remainder. -/
example : combine .div Int64.minValue (-1) = .error .overflow ∧
    combine .mod Int64.minValue (-1) = .ok 0 ∧ combine .div (-7 : Int64) 2 = .ok (-4) := by
  decide

end Number
end HangulPane
