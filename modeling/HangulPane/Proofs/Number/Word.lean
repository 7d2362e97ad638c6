import HangulPane.Number.Combine
import HangulPane.Number.Unbounded
import HangulPane.Number.Word

namespace HangulPane
namespace WordArithmetic

/-!
Arithmetic on words is exact arithmetic that stops at the range of a word.

Each operation on words is the operation on the integers they stand for, followed by
one check: a result that a word can hold is held, any other one is an overflow.  The
special cases of the quotient and the remainder make no difference to that.
-/

/-- An integer as a word, if a word can hold it. -/
def held (value : Int) : Except ArithmeticFault Int64 :=
  if Decimal.fitsWord value then .ok (Int64.ofInt value) else .error .overflow

theorem fitsWord_iff (value : Int) :
    Decimal.fitsWord value = true <->
      -0x8000000000000000 ≤ value ∧ value < 0x8000000000000000 := by
  unfold Decimal.fitsWord
  rw [decide_eq_true_iff, Int64.toInt_minValue, Int64.toInt_maxValue]
  omega

theorem fitsWord_toInt (word : Int64) : Decimal.fitsWord word.toInt = true :=
  (fitsWord_iff _).mpr ⟨word.le_toInt, word.toInt_lt⟩

theorem toInt_ofInt_of_fitsWord {value : Int} (fits : Decimal.fitsWord value = true) :
    (Int64.ofInt value).toInt = value :=
  Int64.toInt_ofInt_of_le ((fitsWord_iff value).mp fits).1 ((fitsWord_iff value).mp fits).2

theorem held_of_fitsWord {value : Int} (fits : Decimal.fitsWord value = true) :
    held value = .ok (Int64.ofInt value) :=
  if_pos fits

@[simp]
theorem held_toInt (word : Int64) : held word.toInt = .ok word := by
  rw [held_of_fitsWord (fitsWord_toInt word), Int64.ofInt_toInt]

/-- A word is held exactly if it stands for the integer. -/
theorem held_eq_ok_iff (value : Int) (word : Int64) :
    held value = .ok word <-> value = word.toInt := by
  constructor
  · intro holds
    unfold held at holds
    split at holds
    · rename_i fits
      cases holds
      exact (toInt_ofInt_of_fitsWord fits).symm
    · contradiction
  · rintro rfl
    exact held_toInt word

theorem held_eq_error_iff (value : Int) (fault : ArithmeticFault) :
    held value = .error fault <-> fault = .overflow ∧ Decimal.fitsWord value = false := by
  unfold held
  cases Decimal.fitsWord value with
  | true => simp
  | false => simp [eq_comm]

/-- A word operation that overflows exactly where its exact value does not fit, and
otherwise has that value, holds the exact value. -/
theorem checked_eq_held {value : Int} {word : Int64} {overflows : Bool}
    (overflow : overflows = true <->
      ¬ (-0x8000000000000000 ≤ value ∧ value < 0x8000000000000000))
    (exact_ : overflows = false -> word.toInt = value) :
    (if overflows then .error .overflow else .ok word : Except ArithmeticFault Int64) =
      held value := by
  cases overflows with
  | true =>
      have outside : Decimal.fitsWord value = false := by
        apply Bool.eq_false_iff.mpr
        exact fun fits => overflow.mp rfl ((fitsWord_iff value).mp fits)
      exact ((held_eq_error_iff value .overflow).mpr ⟨rfl, outside⟩).symm
  | false => exact ((held_eq_ok_iff value word).mpr (exact_ rfl).symm).symm

theorem add_eq_held (left right : Int64) : add left right = held (left.toInt + right.toInt) := by
  refine checked_eq_held ?_ ?_
  · simp only [BitVec.saddOverflow, Bool.or_eq_true, decide_eq_true_eq, Int64.toInt_toBitVec]
    omega
  · intro fits
    exact BitVec.toInt_add_of_not_saddOverflow (by simp [fits])

theorem sub_eq_held (left right : Int64) : sub left right = held (left.toInt - right.toInt) := by
  refine checked_eq_held ?_ ?_
  · simp only [BitVec.ssubOverflow, Bool.or_eq_true, decide_eq_true_eq, Int64.toInt_toBitVec]
    omega
  · intro fits
    exact BitVec.toInt_sub_of_not_ssubOverflow (by simp [fits])

theorem mul_eq_held (left right : Int64) : mul left right = held (left.toInt * right.toInt) := by
  refine checked_eq_held ?_ ?_
  · simp only [BitVec.smulOverflow, Bool.or_eq_true, decide_eq_true_eq, Int64.toInt_toBitVec]
    omega
  · intro fits
    exact BitVec.toInt_mul_of_not_smulOverflow (by simp [fits])

theorem negate_eq_held (value : Int64) : negate value = held (-value.toInt) := by
  unfold negate
  by_cases least : value = Int64.minValue
  · rw [if_pos least, least]
    rfl
  · rw [if_neg least]
    refine ((held_eq_ok_iff _ _).mpr ?_).symm
    exact (BitVec.toInt_neg_of_ne_intMin fun same => least (Int64.toBitVec_inj.mp same)).symm

/-- A remainder lies between zero and its divisor. -/
theorem fmod_bounds (left right : Int) (nonzero : right ≠ 0) :
    (0 < right ∧ 0 ≤ left.fmod right ∧ left.fmod right < right) ∨
      (right < 0 ∧ right < left.fmod right ∧ left.fmod right ≤ 0) := by
  by_cases positive : 0 < right
  · exact Or.inl ⟨positive, Int.fmod_nonneg_of_pos left positive, Int.fmod_lt_of_pos left positive⟩
  · have lower := Int.emod_nonneg left nonzero
    have negative : right < 0 := by omega
    have upper := Int.emod_lt_of_neg left negative
    refine Or.inr ⟨negative, ?_⟩
    rw [Int.fmod_eq_emod]
    split
    · rename_i divides
      have exactly : left % right = 0 := Int.emod_eq_zero_of_dvd (by omega)
      omega
    · rename_i indivisible
      have inexact : left % right ≠ 0 := fun zero =>
        indivisible (Or.inr (Int.dvd_of_emod_eq_zero zero))
      omega

/-- A quotient of words fits a word unless the divisor is minus one. -/
theorem fitsWord_fdiv (left right : Int64) (nonzero : right.toInt ≠ 0)
    (notMinusOne : right.toInt ≠ -1) :
    Decimal.fitsWord (left.toInt.fdiv right.toInt) = true := by
  have law := Int.fmod_add_mul_fdiv left.toInt right.toInt
  have leftLower := left.le_toInt
  have leftUpper := left.toInt_lt
  have rightLower := right.le_toInt
  have remainder := fmod_bounds left.toInt right.toInt nonzero
  generalize left.toInt.fdiv right.toInt = quotient at law ⊢
  generalize left.toInt.fmod right.toInt = rest at law remainder
  rw [fitsWord_iff]
  refine Decidable.byContradiction fun outside => ?_
  rcases remainder with ⟨positive, nonneg, less⟩ | ⟨negative, greater, nonpos⟩
  · by_cases large : 0 ≤ quotient
    · have product := Int.mul_le_mul_of_nonneg_right (show 1 ≤ right.toInt by omega) large
      omega
    · have product := Int.mul_le_mul_of_nonpos_right (show 1 ≤ right.toInt by omega)
        (show quotient + 1 ≤ 0 by omega)
      rw [Int.mul_add] at product
      omega
  · by_cases large : 0 ≤ quotient
    · have product := Int.mul_le_mul_of_nonneg_right (show right.toInt ≤ -2 by omega) large
      omega
    · have product := Int.mul_le_mul_of_nonpos_right (show right.toInt ≤ -2 by omega)
        (show quotient ≤ 0 by omega)
      omega

theorem fitsWord_fmod (left right : Int64) (nonzero : right.toInt ≠ 0) :
    Decimal.fitsWord (left.toInt.fmod right.toInt) = true := by
  have lower := right.le_toInt
  have upper := right.toInt_lt
  have remainder := fmod_bounds left.toInt right.toInt nonzero
  rw [fitsWord_iff]
  omega

theorem div_eq_held (left right : Int64) (nonzero : right ≠ 0) :
    div left right = held (left.toInt.fdiv right.toInt) := by
  unfold div
  rw [if_neg nonzero]
  split
  · rename_i minusOne
    rw [minusOne, negate_eq_held]
    change held (-left.toInt) = held (left.toInt.fdiv (-1))
    rw [Int.fdiv_neg (by decide), if_pos (Int.one_dvd _), Int.fdiv_one]
  · rename_i notMinusOne
    refine (held_of_fitsWord (fitsWord_fdiv left right ?_ ?_)).symm
    · exact fun zero => nonzero (Int64.toInt_inj.mp zero)
    · exact fun minusOne => notMinusOne (Int64.toInt_inj.mp minusOne)

theorem rem_eq_held (left right : Int64) (nonzero : right ≠ 0) :
    rem left right = held (left.toInt.fmod right.toInt) := by
  unfold rem
  rw [if_neg nonzero]
  split
  · rename_i minusOne
    rw [minusOne]
    change _ = held (left.toInt.fmod (-1))
    have bounds := fmod_bounds left.toInt (-1) (by decide)
    have zero : left.toInt.fmod (-1) = 0 := by omega
    rw [zero]
    rfl
  · exact (held_of_fitsWord (fitsWord_fmod left right
      fun zero => nonzero (Int64.toInt_inj.mp zero))).symm

end WordArithmetic

/-! Words are compared and shown like the integers they stand for. -/

theorem Number.atLeast_toInt (left right : Int64) :
    atLeast left.toInt right.toInt = atLeast left right :=
  (atLeast_eq left right).symm

theorem Number.isZero_toInt (value : Int64) : isZero value.toInt = isZero value :=
  (isZero_eq value).symm

theorem Number.toChar?_toInt (value : Int64) : toChar? value.toInt = toChar? value :=
  (toChar?_eq value.toInt).trans (toChar?_eq value).symm

theorem Number.toDecimal_toInt (value : Int64) : toDecimal value.toInt = toDecimal value :=
  (toDecimal_eq value).symm

theorem Number.toHex_toInt (value : Int64) : toHex value.toInt = toHex value :=
  (toHex_eq value).symm

/-- Combining words is combining the integers they stand for, with the result held in a
word if it fits. -/
theorem Number.combine_words (operation : Opcode) (left right : Int64) :
    combine operation left right =
      (combine operation left.toInt right.toInt).bind WordArithmetic.held := by
  have zero_iff : right.toInt = 0 <-> right = 0 := Int64.toInt_inj (y := 0)
  cases operation with
  | add => exact WordArithmetic.add_eq_held left right
  | sub => exact WordArithmetic.sub_eq_held left right
  | mul => exact WordArithmetic.mul_eq_held left right
  | div =>
      by_cases zero : right = 0
      · simp [combine, div, WordArithmetic.div, zero, Except.bind]
      · refine (WordArithmetic.div_eq_held left right zero).trans ?_
        simp [combine, div, zero_iff, zero, Except.bind]
  | mod =>
      by_cases zero : right = 0
      · simp [combine, rem, WordArithmetic.rem, zero, Except.bind]
      · refine (WordArithmetic.rem_eq_held left right zero).trans ?_
        simp [combine, rem, zero_iff, zero, Except.bind]
  | cmp =>
      unfold combine
      rw [atLeast_toInt]
      exact (WordArithmetic.held_toInt _).symm
  | _ => exact (WordArithmetic.held_toInt right).symm

/-- Representations on which an operation on literals has the value that it has on
words. -/
class LiteralNumber (N : Type) [Number N] : Prop where
  combine_ofLiteral : forall operation (left right value : Int64),
    Number.combine operation left right = .ok value ->
    Number.combine operation (Number.ofLiteral left : N) (Number.ofLiteral right) =
      .ok (Number.ofLiteral value)

instance : LiteralNumber Int64 where
  combine_ofLiteral := fun _ _ _ _ combined => combined

instance : LiteralNumber Int where
  combine_ofLiteral := by
    intro operation left right value combined
    rw [Number.combine_words] at combined
    change Number.combine operation left.toInt right.toInt = .ok value.toInt
    cases exactly : Number.combine operation left.toInt right.toInt with
    | error fault => simp [exactly, Except.bind] at combined
    | ok result =>
        rw [exactly] at combined
        rw [(WordArithmetic.held_eq_ok_iff result value).mp combined]

end HangulPane
