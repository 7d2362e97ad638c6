import HangulPane.Number.Basic

namespace HangulPane

/-!
Signed words of sixty-four bits as numbers of a program.

Sums, differences and products are those of the word unless they overflow.  The
quotient by minus one is a negation, the only quotient that can leave the range
of a word; every other quotient and every remainder stays inside it.  A negative
word is shown as a minus sign and its magnitude, which needs all sixty-four bits
for the least word.
-/

namespace WordArithmetic

/-- The negation of a word, unless it is the least one. -/
def negate (value : Int64) : Except ArithmeticFault Int64 :=
  if value = Int64.minValue then .error .overflow else .ok (-value)

/-- The sum of two words, unless it overflows. -/
def add (left right : Int64) : Except ArithmeticFault Int64 :=
  if BitVec.saddOverflow left.toBitVec right.toBitVec then .error .overflow
  else .ok (left + right)

/-- The difference of two words, unless it overflows. -/
def sub (left right : Int64) : Except ArithmeticFault Int64 :=
  if BitVec.ssubOverflow left.toBitVec right.toBitVec then .error .overflow
  else .ok (left - right)

/-- The product of two words, unless it overflows. -/
def mul (left right : Int64) : Except ArithmeticFault Int64 :=
  if BitVec.smulOverflow left.toBitVec right.toBitVec then .error .overflow
  else .ok (left * right)

/-- The quotient of two words, rounded toward negative infinity. -/
def div (left right : Int64) : Except ArithmeticFault Int64 :=
  if right = 0 then .error .divisionByZero
  else if right = -1 then negate left
  else .ok (Int64.ofInt (Int.fdiv left.toInt right.toInt))

/-- The remainder of two words, with the sign of the divisor. -/
def rem (left right : Int64) : Except ArithmeticFault Int64 :=
  if right = 0 then .error .moduloByZero
  else if right = -1 then .ok 0
  else .ok (Int64.ofInt (Int.fmod left.toInt right.toInt))

/-- The character whose code point a word is, if there is one.  A code point has to
be an unsigned word of thirty-two bits. -/
def toChar? (value : Int64) : Option Char :=
  if 0 ≤ value ∧ value ≤ 0xFFFFFFFF then Number.scalar? value.toUInt64.toNat else none

def toDecimal (value : Int64) : String :=
  if value < 0 then "-" ++ Decimal.ofNat value.abs.toUInt64.toNat
  else Decimal.ofNat value.toUInt64.toNat

def toHex (value : Int64) : String :=
  if value < 0 then "-" ++ Decimal.hexOfNat value.abs.toUInt64.toNat
  else Decimal.hexOfNat value.toUInt64.toNat

theorem toNat_abs (value : Int64) : value.abs.toUInt64.toNat = value.toInt.natAbs := by
  have integer : value.toInt =
      if value.toBitVec.msb then (value.toBitVec.toNat : Int) - (2 ^ 64 : Nat)
      else (value.toBitVec.toNat : Int) := BitVec.toInt_eq_msb_cond _
  have magnitude : value.abs.toUInt64.toNat =
      if value.toBitVec.msb then 2 ^ 64 - value.toBitVec.toNat else value.toBitVec.toNat :=
    BitVec.toNat_abs
  have bound := value.toBitVec.isLt
  rw [magnitude, integer]
  split <;> omega

theorem toNat_of_nonneg {value : Int64} (nonneg : 0 ≤ value) :
    value.toUInt64.toNat = value.toInt.toNat :=
  Int64.toNat_toUInt64_of_le nonneg

/-- A word is shown like its integer if magnitudes are. -/
theorem signed_eq (digits : Nat -> String) (value : Int64) :
    (if value < 0 then "-" ++ digits value.abs.toUInt64.toNat else digits value.toUInt64.toNat) =
      match value.toInt with
      | .ofNat magnitude => digits magnitude
      | .negSucc less => "-" ++ digits (less + 1) := by
  have negative : value < 0 <-> value.toInt < 0 := Int64.lt_iff_toInt_lt
  split
  next below =>
    rw [toNat_abs]
    have sign := negative.mp below
    generalize value.toInt = integer at sign
    cases integer with
    | ofNat magnitude => exact absurd sign (Int.not_lt.mpr (Int.natCast_nonneg magnitude))
    | negSucc less => rfl
  next above =>
    rw [toNat_of_nonneg (Int64.not_lt.mp above)]
    have sign := mt negative.mpr above
    generalize value.toInt = integer at sign
    cases integer with
    | ofNat magnitude => rfl
    | negSucc less => exact absurd (Int.negSucc_lt_zero less) sign

theorem toDecimal_eq_ofInt (value : Int64) : toDecimal value = Decimal.ofInt value.toInt :=
  (signed_eq Decimal.ofNat value).trans (by cases value.toInt <;> rfl)

theorem toHex_eq_hexOfInt (value : Int64) : toHex value = Decimal.hexOfInt value.toInt :=
  (signed_eq Decimal.hexOfNat value).trans (by cases value.toInt <;> rfl)

theorem toChar?_eq_charOfInt? (value : Int64) :
    toChar? value = Number.charOfInt? value.toInt := by
  have range : (0 ≤ value ∧ value ≤ 0xFFFFFFFF) <->
      0 ≤ value.toInt ∧ value.toInt ≤ 0xFFFFFFFF :=
    and_congr Int64.le_iff_toInt_le Int64.le_iff_toInt_le
  rw [Number.charOfInt?_eq_ite, toChar?]
  split
  next inside => rw [if_pos (range.mp inside), toNat_of_nonneg inside.1]
  next outside => rw [if_neg (mt range.mpr outside)]

end WordArithmetic

instance : Number Int64 where
  toInt := Int64.toInt
  ofLiteral value := value
  ofNumeral? := Decimal.word?
  add := WordArithmetic.add
  sub := WordArithmetic.sub
  mul := WordArithmetic.mul
  div := WordArithmetic.div
  rem := WordArithmetic.rem
  atLeast left right := decide (right ≤ left)
  isZero value := value == 0
  toChar? := WordArithmetic.toChar?
  toDecimal := WordArithmetic.toDecimal
  toHex := WordArithmetic.toHex
  exitStatus value :=
    let code := value.toInt32
    { code := code, reduced := code.toInt64 != value }
  atLeast_eq _ _ := decide_eq_decide.mpr Int64.le_iff_toInt_le
  isZero_eq value := by
    rw [Bool.eq_iff_iff, beq_iff_eq, beq_iff_eq]
    exact (Int64.toInt_inj (y := 0)).symm
  toChar?_eq := WordArithmetic.toChar?_eq_charOfInt?
  toDecimal_eq := WordArithmetic.toDecimal_eq_ofInt
  toHex_eq := WordArithmetic.toHex_eq_hexOfInt

end HangulPane
