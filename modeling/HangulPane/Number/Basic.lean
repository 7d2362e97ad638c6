import HangulPane.Text.Decimal

namespace HangulPane

/-!
Numbers that a program computes with.

The machine is written once for every representation of its numbers.  A
representation says which integer each of its values stands for, how literals
and numerals enter it, and how the five arithmetic operations act on it.  It also
compares and shows its values in its own way, but always like the integers for
which they stand.  An operation can fail: division and remainder by zero always
do, and a representation that cannot hold a result reports overflow.
-/

/-- Why an arithmetic operation has no result. -/
inductive ArithmeticFault where
  | divisionByZero
  | moduloByZero
  | overflow
  deriving DecidableEq, Repr

namespace ArithmeticFault

def message : ArithmeticFault -> String
  | .divisionByZero => "division by zero"
  | .moduloByZero => "modulo by zero"
  | .overflow => "integer overflow"

end ArithmeticFault

/-- A process exit status, and whether the value had to be reduced to get it. -/
structure ExitStatus where
  code : Int32
  reduced : Bool
  deriving DecidableEq, Repr

namespace Number

/-- The character with the given code point, if there is one. -/
def scalar? (code : Nat) : Option Char :=
  if valid : code.isValidChar then some (Char.ofNatAux code valid) else none

/-- The character whose code point an integer is, if there is one. -/
def charOfInt? : Int -> Option Char
  | .ofNat code => scalar? code
  | .negSucc _ => none

theorem scalar?_of_large {code : Nat} (large : 0xFFFFFFFF < code) : scalar? code = none := by
  refine dif_neg fun valid => ?_
  rcases valid with low | ⟨_, high⟩ <;> omega

/-- Only unsigned words of thirty-two bits can be code points. -/
theorem charOfInt?_eq_ite (value : Int) :
    charOfInt? value =
      if 0 ≤ value ∧ value ≤ 0xFFFFFFFF then scalar? value.toNat else none := by
  cases value with
  | ofNat code =>
      by_cases small : code ≤ 0xFFFFFFFF
      · rw [if_pos ⟨Int.natCast_nonneg code, Int.ofNat_le.mpr small⟩]
        rfl
      · rw [if_neg fun inside => small (Int.ofNat_le.mp inside.2)]
        exact scalar?_of_large (Nat.lt_of_not_le small)
  | negSucc less => exact (if_neg fun inside => absurd inside.1 (by omega)).symm

end Number

/-- A representation of the integers that a program computes with. -/
class Number (N : Type) where
  /-- The integer that a value stands for. -/
  toInt : N -> Int
  /-- Every literal of a program is held exactly. -/
  ofLiteral : Int64 -> N
  /-- The value of a numeral, if it is one and can be held. -/
  ofNumeral? : List Char -> Option N
  add : N -> N -> Except ArithmeticFault N
  sub : N -> N -> Except ArithmeticFault N
  mul : N -> N -> Except ArithmeticFault N
  /-- Quotient rounded toward negative infinity. -/
  div : N -> N -> Except ArithmeticFault N
  /-- Remainder with the sign of the divisor. -/
  rem : N -> N -> Except ArithmeticFault N
  /-- Whether the left value is at least the right one. -/
  atLeast : N -> N -> Bool
  isZero : N -> Bool
  /-- The character whose code point a value is, if there is one. -/
  toChar? : N -> Option Char
  toDecimal : N -> String
  /-- Lower-case hexadecimal text. -/
  toHex : N -> String
  /-- The value reduced modulo `2 ^ 32` into a signed word of thirty-two bits. -/
  exitStatus : N -> ExitStatus
  atLeast_eq (left right : N) : atLeast left right = decide (toInt right ≤ toInt left)
  isZero_eq (value : N) : isZero value = (toInt value == 0)
  toChar?_eq (value : N) : toChar? value = Number.charOfInt? (toInt value)
  toDecimal_eq (value : N) : toDecimal value = Decimal.ofInt (toInt value)
  toHex_eq (value : N) : toHex value = Decimal.hexOfInt (toInt value)

namespace Number

variable {N : Type} [Number N]

def zero : N :=
  ofLiteral 0

/-- The line logged when a final value had to be reduced to an exit status. -/
def reductionNotice (value : N) : Option String :=
  let status := exitStatus value
  if status.reduced then
    some ("exit value " ++ toDecimal value ++ " reduced modulo 2^32 to " ++
      Decimal.ofInt status.code.toInt)
  else
    none

end Number
end HangulPane
