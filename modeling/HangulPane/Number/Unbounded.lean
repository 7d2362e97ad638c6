import HangulPane.Number.Basic

namespace HangulPane

/-!
Integers of any size as numbers of a program.  Every operation except a
division by zero succeeds.  A value that a word of thirty-two bits can hold is its
own exit status; of any other value only the remainder modulo `2 ^ 32` is left,
read as a signed word.
-/

instance : Number Int where
  toInt value := value
  ofLiteral value := value.toInt
  ofNumeral? := Decimal.groupedInt?
  add left right := .ok (left + right)
  sub left right := .ok (left - right)
  mul left right := .ok (left * right)
  div left right :=
    if right = 0 then .error .divisionByZero else .ok (Int.fdiv left right)
  rem left right :=
    if right = 0 then .error .moduloByZero else .ok (Int.fmod left right)
  atLeast left right := decide (right ≤ left)
  isZero value := value == 0
  toChar? value :=
    if 0 ≤ value ∧ value ≤ 0xFFFFFFFF then Number.scalar? value.toNat else none
  toDecimal := Decimal.ofInt
  toHex := Decimal.hexOfInt
  exitStatus value :=
    if Int32.minValue.toInt ≤ value ∧ value ≤ Int32.maxValue.toInt then
      { code := Int32.ofInt value, reduced := false }
    else
      { code := (UInt32.ofNat (value.fmod 0x100000000).toNat).toInt32, reduced := true }
  atLeast_eq _ _ := rfl
  isZero_eq _ := rfl
  toChar?_eq value := (Number.charOfInt?_eq_ite value).symm
  toDecimal_eq _ := rfl
  toHex_eq _ := rfl

end HangulPane
