import HangulPane.Proofs.Number.Word

namespace HangulPane
namespace Decimal

/-!
Numerals are read as the numbers they were written for.
-/

theorem toList_ofNat (value : Nat) : (ofNat value).toList = Nat.toDigits 10 value := by
  rw [ofNat, Nat.repr_eq_ofList_toDigits, String.toList_ofList]

theorem isDigit_of_mem_ofNat {value : Nat} {c : Char} (member : c ∈ (ofNat value).toList) :
    c.isDigit = true := by
  rw [toList_ofNat] at member
  exact Nat.isDigit_of_mem_toDigits (by decide) (by decide) member

theorem toList_ofNat_ne_nil (value : Nat) : (ofNat value).toList ≠ [] := by
  rw [toList_ofNat]
  exact Nat.toDigits_ne_nil

theorem digits?_ofNat (value : Nat) : digits? (ofNat value).toList = some value := by
  have digits : (ofNat value).toList.all Char.isDigit = true :=
    List.all_eq_true.mpr fun c member => isDigit_of_mem_ofNat member
  have read : Nat.ofDigitChars 10 (Nat.toDigits 10 value) 0 = value :=
    Nat.ofDigitChars_ten_toDigits
  have present : (ofNat value).toList.isEmpty = false :=
    List.isEmpty_eq_false_iff.mpr (toList_ofNat_ne_nil value)
  rw [digits?, digits, present, toList_ofNat, read]
  rfl

theorem ofNat_injective {left right : Nat} (same : ofNat left = ofNat right) : left = right := by
  apply Option.some.inj
  rw [← digits?_ofNat left, ← digits?_ofNat right, same]

/-- A numeral without a sign is read as its digits. -/
theorem signed?_of_isDigit {magnitude? : List Char -> Option Nat} {text : List Char}
    (digits : forall c, c ∈ text -> c.isDigit = true) :
    signed? magnitude? text = (magnitude? text).map Int.ofNat := by
  unfold signed?
  split
  · exact absurd (digits '-' (List.mem_cons_self ..)) (by decide)
  · exact absurd (digits '+' (List.mem_cons_self ..)) (by decide)
  · rfl

/-- The text of an integer is a sign, if one is due, and the digits of its magnitude. -/
theorem toList_ofInt (value : Int) :
    (ofInt value).toList = (if value < 0 then ['-'] else []) ++ (ofNat value.natAbs).toList := by
  cases value with
  | ofNat value => rfl
  | negSucc value =>
      rw [ofInt, String.toList_append, if_pos (Int.negSucc_lt_zero value)]
      rfl

theorem eq_minus_or_isDigit_of_mem_ofInt {value : Int} {c : Char}
    (member : c ∈ (ofInt value).toList) : c = '-' ∨ c.isDigit = true := by
  rw [toList_ofInt] at member
  rcases List.mem_append.mp member with sign | digit
  · split at sign
    · exact .inl (List.mem_singleton.mp sign)
    · cases sign
  · exact .inr (isDigit_of_mem_ofNat digit)

theorem int?_ofInt (value : Int) : int? (ofInt value).toList = some value := by
  cases value with
  | ofNat value =>
      rw [int?, ofInt, signed?_of_isDigit fun c => isDigit_of_mem_ofNat, digits?_ofNat]
      rfl
  | negSucc value =>
      have signs : (ofInt (.negSucc value)).toList = '-' :: (ofNat (value + 1)).toList := by
        rw [toList_ofInt, if_pos (Int.negSucc_lt_zero value)]
        rfl
      rw [signs, int?, signed?, digits?_ofNat]
      rfl

theorem word?_ofInt {value : Int} (fits : fitsWord value = true) :
    word? (ofInt value).toList = some (Int64.ofInt value) := by
  simp only [word?, int?_ofInt, fits, if_true]

end Decimal
end HangulPane
