import HangulPane.Number.Unbounded
import HangulPane.Number.Word
import Mathlib.Data.Int.ModEq

namespace HangulPane
namespace Number

/-!
Exit statuses.

A word of sixty-four bits is cut to its lower half.  An integer of any size is kept where it
fits a word of thirty-two bits, and reduced by a floored remainder where it does not.  Both
give the one signed word that is congruent to the value.
-/

/-- The floored remainder, read as a signed word, is what the integer is cut to. -/
theorem toInt32_ofNat_fmod (value : Int) :
    (UInt32.ofNat (value.fmod 0x100000000).toNat).toInt32 = Int32.ofInt value := by
  have remainder : value.fmod 0x100000000 = value % 0x100000000 :=
    Int.fmod_eq_emod_of_nonneg value (by decide)
  have nonneg : 0 ≤ value.fmod 0x100000000 := by
    rw [remainder]
    exact Int.emod_nonneg value (by decide)
  rw [UInt32.toInt32_ofNat', ← Int32.ofInt_eq_ofNat, Int.toNat_of_nonneg nonneg, remainder,
    ← Int32.toInt_inj, Int32.toInt_ofInt, Int32.toInt_ofInt]
  exact Int.emod_bmod value 0x100000000

theorem modEq_toInt_ofInt (value : Int) :
    (Int32.ofInt value).toInt ≡ value [ZMOD 2 ^ 32] := by
  rw [Int32.toInt_ofInt]
  exact Int.bmod_emod

/-- An integer that is not the one a word of thirty-two bits stands for is out of its range. -/
theorem toInt_ofInt_eq_iff (value : Int) :
    (Int32.ofInt value).toInt = value <->
      Int32.minValue.toInt ≤ value ∧ value ≤ Int32.maxValue.toInt := by
  rw [Int32.toInt_minValue, Int32.toInt_maxValue]
  constructor
  · intro same
    have lower := (Int32.ofInt value).le_toInt
    have upper := (Int32.ofInt value).toInt_lt
    omega
  · intro fits
    exact Int32.toInt_ofInt_of_le fits.1 (by omega)

/-- Whether it is reduced or not, an integer is cut to its exit status, and the flag tells
whether that changed it. -/
theorem exitStatus_eq (value : Int) :
    exitStatus value =
      { code := Int32.ofInt value, reduced := (Int32.ofInt value).toInt != value } := by
  simp only [exitStatus, toInt32_ofNat_fmod]
  split
  · rename_i fits
    rw [(toInt_ofInt_eq_iff value).mpr fits, bne_self_eq_false]
  · rename_i outside
    have changed : ((Int32.ofInt value).toInt != value) = true :=
      bne_iff_ne.mpr fun same => outside ((toInt_ofInt_eq_iff value).mp same)
    rw [changed]

/-- An exit status depends on the integer for which a word stands. -/
theorem exitStatus_toInt (value : Int64) : exitStatus value.toInt = exitStatus value := by
  have reduced : (value.toInt32.toInt != value.toInt) = (value.toInt32.toInt64 != value) := by
    rw [Bool.eq_iff_iff, bne_iff_ne, bne_iff_ne, ne_eq, ne_eq, ← Int64.toInt_inj,
      Int32.toInt_toInt64]
  rw [exitStatus_eq, Int32.ofInt_int64ToInt, reduced]
  rfl

end Number
end HangulPane
