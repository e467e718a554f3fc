import Espalier.Proofs.Number.Whole

/-!
# Rounded quotients

What every rounded quotient is: a magnitude with a sign, infinity at most.  So rounding never gives
what is not a number, and of the integers only zero is rounded to zero.
-/

namespace Espalier
namespace Double

/-! ## Magnitudes -/

/-- A magnitude that leaves the sign bit alone shows in the fields of the double made from it. -/
theorem fields_ofMagnitude (negative : Bool) {m : Nat} (hm : m < signWeight) :
    (ofMagnitude negative m).isNegative = negative ∧
      (ofMagnitude negative m).exponentField = m / exponentWeight ∧
      (ofMagnitude negative m).fractionField = m % exponentWeight := by
  have hbits : (ofMagnitude negative m).bits.toNat = (if negative then signWeight else 0) + m := by
    rw [ofMagnitude, UInt64.toNat_ofNat']
    unfold signWeight at *
    cases negative <;> simp <;> omega
  unfold isNegative exponentField fractionField
  rw [hbits]
  unfold signWeight exponentWeight at *
  cases negative <;> simp <;> omega

/-- A rounded quotient is a magnitude up to infinity. -/
theorem exists_ofRatio (negative : Bool) (num den : Nat) :
    ∃ m ≤ 2047 * exponentWeight, ofRatio negative num den = ofMagnitude negative m := by
  unfold ofRatio
  split
  · exact ⟨0, Nat.zero_le _, rfl⟩
  · exact ⟨_, Nat.min_le_right _ _, rfl⟩

/-- No quotient of integers is rounded to what is not a number. -/
theorem isNaN_ofRatio (negative : Bool) (num den : Nat) :
    (ofRatio negative num den).isNaN = false := by
  rcases exists_ofRatio negative num den with ⟨m, hm, hratio⟩
  obtain ⟨-, hexponent, hfraction⟩ := fields_ofMagnitude negative
    (Nat.lt_of_le_of_lt hm (by decide))
  rw [hratio, isNaN, hexponent, hfraction]
  unfold exponentWeight at *
  by_cases h : m / 0x10000000000000 = 2047
  · have hzero : m % 0x10000000000000 = 0 := by omega
    simp [hzero]
  · simp [h]

/-! ## Integers -/

theorem isNaN_ofInt (n : Int) : (ofInt n).isNaN = false :=
  isNaN_ofRatio _ _ _

/-- A positive integer is rounded to one at least. -/
theorem isZero_ofRatio_one (negative : Bool) {n : Nat} (hn : n ≠ 0) :
    (ofRatio negative n 1).isZero = false := by
  -- The quotient is in a normal binade, so the exponent field is not zero.
  obtain ⟨q, m, hq, hratio⟩ : ∃ q m : Nat, 1022 ≤ q ∧ ofRatio negative n 1 =
      ofMagnitude negative (min (m + q * exponentWeight) (2047 * exponentWeight)) := by
    rw [ofRatio, if_neg (by simp [hn]), floorLog2_one hn]
    refine ⟨_, _, ?_, rfl⟩
    omega
  obtain ⟨-, hexponent, -⟩ := fields_ofMagnitude negative
    (m := min (m + q * exponentWeight) (2047 * exponentWeight))
    (Nat.lt_of_le_of_lt (Nat.min_le_right _ _) (by decide))
  rw [← Bool.not_eq_true, isZero_iff, hratio, hexponent]
  unfold exponentWeight
  omega

/-- Only zero is rounded to zero, and it has no sign. -/
theorem ofInt_of_isZero {n : Int} (h : (ofInt n).isZero = true) : ofInt n = zero false := by
  by_cases hn : n = 0
  · rw [hn]
    rfl
  · rw [ofInt, isZero_ofRatio_one _ (Int.natAbs_ne_zero.2 hn)] at h
    cases h

end Double
end Espalier
