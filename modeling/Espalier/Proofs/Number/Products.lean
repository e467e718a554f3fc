import Espalier.Proofs.Number.Nearest

/-!
# Negation, products and quotients

The sign of a double is a bit of its own, and products and quotients of finite doubles are rounded
quotients of their exact values.  Whole numbers that fit the significand are doubles.
-/

namespace Espalier
namespace Double

variable {x y : Double}

/-! ## Negation -/

theorem xor_two_pow {m i : Nat} (h : m < 2 ^ i) : m ^^^ 2 ^ i = 2 ^ i + m := by
  refine Nat.eq_of_testBit_eq fun j => ?_
  rw [Nat.testBit_xor, Nat.testBit_two_pow]
  rcases Nat.lt_trichotomy j i with hlt | rfl | hgt
  · rw [Nat.testBit_two_pow_add_gt hlt]
    simp [Nat.ne_of_gt hlt]
  · rw [Nat.testBit_two_pow_add_eq, Nat.testBit_lt_two_pow h]
    simp
  · have hpow : 2 ^ (i + 1) ≤ 2 ^ j := Nat.pow_le_pow_right (by decide) hgt
    have hsum : 2 ^ i + m < 2 ^ j := by
      rw [Nat.pow_succ] at hpow
      omega
    rw [Nat.testBit_lt_two_pow hsum, Nat.testBit_lt_two_pow (by omega)]
    simp [Nat.ne_of_lt hgt]

/-- The opposite of a positive magnitude. -/
theorem negate_ofMagnitude {m : Nat} (hm : m < signWeight) :
    (ofMagnitude false m).negate = ofMagnitude true m := by
  have hweight : signWeight = 2 ^ 63 := by decide
  rw [hweight] at hm
  have hleft : (UInt64.ofNat m).toNat = m := by
    rw [UInt64.toNat_ofNat', Nat.mod_eq_of_lt (by omega)]
  have hsign : (UInt64.ofNat signWeight).toNat = 2 ^ 63 := by decide
  have hright : (UInt64.ofNat (signWeight + m)).toNat = 2 ^ 63 + m := by
    rw [UInt64.toNat_ofNat', hweight, Nat.mod_eq_of_lt (by omega)]
  have hbits : UInt64.ofNat m ^^^ UInt64.ofNat signWeight = UInt64.ofNat (signWeight + m) := by
    rw [← UInt64.toNat_inj, UInt64.toNat_xor, hleft, hsign, hright]
    exact xor_two_pow hm
  simp only [negate, ofMagnitude, Bool.false_eq_true, if_false, if_true, Nat.zero_add, hbits]

/-- Rounding does not depend on the sign. -/
theorem negate_ofRatio (num den : Nat) :
    (ofRatio false num den).negate = ofRatio true num den := by
  unfold ofRatio
  split
  · rfl
  · exact negate_ofMagnitude (Nat.lt_of_le_of_lt (Nat.min_le_right _ _) (by decide))

theorem negate_ofDecimal (c : Nat) (p : Int) :
    (ofDecimal false c p).negate = ofDecimal true c p := by
  unfold ofDecimal
  dsimp only
  split_ifs
  · rfl
  · rfl
  · rfl
  · exact negate_ofRatio _ _
  · exact negate_ofRatio _ _

theorem negate_negate (x : Double) : x.negate.negate = x := by
  simp only [negate, UInt64.xor_assoc, UInt64.xor_self, UInt64.xor_zero]

theorem magnitude_lt_signWeight (x : Double) :
    x.exponentField * exponentWeight + x.fractionField < signWeight := by
  have hfraction := x.fractionField_lt
  have hfield := x.exponentField_lt
  unfold exponentWeight signWeight at *
  omega

/-- The opposite has the other sign and the same magnitude. -/
theorem negate_signed (x : Double) (negative : Bool) :
    (x.signed negative).negate = x.signed !negative := by
  cases negative with
  | false => exact negate_ofMagnitude x.magnitude_lt_signWeight
  | true =>
    have h : (x.signed false).negate = x.signed true :=
      negate_ofMagnitude x.magnitude_lt_signWeight
    rw [← h, negate_negate]
    rfl

theorem isFinite_signed (x : Double) (negative : Bool) :
    (x.signed negative).isFinite = x.isFinite := by
  have hfield := (fields_ofMagnitude negative x.magnitude_lt_signWeight).2.1
  have hfraction := x.fractionField_lt
  have hdiv : (x.exponentField * exponentWeight + x.fractionField) / exponentWeight =
      x.exponentField := by
    unfold exponentWeight at *
    omega
  rw [isFinite, isFinite, signed, hfield, hdiv]

theorem isFinite_negate (x : Double) : x.negate.isFinite = x.isFinite := by
  have h := x.negate_signed x.isNegative
  rw [signed_isNegative] at h
  rw [h, isFinite_signed]

/-! ## Products and quotients -/

/-- A double with a magnitude of its own is finite or not by its exponent. -/
theorem isFinite_iff : x.isFinite = true ↔ x.exponentField ≠ 2047 := by
  rw [isFinite, bne_iff_ne]

theorem isInfinite_of_isFinite (h : x.isFinite = true) : x.isInfinite = false := by
  rw [isFinite_iff] at h
  simp [isInfinite, h]

/-- A product is rounded once, from the exact one. -/
theorem mul_eq (hx : x.isFinite = true) (hy : y.isFinite = true) :
    x.mul y = ofRatio (x.isNegative != y.isNegative) (x.numerator * y.numerator)
      (x.denominator * y.denominator) := by
  simp [mul, isInfinite_of_isFinite hx, isInfinite_of_isFinite hy]

/-- A quotient is rounded once, from the exact one. -/
theorem div_eq (hx : x.isFinite = true) (hy : y.isFinite = true) (hzero : y.isZero = false) :
    x.div y = ofRatio (x.isNegative != y.isNegative) (x.numerator * y.denominator)
      (x.denominator * y.numerator) := by
  simp [div, isInfinite_of_isFinite hx, isInfinite_of_isFinite hy, hzero]

/-- The exact value that a product rounds. -/
theorem product_eq (x y : Double) :
    ((x.numerator * y.numerator : Nat) : ℚ) / (x.denominator * y.denominator : Nat) =
      x.magnitude * y.magnitude := by
  rw [← numerator_div_denominator, ← numerator_div_denominator, div_mul_div_comm]
  push_cast
  rfl

/-- The exact value that a quotient rounds. -/
theorem quotient_eq (x y : Double) :
    ((x.numerator * y.denominator : Nat) : ℚ) / (x.denominator * y.numerator : Nat) =
      x.magnitude / y.magnitude := by
  rw [← numerator_div_denominator, ← numerator_div_denominator, div_div_div_eq]
  push_cast
  rfl

/-- A rounded quotient is finite if it is not infinite. -/
theorem isFinite_ofRatio (negative : Bool) (num den : Nat)
    (h : (ofRatio negative num den).isInfinite = false) :
    (ofRatio negative num den).isFinite = true := by
  have hnan := isNaN_ofRatio negative num den
  rw [isFinite_iff]
  intro hfield
  simp only [isInfinite, isNaN, hfield, beq_self_eq_true, Bool.true_and] at h hnan
  rw [bne, h] at hnan
  cases hnan

/-! ## Bounds -/

/-- A double with an exponent field up to 1087 is below `2 ^ 65`. -/
theorem numerator_lt (h : x.exponentField ≤ 1087) : x.numerator < 2 ^ 65 * x.denominator := by
  have hpos : (0 : ℚ) < x.denominator := by exact_mod_cast x.denominator_pos
  have hlt : (x.significand : ℚ) < 2 ^ 53 := by exact_mod_cast x.significand_lt
  have hmagnitude : x.magnitude < 2 ^ 65 := by
    have hexp : x.exponent ≤ 12 := by
      unfold exponent
      omega
    calc x.magnitude < 2 ^ 53 * 2 ^ x.exponent := mul_lt_mul_of_pos_right hlt (two_zpow_pos _)
      _ ≤ 2 ^ 53 * 2 ^ (12 : Int) := by
        have hmono := zpow_le_zpow_right₀ (show (1 : ℚ) ≤ 2 by norm_num) hexp
        linarith
      _ = 2 ^ 65 := by norm_num
  rw [← numerator_div_denominator, div_lt_iff₀ hpos] at hmagnitude
  exact_mod_cast hmagnitude

/-- Division by two or more keeps a double below `2 ^ 65`. -/
theorem exponentField_div_le (hx : x.exponentField ≤ 1087) (hy : y.isFinite = true)
    (hzero : y.isZero = false) (htwo : 2 * y.denominator ≤ y.numerator) :
    (x.div y).exponentField ≤ 1087 := by
  have hfinite : x.isFinite = true := isFinite_iff.2 (by omega)
  rw [div_eq hfinite hy hzero]
  refine exponentField_ofRatio_le _ (Nat.mul_pos x.denominator_pos (numerator_pos hzero)) ?_
  have hlt := numerator_lt hx
  have hden := y.denominator_pos
  calc x.numerator * y.denominator < 2 ^ 65 * x.denominator * y.denominator :=
        Nat.mul_lt_mul_of_pos_right hlt hden
    _ = 2 ^ 64 * (x.denominator * (2 * y.denominator)) := by ring
    _ ≤ 2 ^ 64 * (x.denominator * y.numerator) :=
        Nat.mul_le_mul_left _ (Nat.mul_le_mul_left _ htwo)

/-- An integer of sixty-four bits is a finite double. -/
theorem exponentField_ofNat_le {n : Nat} (h : n < 2 ^ 64) : (ofNat n).exponentField ≤ 1087 :=
  exponentField_ofRatio_le false Nat.one_pos (by omega)

/-! ## Whole numbers -/

/-- The magnitude of a whole number that fits the significand. -/
theorem magnitude_ofNat {n : Nat} (hpos : n ≠ 0) (hn : n < 2 ^ 53) :
    (ofNat n).magnitude = n ∧ (ofNat n).isFinite = true ∧ (ofNat n).isNegative = false := by
  -- The number is shifted to fill the binade.
  obtain ⟨k, hk⟩ : ∃ k, k = 52 - n.log2 := ⟨_, rfl⟩
  have hlog : n.log2 < 53 := (Nat.log2_lt hpos).2 hn
  have hself := Nat.log2_self_le hpos
  have hlt : n < 2 ^ (n.log2 + 1) := Nat.lt_log2_self
  have hsum : 2 ^ 52 = 2 ^ n.log2 * 2 ^ k := by
    rw [← Nat.pow_add]
    congr 1
    omega
  have hlow : 2 ^ 52 ≤ n * 2 ^ k := hsum ▸ Nat.mul_le_mul_right _ hself
  have hhigh : n * 2 ^ k < 2 ^ 53 := by
    have hsum' : 2 ^ 53 = 2 ^ (n.log2 + 1) * 2 ^ k := by
      rw [← Nat.pow_add]
      congr 1
      omega
    exact hsum' ▸ Nat.mul_lt_mul_of_pos_right hlt (Nat.two_pow_pos k)
  have hratio := ofRatio_shiftRight false (k := k) (by omega) hlow hhigh
  obtain ⟨m, hm⟩ : ∃ m, m = min (n * 2 ^ k + (1074 - k) * exponentWeight)
      (2047 * exponentWeight) := ⟨_, rfl⟩
  rw [← hm] at hratio
  obtain ⟨c, hc⟩ : ∃ c, c = n * 2 ^ k := ⟨_, rfl⟩
  rw [← hc] at hm hlow hhigh
  have hmlt : m < signWeight := by
    unfold signWeight exponentWeight at *
    omega
  have hfield : m / exponentWeight = 1075 - k := by
    unfold exponentWeight at *
    omega
  have hfraction : m % exponentWeight = c - exponentWeight := by
    unfold exponentWeight at *
    omega
  obtain ⟨hsign, hexponentField, hfractionField⟩ := fields_ofMagnitude false hmlt
  rw [hfield] at hexponentField
  rw [hfraction] at hfractionField
  have hdouble : ofNat n = ofMagnitude false m := hratio
  rw [hdouble]
  refine ⟨?_, ?_, hsign⟩
  · have hsig : (ofMagnitude false m).significand = c := by
      rw [significand, hexponentField, hfractionField, if_neg (by omega)]
      exact Nat.sub_add_cancel hlow
    have hexp : (ofMagnitude false m).exponent = -(k : Int) := by
      rw [exponent, hexponentField]
      omega
    rw [magnitude, hsig, hexp, hc, zpow_neg, zpow_natCast]
    push_cast
    rw [mul_assoc, mul_inv_cancel₀ (by positivity), mul_one]
  · rw [isFinite_iff, hexponentField]
    omega

end Double
end Espalier
