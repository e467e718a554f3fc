import Espalier.Number.Double
import Mathlib.Algebra.Group.Nat.Defs

/-!
# Whole doubles

A double that is a whole number is the double nearest to that number, so a whole double survives
being kept as an integer.  Only the sign of a zero is lost.  The significand of a whole double other
than zero fills its binade, and rounding the integer finds that same significand again.
-/

namespace Espalier
namespace Double

/-! ## Fields -/

theorem fractionField_lt (x : Double) : x.fractionField < exponentWeight :=
  Nat.mod_lt _ (by decide)

/-- The bits of a double are its sign, its exponent and its fraction. -/
theorem bits_eq (x : Double) : x.bits.toNat =
    (if x.isNegative then signWeight else 0) +
      (x.exponentField * exponentWeight + x.fractionField) := by
  have hlt : x.bits.toNat < 2 ^ 64 := x.bits.toNat_lt
  unfold isNegative exponentField fractionField signWeight exponentWeight
  by_cases h : x.bits.toNat / 0x8000000000000000 = 1
  · simp only [h, beq_self_eq_true, if_true]
    omega
  · simp only [beq_iff_eq, h, if_false]
    omega

/-- A double is made up of its sign and its magnitude. -/
theorem ofMagnitude_fields (x : Double) :
    ofMagnitude x.isNegative (x.exponentField * exponentWeight + x.fractionField) = x := by
  rcases x with ⟨bits⟩
  rw [ofMagnitude, ← bits_eq, UInt64.ofNat_toNat]

theorem isZero_iff (x : Double) :
    x.isZero = true ↔ x.exponentField = 0 ∧ x.fractionField = 0 := by
  have hlt : x.bits.toNat < 2 ^ 64 := x.bits.toNat_lt
  unfold isZero exponentField fractionField signWeight exponentWeight
  rw [beq_iff_eq]
  omega

/-! ## Rounding what needs no rounding -/

/-- A multiple of the denominator is rounded to itself. -/
theorem roundHalfEven_mul (m : Nat) {d : Nat} (hd : 0 < d) : roundHalfEven (m * d) d = m := by
  simp [roundHalfEven, Nat.mul_div_cancel m hd, hd]

theorem floorLog2_one {n : Nat} (hn : n ≠ 0) : floorLog2 n 1 = n.log2 := by
  have hself : 2 ^ n.log2 ≤ n := Nat.log2_self_le hn
  have hone : Nat.log2 1 = 0 := by decide
  simp [floorLog2, hone, Nat.shiftLeft_eq, hself]

/-- A significand that fills its binade, shifted left, is found again. -/
theorem ofRatio_shiftLeft (negative : Bool) {m : Nat} (q : Nat) (hlow : 2 ^ 52 ≤ m)
    (hhigh : m < 2 ^ 53) : ofRatio negative (m * 2 ^ q) 1 =
      ofMagnitude negative (min (m + (q + 1074) * exponentWeight) (2047 * exponentWeight)) := by
  have hpos : 0 < 2 ^ q := Nat.two_pow_pos q
  have hne : m * 2 ^ q ≠ 0 := Nat.mul_ne_zero (by omega) (by omega)
  -- The shift moves the top bit, which is bit 52 of the significand.
  have hlog : (m * 2 ^ q).log2 = 52 + q := by
    have htop : 2 ^ (52 + q + 1) = 2 ^ 53 * 2 ^ q := by
      rw [← Nat.pow_add, Nat.add_right_comm]
    rw [Nat.log2_eq_iff hne, htop, Nat.pow_add]
    exact ⟨Nat.mul_le_mul_right _ hlow, Nat.mul_lt_mul_of_pos_right hhigh hpos⟩
  have hq : max (((52 + q : Nat) : Int) - 52) (-1074) = (q : Int) := by omega
  rw [ofRatio, if_neg (by simp [hne]), floorLog2_one hne, hlog]
  simp only [hq]
  have hm : roundHalfEven (m * 2 ^ q) (1 <<< (q : Int).toNat) = m := by
    rw [Int.toNat_natCast, Nat.one_shiftLeft]
    exact roundHalfEven_mul m hpos
  have hexp : ((q : Int) + 1074).toNat = q + 1074 := by omega
  rw [if_pos (Int.natCast_nonneg q), hm, hexp]

/-- A significand that fills its binade, shifted right without a loss, is found again. -/
theorem ofRatio_shiftRight (negative : Bool) {n : Nat} {k : Nat} (hk : k ≤ 52)
    (hlow : 2 ^ 52 ≤ n * 2 ^ k) (hhigh : n * 2 ^ k < 2 ^ 53) : ofRatio negative n 1 =
      ofMagnitude negative
        (min (n * 2 ^ k + (1074 - k) * exponentWeight) (2047 * exponentWeight)) := by
  have hpos : 0 < 2 ^ k := Nat.two_pow_pos k
  have hne : n ≠ 0 := by
    rintro rfl
    simp at hlow
  have hlog : n.log2 = 52 - k := by
    rw [Nat.log2_eq_iff hne]
    have hsplit : 2 ^ 52 = 2 ^ (52 - k) * 2 ^ k := by
      rw [← Nat.pow_add, Nat.sub_add_cancel hk]
    have hsplit' : 2 ^ 53 = 2 ^ (52 - k + 1) * 2 ^ k := by
      rw [← Nat.pow_add]
      congr 1
      omega
    rw [hsplit] at hlow
    rw [hsplit'] at hhigh
    exact ⟨Nat.le_of_mul_le_mul_right hlow hpos, Nat.lt_of_mul_lt_mul_right hhigh⟩
  have hq : max (((52 - k : Nat) : Int) - 52) (-1074) = -(k : Int) := by omega
  rw [ofRatio, if_neg (by simp [hne]), floorLog2_one hne, hlog]
  simp only [hq]
  have hexp : (-(k : Int) + 1074).toNat = 1074 - k := by omega
  -- No digit is lost to the right: the number is shifted left before it is divided by one.
  have hround : (if 0 ≤ -(k : Int) then roundHalfEven n (1 <<< (-(k : Int)).toNat)
      else roundHalfEven (n <<< (- -(k : Int)).toNat) 1) = n * 2 ^ k := by
    cases k with
    | zero => simpa using roundHalfEven_mul n Nat.one_pos
    | succ j =>
      rw [if_neg (by omega), Int.neg_neg, Int.toNat_natCast, Nat.shiftLeft_eq]
      simpa using roundHalfEven_mul (n * 2 ^ (j + 1)) Nat.one_pos
  rw [hround, hexp]

/-! ## Whole doubles -/

/-- The integer of a whole double, by its sign and its magnitude. -/
theorem exists_magnitude_of_toInt? {x : Double} {n : Int} (h : x.toInt? = some n) :
    x.exponentField ≠ 2047 ∧ x.numerator % x.denominator = 0 ∧
      n = if x.isNegative then -((x.numerator / x.denominator : Nat) : Int)
        else ((x.numerator / x.denominator : Nat) : Int) := by
  unfold toInt? isFinite at h
  simp only [Bool.and_eq_true, bne_iff_ne, ne_eq, beq_iff_eq, Option.ite_none_right_eq_some,
    Option.some.injEq] at h
  rcases h with ⟨⟨hfinite, hwhole⟩, rfl⟩
  exact ⟨hfinite, hwhole, rfl⟩

theorem ofInt_signed (negative : Bool) {n : Nat} (hn : n ≠ 0) :
    ofInt (if negative then -(n : Int) else (n : Int)) = ofRatio negative n 1 := by
  cases negative with
  | false =>
    have hlt : ¬ (n : Int) < 0 := by omega
    simp [ofInt, hlt]
  | true =>
    have hpos : 0 < n := Nat.pos_of_ne_zero hn
    simp [ofInt, hpos]

/-- The magnitude of a normal double from its significand and its exponent. -/
theorem magnitude_normal {x : Double} (hfinite : x.exponentField ≠ 2047)
    (hnormal : x.exponentField ≠ 0) :
    min (x.fractionField + exponentWeight + (x.exponentField - 1) * exponentWeight)
      (2047 * exponentWeight) = x.exponentField * exponentWeight + x.fractionField := by
  have hfraction := x.fractionField_lt
  have hexponent : x.exponentField < 2048 := Nat.mod_lt _ (by decide)
  unfold exponentWeight at *
  omega

/-- The rounded magnitude of a normal double is its own. -/
theorem ofMagnitude_normal {x : Double} (hfinite : x.exponentField ≠ 2047)
    (hnormal : x.exponentField ≠ 0) :
    ofMagnitude x.isNegative
      (min (x.fractionField + exponentWeight + (x.exponentField - 1) * exponentWeight)
        (2047 * exponentWeight)) = x := by
  rw [magnitude_normal hfinite hnormal, ofMagnitude_fields]

/-- The significand of a normal double has all fifty-three bits. -/
theorem significand_bounds {x : Double} (hnormal : x.exponentField ≠ 0) :
    x.significand = x.fractionField + exponentWeight ∧
      2 ^ 52 ≤ x.significand ∧ x.significand < 2 ^ 53 := by
  have hsig : x.significand = x.fractionField + exponentWeight := by
    simp [significand, hnormal]
  have hfraction := x.fractionField_lt
  unfold exponentWeight at *
  exact ⟨hsig, by omega, by omega⟩

/-- A subnormal double lies below one, so it is whole only if it is zero. -/
theorem isZero_of_subnormal {x : Double} (hsubnormal : x.exponentField = 0)
    (hwhole : x.numerator % x.denominator = 0) : x.isZero = true := by
  have hnum : x.numerator = x.fractionField := by
    simp [numerator, significand, exponent, hsubnormal]
  -- `k` stands for 1074, so that `2 ^ k` is never written out.
  obtain ⟨k, hk⟩ : ∃ k, k = 1074 := ⟨_, rfl⟩
  have hexp : x.exponent = -(k : Int) := by
    rw [exponent, hsubnormal, hk]
    decide
  have hden : x.denominator = 2 ^ k := by
    simp [denominator, hexp, Nat.one_shiftLeft]
  have hlt : x.fractionField < 2 ^ k :=
    calc x.fractionField < 2 ^ 52 := x.fractionField_lt
      _ ≤ 2 ^ k := Nat.pow_le_pow_right (by decide) (by omega)
  rw [hnum, hden, Nat.mod_eq_of_lt hlt] at hwhole
  exact (isZero_iff x).2 ⟨hsubnormal, hwhole⟩

/-- The binary point of a whole double below `2 ^ 52` lies inside the significand, and the digits
after it are zeros. -/
theorem ofRatio_of_exponentField_lt {x : Double} (hfinite : x.exponentField ≠ 2047)
    (hnormal : x.exponentField ≠ 0) (hlt : x.exponentField < 1075)
    (hwhole : x.numerator % x.denominator = 0) :
    x.numerator / x.denominator ≠ 0 ∧
      ofRatio x.isNegative (x.numerator / x.denominator) 1 = x := by
  rcases significand_bounds hnormal with ⟨hsig, hlow, hhigh⟩
  obtain ⟨k, hk⟩ : ∃ k, x.exponentField + k = 1075 := ⟨1075 - x.exponentField, by omega⟩
  have hexp : x.exponent = -(k : Int) := by
    unfold exponent
    omega
  have hnum : x.numerator = x.significand := by
    simp [numerator, hexp]
  have hden : x.denominator = 2 ^ k := by
    simp [denominator, hexp, Nat.one_shiftLeft]
  rw [hnum, hden] at hwhole ⊢
  have hsplit : x.significand / 2 ^ k * 2 ^ k = x.significand :=
    Nat.div_mul_cancel (Nat.dvd_of_mod_eq_zero hwhole)
  have hne : x.significand / 2 ^ k ≠ 0 := by
    intro hzero
    rw [hzero, Nat.zero_mul] at hsplit
    omega
  -- A quotient that is not zero bounds the shift by the width of the significand.
  have hpow : 2 ^ k < 2 ^ 53 :=
    calc 2 ^ k ≤ x.significand / 2 ^ k * 2 ^ k :=
          Nat.le_mul_of_pos_left _ (Nat.pos_of_ne_zero hne)
      _ = x.significand := hsplit
      _ < 2 ^ 53 := hhigh
  have hk52 : k ≤ 52 := Nat.le_of_lt_succ ((Nat.pow_lt_pow_iff_right (by decide)).1 hpow)
  have hshift : 1074 - k = x.exponentField - 1 := by omega
  refine ⟨hne, ?_⟩
  rw [ofRatio_shiftRight _ hk52 (by rw [hsplit]; exact hlow) (by rw [hsplit]; exact hhigh),
    hsplit, hsig, hshift]
  exact ofMagnitude_normal hfinite hnormal

/-- From `2 ^ 52` on the whole significand lies before the binary point. -/
theorem ofRatio_of_le_exponentField {x : Double} (hfinite : x.exponentField ≠ 2047)
    (hge : 1075 ≤ x.exponentField) :
    x.numerator / x.denominator ≠ 0 ∧
      ofRatio x.isNegative (x.numerator / x.denominator) 1 = x := by
  have hnormal : x.exponentField ≠ 0 := by omega
  rcases significand_bounds hnormal with ⟨hsig, hlow, hhigh⟩
  obtain ⟨q, hq⟩ : ∃ q, x.exponentField = 1075 + q := ⟨x.exponentField - 1075, by omega⟩
  have hexp : x.exponent = (q : Int) := by
    unfold exponent
    omega
  have hnum : x.numerator = x.significand * 2 ^ q := by
    simp [numerator, hexp, Nat.shiftLeft_eq]
  have hden : x.denominator = 1 := by
    simp [denominator, hexp]
  have hne : x.significand * 2 ^ q ≠ 0 :=
    Nat.mul_ne_zero (by omega) (Nat.ne_of_gt (Nat.two_pow_pos q))
  have hshift : q + 1074 = x.exponentField - 1 := by omega
  rw [hnum, hden, Nat.div_one]
  refine ⟨hne, ?_⟩
  rw [ofRatio_shiftLeft _ q hlow hhigh, hsig, hshift]
  exact ofMagnitude_normal hfinite hnormal

/-- A whole double that is not zero is the double nearest to its integer. -/
theorem ofInt_of_toInt? {x : Double} {n : Int} (h : x.toInt? = some n) (hz : x.isZero = false) :
    ofInt n = x := by
  rcases exists_magnitude_of_toInt? h with ⟨hfinite, hwhole, rfl⟩
  by_cases hnormal : x.exponentField = 0
  · rw [isZero_of_subnormal hnormal hwhole] at hz
    cases hz
  · have hmagnitude : x.numerator / x.denominator ≠ 0 ∧
        ofRatio x.isNegative (x.numerator / x.denominator) 1 = x := by
      rcases Nat.lt_or_ge x.exponentField 1075 with hlt | hge
      · exact ofRatio_of_exponentField_lt hfinite hnormal hlt hwhole
      · exact ofRatio_of_le_exponentField hfinite hge
    rcases hmagnitude with ⟨hne, hratio⟩
    rw [ofInt_signed _ hne, hratio]

/-- A zero of either sign is whole. -/
theorem toInt?_of_isZero {x : Double} (hz : x.isZero = true) : x.toInt? = some 0 := by
  rcases (isZero_iff x).1 hz with ⟨hexponent, hfraction⟩
  have hnum : x.numerator = 0 := by
    simp [numerator, significand, hexponent, hfraction]
  simp [toInt?, isFinite, hexponent, hnum]

end Double
end Espalier
