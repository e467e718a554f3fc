import Espalier.Proofs.Number.Products

/-!
# No double is closer

A rounded quotient is compared with every other finite double.  In units of the last place of its
binade the quotient is rounded to an integer; a double with a coarser grid is an integer there as
well, and one with a finer grid lies below the binade.  So `closest_ofRatio` holds of every quotient
that is not rounded to infinity, `closest_ofInt` of all integers of sixty-four bits, and
`closest_ofDecimal` of decimals, also of those that are too small to be formed as a quotient.
-/

namespace Espalier
namespace Double

variable {t : ℚ} {m : Nat}

/-! ## Integers -/

/-- No integer is closer than the rounded one, and another is as close only if that one is even. -/
theorem Rounds.closest (h : Rounds t m) (k : ℤ) :
    |t - m| ≤ |t - k| ∧ (|t - m| = |t - k| → k = m ∨ m % 2 = 0) := by
  by_cases hk : k = m
  · rw [hk]
    exact ⟨le_refl _, fun _ => .inl rfl⟩
  · have hone : (1 : ℚ) ≤ |(k : ℚ) - m| := by
      exact_mod_cast Int.one_le_abs (sub_ne_zero.2 hk)
    have htriangle : |(k : ℚ) - m| ≤ |t - m| + |t - k| := by
      rw [abs_sub_comm t k, add_comm]
      exact abs_sub_le (k : ℚ) t m
    have hhalf := h.1
    exact ⟨by linarith, fun heq => .inr (h.2 (by linarith))⟩

/-- The rounded integer reaches every integer that the rational reaches. -/
theorem Rounds.le_of_le (h : Rounds t m) {b : Nat} (hb : (b : ℚ) ≤ t) : b ≤ m := by
  by_contra hlt
  have hhalf := (abs_le.1 h.1).2
  have hlt' : (m : ℚ) + 1 ≤ b := by exact_mod_cast not_le.1 hlt
  linarith

/-- What lies below an integer that the rational reaches is not closer than the rounded one. -/
theorem Rounds.lt_of_lt (h : Rounds t m) {b : Nat} (hb : (b : ℚ) ≤ t) {w : ℚ} (hw : w < b) :
    |t - m| < |t - w| := by
  have hclosest := (h.closest b).1
  rw [Int.cast_natCast, abs_of_nonneg (sub_nonneg.2 hb)] at hclosest
  calc |t - m| ≤ t - b := hclosest
    _ < t - w := sub_lt_sub_left hw t
    _ ≤ |t - w| := le_abs_self _

/-! ## Grids -/

/-- Above the subnormals the significand has one bit more than the fraction. -/
theorem normal_parts {x : Double} {k : Nat} (h : x.exponentField = k + 1) :
    x.significand = x.fractionField + exponentWeight ∧ x.exponent = (k : ℤ) - 1074 := by
  refine ⟨(significand_bounds (by omega)).1, ?_⟩
  unfold exponent
  omega

/-- The double with a given significand on a grid; the significand may be the one that carries into
the next binade, and on the finest grid it may be subnormal. -/
theorem magnitude_ofMagnitude (negative : Bool) {k : Nat} (hm : m ≤ 2 ^ 53)
    (hnormal : k = 0 ∨ 2 ^ 52 ≤ m) (hfinite : m + k * exponentWeight < 2047 * exponentWeight) :
    (ofMagnitude negative (m + k * exponentWeight)).magnitude = m * 2 ^ ((k : ℤ) - 1074) ∧
      (ofMagnitude negative (m + k * exponentWeight)).significand % 2 = m % 2 := by
  obtain ⟨x, hx⟩ : ∃ x, x = ofMagnitude negative (m + k * exponentWeight) := ⟨_, rfl⟩
  obtain ⟨-, hfield, hfraction⟩ := fields_ofMagnitude negative (hfinite.trans (by decide))
  rw [← hx] at hfield hfraction ⊢
  -- Below the binade, inside, or at the end of it.
  rcases Nat.lt_or_ge m (2 ^ 52) with hlow | hlow
  · obtain rfl : k = 0 := by omega
    have hfield' : x.exponentField = 0 := by
      unfold exponentWeight at *
      omega
    have hsig : x.significand = m := by
      unfold significand exponentWeight at *
      rw [if_pos hfield', hfraction]
      omega
    have hexp : x.exponent = ((0 : Nat) : ℤ) - 1074 := by
      unfold exponent
      omega
    rw [magnitude, hsig, hexp]
    exact ⟨rfl, rfl⟩
  rcases Nat.lt_or_eq_of_le hm with hhigh | rfl
  · have hfield' : x.exponentField = k + 1 := by
      unfold exponentWeight at *
      omega
    obtain ⟨hsig, hexp⟩ := normal_parts hfield'
    have hm' : x.fractionField + exponentWeight = m := by
      unfold exponentWeight at *
      omega
    rw [magnitude, hsig, hexp, hm']
    exact ⟨rfl, rfl⟩
  · have hfield' : x.exponentField = k + 2 := by
      unfold exponentWeight at *
      omega
    obtain ⟨hsig, hexp⟩ := normal_parts hfield'
    have hm' : x.fractionField + exponentWeight = 2 ^ 52 := by
      unfold exponentWeight at *
      omega
    have hexp' : ((k + 1 : Nat) : ℤ) - 1074 = (k : ℤ) - 1074 + 1 := by omega
    rw [magnitude, hsig, hexp, hm', hexp', zpow_add_one₀ (by norm_num)]
    refine ⟨?_, by decide⟩
    push_cast
    ring

/-- A double is a multiple of every power of two that is not finer than its own, and below the
binade of every coarser one. -/
theorem magnitude_grid (y : Double) (q : ℤ) :
    (∃ k : Nat, y.magnitude / 2 ^ q = k) ∨
      (y.magnitude / 2 ^ q < (2 ^ 52 : Nat) ∧ -1074 < q) := by
  -- A double whose own grid is coarser lies on this one; one whose own grid is finer is small.
  rcases lt_or_ge y.exponent q with hlt | hge
  · right
    have hleast : -1074 ≤ y.exponent := by
      unfold exponent
      omega
    refine ⟨?_, by omega⟩
    have hsig : (y.significand : ℚ) < 2 ^ 53 := by exact_mod_cast y.significand_lt
    have hexp : (2 : ℚ) ^ y.exponent ≤ 2 ^ (q - 1) :=
      zpow_le_zpow_right₀ (by norm_num) (by omega)
    rw [div_lt_iff₀ (two_zpow_pos q), magnitude]
    calc (y.significand : ℚ) * 2 ^ y.exponent < 2 ^ 53 * 2 ^ y.exponent :=
          mul_lt_mul_of_pos_right hsig (two_zpow_pos _)
      _ ≤ 2 ^ 53 * 2 ^ (q - 1) := by gcongr
      _ = (2 ^ 52 : Nat) * 2 ^ q := by
        rw [zpow_sub_one₀ (by norm_num)]
        push_cast
        ring
  · left
    refine ⟨y.significand * 2 ^ (y.exponent - q).toNat, ?_⟩
    have hexp : (2 : ℚ) ^ (y.exponent - q) = 2 ^ (y.exponent - q).toNat := by
      rw [← zpow_natCast, Int.toNat_of_nonneg (by omega)]
    rw [magnitude, mul_div_assoc, ← zpow_sub₀ (by norm_num), hexp]
    push_cast
    rfl

/-! ## Doubles -/

def value (x : Double) : ℚ :=
  (if x.isNegative then -1 else 1) * x.magnitude

/-- Whether a finite double is the closest to a rational, the one with an even significand if
another is as close. -/
def Closest (x : Double) (r : ℚ) : Prop :=
  x.isFinite = true ∧ ∀ y : Double, y.isFinite = true → |x.value - r| ≤ |y.value - r| ∧
    (|x.value - r| = |y.value - r| → y.value = x.value ∨ x.significand % 2 = 0)

theorem abs_value (y : Double) : |y.value| = y.magnitude := by
  have hnonneg : 0 ≤ y.magnitude := mul_nonneg (Nat.cast_nonneg _) (two_zpow_pos _).le
  unfold value
  split
  · rw [neg_one_mul, abs_neg, abs_of_nonneg hnonneg]
  · rw [one_mul, abs_of_nonneg hnonneg]

/-- In units of a grid, no double is closer to a rational than the integer that it is rounded to, if
it lies above the binades of finer grids. -/
theorem Rounds.closest_value (h : Rounds t m) {q : ℤ} (hq : q = -1074 ∨ (2 ^ 52 : Nat) ≤ t)
    {y : Double} {v : ℚ} (hv : |v| = y.magnitude) :
    |t - m| ≤ |t - v / 2 ^ q| ∧ (|t - m| = |t - v / 2 ^ q| → v / 2 ^ q = m ∨ m % 2 = 0) := by
  have hunits : |v / 2 ^ q| = y.magnitude / 2 ^ q := by
    rw [abs_div, hv, abs_of_pos (two_zpow_pos q)]
  rcases magnitude_grid y q with ⟨k, hk⟩ | ⟨hbelow, hfine⟩
  · -- An integer of either sign.
    obtain ⟨i, hi⟩ : ∃ i : ℤ, v / 2 ^ q = i := by
      rcases abs_choice (v / 2 ^ q) with habs | habs
      · exact ⟨k, by rw [← habs, hunits, hk, Int.cast_natCast]⟩
      · exact ⟨-k, by rw [Int.cast_neg, Int.cast_natCast, ← hk, ← hunits, habs, neg_neg]⟩
    rw [hi]
    refine ⟨(h.closest i).1, fun heq => ((h.closest i).2 heq).imp_left ?_⟩
    rintro rfl
    exact Int.cast_natCast m
  · have hge : ((2 ^ 52 : Nat) : ℚ) ≤ t := by
      rcases hq with rfl | hge
      · exact absurd hfine (lt_irrefl _)
      · exact_mod_cast hge
    have hlt : v / 2 ^ q < (2 ^ 52 : Nat) := (le_abs_self _).trans_lt (hunits ▸ hbelow)
    have hcloser := h.lt_of_lt hge hlt
    exact ⟨hcloser.le, fun heq => absurd heq hcloser.ne⟩

/-- A magnitude is that of a finite double up to the greatest exponent. -/
theorem isFinite_ofMagnitude (negative : Bool) {m : Nat} (hm : m ≤ 2047 * exponentWeight) :
    (ofMagnitude negative m).isFinite = true ↔ m < 2047 * exponentWeight := by
  rw [isFinite_iff, (fields_ofMagnitude negative (hm.trans_lt (by decide))).2.1]
  unfold exponentWeight at *
  omega

/-- A quotient that is not rounded to infinity is rounded to the double closest to it. -/
theorem closest_ofRatio (negative : Bool) {num den : Nat} (hnum : 0 < num) (hden : 0 < den)
    (hfinite : (ofRatio negative num den).isFinite = true) :
    (ofRatio negative num den).Closest ((if negative then -1 else 1) * (num / den)) := by
  obtain ⟨s, hs⟩ : ∃ s : ℚ, s = if negative then -1 else 1 := ⟨_, rfl⟩
  obtain ⟨q, hq⟩ : ∃ q, q = max (floorLog2 num den - 52) (-1074) := ⟨_, rfl⟩
  obtain ⟨m, hm, hrounds, hratio⟩ := exists_significand negative hnum hden
  rw [← hq] at hrounds hratio
  -- Either the grid is the finest one, or the quotient reaches the binade.
  have hreaches : q = -1074 ∨ ((2 ^ 52 : Nat) : ℚ) ≤ num / den / 2 ^ q := by
    by_cases hleast : q = -1074
    · exact .inl hleast
    · right
      have hlog : 52 + q ≤ floorLog2 num den := by omega
      rw [add_le_floorLog2_iff hnum hden] at hlog
      exact_mod_cast hlog
  have hnormal : (q + 1074).toNat = 0 ∨ 2 ^ 52 ≤ m :=
    hreaches.imp (by omega) hrounds.le_of_le
  have hbound : m + (q + 1074).toNat * exponentWeight < 2047 * exponentWeight := by
    rw [hratio, isFinite_ofMagnitude negative (Nat.min_le_right _ _)] at hfinite
    omega
  rw [Nat.min_eq_left hbound.le] at hratio
  obtain ⟨hmagnitude, hparity⟩ := magnitude_ofMagnitude negative hm hnormal hbound
  have hsign := (fields_ofMagnitude negative (hbound.trans (by decide))).1
  rw [← hratio] at hmagnitude hparity hsign
  have hexp : ((q + 1074).toNat : ℤ) - 1074 = q := by omega
  have hvalue : (ofRatio negative num den).value = s * (m * 2 ^ q) := by
    rw [value, hsign, hmagnitude, hexp, hs]
  have hs' : |s| = 1 ∧ s * s = 1 := by
    rw [hs]
    split <;> norm_num
  -- Distances do not see the common sign and are scaled by the unit of the grid.
  have hscale : ∀ v : ℚ, |s * v - s * (num / den)| = |num / den / 2 ^ q - v / 2 ^ q| * 2 ^ q := by
    intro v
    rw [← mul_sub, abs_mul, hs'.1, one_mul, ← sub_div, abs_div, abs_of_pos (two_zpow_pos q),
      div_mul_cancel₀ _ (two_zpow_pos q).ne', abs_sub_comm]
  rw [← hs]
  refine ⟨hfinite, fun y _ => ?_⟩
  obtain ⟨v, hv, habs⟩ : ∃ v, y.value = s * v ∧ |v| = y.magnitude := by
    refine ⟨s * y.value, ?_, ?_⟩
    · rw [← mul_assoc, hs'.2, one_mul]
    · rw [abs_mul, hs'.1, one_mul, abs_value]
  obtain ⟨hle, htie⟩ := hrounds.closest_value hreaches habs
  rw [hvalue, hv, hscale, hscale, mul_div_cancel_right₀ _ (two_zpow_pos q).ne']
  refine ⟨mul_le_mul_of_nonneg_right hle (two_zpow_pos q).le, fun heq => ?_⟩
  rcases htie (mul_right_cancel₀ (two_zpow_pos q).ne' heq) with hsame | heven
  · left
    rw [← hsame, div_mul_cancel₀ _ (two_zpow_pos q).ne']
  · right
    rw [hparity, heven]

/-- Every integer of sixty-four bits is in the range of doubles. -/
theorem isFinite_ofInt {n : Int} (hn : n.natAbs < 2 ^ 64) : (ofInt n).isFinite = true := by
  have hlt : n.natAbs < 2 ^ 64 * 1 := by omega
  have hfield : (ofInt n).exponentField ≤ 1087 := exponentField_ofRatio_le _ Nat.one_pos hlt
  exact isFinite_iff.2 (by omega)

/-- An integer of sixty-four bits becomes the double closest to it. -/
theorem closest_ofInt {n : Int} (hn : n.natAbs < 2 ^ 64) : (ofInt n).Closest n := by
  by_cases hzero : n = 0
  · have hvalue : (ofInt 0).value = 0 := by
      have hmagnitude : (ofInt 0).significand = 0 := by decide
      rw [value, magnitude, hmagnitude, Nat.cast_zero, zero_mul, mul_zero]
    rw [hzero, Closest, hvalue, Int.cast_zero, sub_zero, abs_zero]
    refine ⟨by decide, fun y _ => ⟨abs_nonneg _, fun heq => .inl ?_⟩⟩
    rwa [sub_zero, eq_comm, abs_eq_zero] at heq
  · have hcast : (if n < 0 then -1 else 1) * ((n.natAbs : ℚ) / (1 : Nat)) = n := by
      rw [Nat.cast_one, div_one]
      split
      · rename_i hneg
        rw [Nat.cast_natAbs, abs_of_neg hneg, Int.cast_neg, neg_one_mul, neg_neg]
      · rename_i hpos
        rw [Nat.cast_natAbs, abs_of_nonneg (not_lt.1 hpos), one_mul]
    have hclosest := closest_ofRatio (decide (n < 0)) (Int.natAbs_pos.2 hzero) Nat.one_pos
      (isFinite_ofInt hn)
    simp only [decide_eq_true_eq] at hclosest
    rwa [hcast] at hclosest


/-! ## Decimals -/

/-- No double but zero is smaller than the least one. -/
theorem le_magnitude {y : Double} (hsig : y.significand ≠ 0) : 2 ^ (-1074 : ℤ) ≤ y.magnitude := by
  have hone : (1 : ℚ) ≤ y.significand := by exact_mod_cast Nat.one_le_iff_ne_zero.2 hsig
  have hexp : -1074 ≤ y.exponent := by
    unfold exponent
    omega
  calc (2 : ℚ) ^ (-1074 : ℤ) ≤ 2 ^ y.exponent := zpow_le_zpow_right₀ (by norm_num) hexp
    _ = 1 * 2 ^ y.exponent := (one_mul _).symm
    _ ≤ y.significand * 2 ^ y.exponent :=
        mul_le_mul_of_nonneg_right hone (two_zpow_pos _).le

/-- Zero is the double closest to what is below half of the least one. -/
theorem closest_zero (negative : Bool) {r : ℚ} (hr : 2 * |r| ≤ 2 ^ (-1074 : ℤ)) :
    (zero negative).Closest r := by
  have hzero : (zero negative).isFinite = true ∧ (zero negative).significand = 0 := by
    cases negative <;> decide
  have hvalue : (zero negative).value = 0 := by
    rw [value, magnitude, hzero.2, Nat.cast_zero, zero_mul, mul_zero]
  refine ⟨hzero.1, fun y _ => ⟨?_, fun _ => .inr (by rw [hzero.2])⟩⟩
  rw [hvalue, zero_sub, abs_neg]
  by_cases hsig : y.significand = 0
  · rw [value, magnitude, hsig, Nat.cast_zero, zero_mul, mul_zero, zero_sub, abs_neg]
  · have hleast := le_magnitude hsig
    have htriangle := abs_sub_abs_le_abs_sub y.value r
    rw [abs_value] at htriangle
    linarith

/-- A number with so many digits before the units of its power is below the next power. -/
theorem mul_ten_zpow_lt (c : Nat) (p : ℤ) :
    (c : ℚ) * 10 ^ p < 10 ^ (p + (Nat.toDigits 10 c).length) := by
  have hc : c < 10 ^ (Nat.toDigits 10 c).length :=
    (Nat.length_toDigits_le_iff (by decide) Nat.length_toDigits_pos).1 (le_refl _)
  have hc' : (c : ℚ) < 10 ^ (Nat.toDigits 10 c).length := by exact_mod_cast hc
  rw [zpow_add₀ (by norm_num), zpow_natCast, mul_comm]
  exact mul_lt_mul_of_pos_left hc' (zpow_pos (by norm_num) p)

/-- A decimal that is not rounded to infinity is rounded to the double closest to it. -/
theorem closest_ofDecimal (negative : Bool) (c : Nat) (p : ℤ)
    (hfinite : (ofDecimal negative c p).isFinite = true) :
    (ofDecimal negative c p).Closest ((if negative then -1 else 1) * (c * 10 ^ p)) := by
  have hten : ∀ k, 0 < Nat.pow 10 k := fun k => Nat.pow_pos (by decide)
  by_cases hc : c = 0
  · rw [ofDecimal, if_pos hc, hc, Nat.cast_zero, zero_mul, mul_zero]
    exact closest_zero negative (by rw [abs_zero, mul_zero]; exact (two_zpow_pos _).le)
  have hpos := Nat.pos_of_ne_zero hc
  rw [ofDecimal, if_neg hc] at hfinite ⊢
  dsimp only at hfinite ⊢
  -- Powers of ten beyond the range are not worked out: far above it the result is not finite, and
  -- far below it less than half of the least double is left.
  by_cases hhigh : 310 < p + (Nat.toDigits 10 c).length
  · rw [if_pos hhigh] at hfinite
    cases negative <;> cases hfinite
  rw [if_neg hhigh] at hfinite ⊢
  by_cases hlow : p + (Nat.toDigits 10 c).length < -330
  · rw [if_pos hlow]
    refine closest_zero negative ?_
    have hnonneg : (0 : ℚ) ≤ c * 10 ^ p :=
      mul_nonneg (Nat.cast_nonneg _) (zpow_pos (by norm_num) p).le
    have habs : |(if negative = true then (-1 : ℚ) else 1) * (c * 10 ^ p)| = c * 10 ^ p := by
      split
      · rw [neg_one_mul, abs_neg, abs_of_nonneg hnonneg]
      · rw [one_mul, abs_of_nonneg hnonneg]
    have hpowers : (2 : ℚ) * 10 ^ (-331 : ℤ) ≤ 2 ^ (-1074 : ℤ) := by
      have hnat : 2 * 2 ^ 1074 ≤ 10 ^ 331 := by decide +kernel
      have hcast : (2 : ℚ) * 2 ^ 1074 ≤ 10 ^ 331 := by exact_mod_cast hnat
      rw [zpow_neg, zpow_neg, zpow_ofNat, zpow_ofNat, ← div_eq_mul_inv,
        div_le_iff₀ (by positivity), inv_mul_eq_div, le_div_iff₀ (by positivity)]
      exact hcast
    rw [habs]
    calc 2 * ((c : ℚ) * 10 ^ p) ≤ 2 * 10 ^ (p + (Nat.toDigits 10 c).length) := by
          linarith [mul_ten_zpow_lt c p]
      _ ≤ 2 * 10 ^ (-331 : ℤ) :=
          mul_le_mul_of_nonneg_left (zpow_le_zpow_right₀ (by norm_num) (by omega)) (by norm_num)
      _ ≤ 2 ^ (-1074 : ℤ) := hpowers
  rw [if_neg hlow] at hfinite ⊢
  by_cases hp : 0 ≤ p
  · rw [if_pos hp] at hfinite ⊢
    obtain ⟨k, rfl⟩ := Int.eq_ofNat_of_zero_le hp
    have hclosest := closest_ofRatio negative (Nat.mul_pos hpos (hten _)) Nat.one_pos hfinite
    simpa using hclosest
  · rw [if_neg hp] at hfinite ⊢
    obtain ⟨k, rfl⟩ : ∃ k : Nat, p = -(k : ℤ) := ⟨(-p).toNat, by omega⟩
    have hclosest := closest_ofRatio negative hpos (hten _) hfinite
    simpa [div_eq_mul_inv] using hclosest

end Double
end Espalier
