import Espalier.Number.Decimal
import Espalier.Proofs.Number.Rounding
import Mathlib.Algebra.Order.Field.Power
import Mathlib.Tactic.FieldSimp
import Mathlib.Tactic.Linarith
import Mathlib.Tactic.NormNum
import Mathlib.Tactic.Positivity
import Mathlib.Tactic.Ring

/-!
# The double nearest to a quotient

Rounding computes with shifts of natural numbers.  Here it is described with rationals: the binary
logarithm is the logarithm of the quotient, a rounded integer is within half of what it is rounded
from, and a quotient inside the rounding interval of a finite double is rounded to that double.
-/

namespace Espalier
namespace Double

/-! ## Binary logarithms -/

theorem two_zpow_pos (e : Int) : (0 : ℚ) < 2 ^ e :=
  zpow_pos (by norm_num) e

/-- A quotient is scaled by a power of two by shifting one of its parts. -/
theorem div_two_zpow (num : Nat) {den : Nat} (hden : 0 < den) (e : Int) :
    (num : ℚ) / den / 2 ^ e =
      if 0 ≤ e then (num : ℚ) / (den <<< e.toNat : Nat)
      else (num <<< (-e).toNat : Nat) / (den : ℚ) := by
  have hden' : (den : ℚ) ≠ 0 := by positivity
  split
  · rename_i he
    obtain ⟨n, rfl⟩ := Int.eq_ofNat_of_zero_le he
    rw [Int.toNat_natCast, Nat.shiftLeft_eq, div_div]
    push_cast
    rw [zpow_natCast]
  · rename_i he
    obtain ⟨n, rfl⟩ : ∃ n : Nat, e = -(n : Int) := ⟨(-e).toNat, by omega⟩
    rw [Int.neg_neg, Int.toNat_natCast, Nat.shiftLeft_eq, zpow_neg, zpow_natCast, div_inv_eq_mul]
    push_cast
    ring

/-- The quotient lies between the powers of two that its parts suggest. -/
theorem log2_bracket {num den : Nat} (hnum : 0 < num) (hden : 0 < den) :
    (2 : ℚ) ^ ((num.log2 : Int) - den.log2 - 1) ≤ (num : ℚ) / den ∧
      (num : ℚ) / den < 2 ^ ((num.log2 : Int) - den.log2 + 1) := by
  have hden' : (0 : ℚ) < den := by exact_mod_cast hden
  have hnumLow : (2 : ℚ) ^ num.log2 ≤ num := by
    exact_mod_cast Nat.log2_self_le hnum.ne'
  have hnumHigh : (num : ℚ) < 2 ^ (num.log2 + 1) := by exact_mod_cast Nat.lt_log2_self
  have hdenLow : (2 : ℚ) ^ den.log2 ≤ den := by exact_mod_cast Nat.log2_self_le hden.ne'
  have hdenHigh : (den : ℚ) < 2 ^ (den.log2 + 1) := by exact_mod_cast Nat.lt_log2_self
  constructor
  · have hexp : (num.log2 : Int) - den.log2 - 1 =
        (num.log2 : Int) - ((den.log2 + 1 : Nat) : Int) := by
      push_cast
      ring
    rw [hexp, zpow_sub₀ (by norm_num), zpow_natCast, zpow_natCast]
    exact div_le_div₀ (by positivity) hnumLow hden' hdenHigh.le
  · have hexp : (num.log2 : Int) - den.log2 + 1 =
        ((num.log2 + 1 : Nat) : Int) - (den.log2 : Int) := by
      push_cast
      ring
    rw [hexp, zpow_sub₀ (by norm_num), zpow_natCast, zpow_natCast]
    exact div_lt_div₀ hnumHigh hdenLow (by positivity) (by positivity)

/-- The binary logarithm is the greatest power of two that the quotient reaches. -/
theorem le_floorLog2_iff {num den : Nat} (hnum : 0 < num) (hden : 0 < den) {e : Int} :
    e ≤ floorLog2 num den ↔ (2 : ℚ) ^ e ≤ num / den := by
  obtain ⟨hlow, hhigh⟩ := log2_bracket hnum hden
  obtain ⟨b, hb⟩ : ∃ b : Int, b = (num.log2 : Int) - den.log2 := ⟨_, rfl⟩
  rw [← hb] at hlow hhigh
  -- The comparison of the shifted parts asks whether the quotient reaches the power.
  have hreaches : (if 0 ≤ b then den <<< b.toNat ≤ num else den ≤ num <<< (-b).toNat) ↔
      (2 : ℚ) ^ b ≤ num / den := by
    have hden' : 0 < den <<< b.toNat := by
      rw [Nat.shiftLeft_eq]
      positivity
    rw [← one_le_div (two_zpow_pos b), div_two_zpow num hden]
    split
    · rw [one_le_div (by exact_mod_cast hden')]
      exact_mod_cast Iff.rfl
    · rw [one_le_div (by exact_mod_cast hden)]
      exact_mod_cast Iff.rfl
  have hmono : ∀ a c : Int, (2 : ℚ) ^ a ≤ 2 ^ c ↔ a ≤ c := fun a c =>
    zpow_le_zpow_iff_right₀ (by norm_num)
  have hfloor : floorLog2 num den = if (2 : ℚ) ^ b ≤ num / den then b else b - 1 := by
    unfold floorLog2
    simp only [← hb]
    exact if_congr hreaches rfl rfl
  rw [hfloor]
  split
  · rename_i h
    constructor
    · exact fun he => ((hmono e b).2 he).trans h
    · intro he
      by_contra hlt
      exact absurd (hhigh.trans_le ((hmono (b + 1) e).2 (by omega))) (not_lt.2 he)
  · rename_i h
    constructor
    · exact fun he => ((hmono e (b - 1)).2 he).trans hlow
    · intro he
      by_contra hlt
      exact h (((hmono b e).2 (by omega)).trans he)

/-- A quotient is below the power of two after its logarithm. -/
theorem lt_floorLog2_succ {num den : Nat} (hnum : 0 < num) (hden : 0 < den) :
    (num : ℚ) / den < 2 ^ (floorLog2 num den + 1) := by
  by_contra h
  have hle := (le_floorLog2_iff hnum hden).2 (not_lt.1 h)
  omega

/-! ## Rounded integers -/

/-- An integer is what a quotient is rounded to if it is within half, and even at the half. -/
theorem roundHalfEven_eq_of_twice {num den m : Nat} (hden : 0 < den)
    (hlow : 2 * (den * m) ≤ 2 * num + den) (hhigh : 2 * num ≤ 2 * (den * m) + den)
    (htie : m % 2 ≠ 0 → 2 * (den * m) < 2 * num + den ∧ 2 * num < 2 * (den * m) + den) :
    roundHalfEven num den = m := by
  obtain ⟨q, hq⟩ : ∃ q, q = num / den := ⟨_, rfl⟩
  obtain ⟨r, hr⟩ : ∃ r, r = num % den := ⟨_, rfl⟩
  have hsplit : den * q + r = num := by rw [hq, hr, Nat.div_add_mod]
  have hlt : r < den := hr ▸ Nat.mod_lt _ hden
  have hle : q ≤ m := by
    by_contra h
    have hmul : den * (m + 1) ≤ den * q := Nat.mul_le_mul_left den (by omega)
    rw [Nat.mul_succ] at hmul
    omega
  have hge : m ≤ q + 1 := by
    by_contra h
    have hmul : den * (q + 1 + 1) ≤ den * m := Nat.mul_le_mul_left den (by omega)
    rw [Nat.mul_succ, Nat.mul_succ] at hmul
    omega
  rw [roundHalfEven, ← hq, ← hr]
  obtain rfl | rfl : m = q ∨ m = q + 1 := by omega
  · split_ifs <;> omega
  · rw [Nat.mul_succ] at hlow hhigh htie
    split_ifs <;> omega

/-- A quotient within half of an integer is rounded to it, at the half itself if it is even. -/
theorem roundHalfEven_eq {num den m : Nat} (hden : 0 < den)
    (hlow : (m : ℚ) - 1 / 2 ≤ num / den) (hhigh : (num : ℚ) / den ≤ m + 1 / 2)
    (htie : m % 2 ≠ 0 → (m : ℚ) - 1 / 2 < num / den ∧ (num : ℚ) / den < m + 1 / 2) :
    roundHalfEven num den = m := by
  have hden' : (0 : ℚ) < den := by exact_mod_cast hden
  refine roundHalfEven_eq_of_twice hden ?_ ?_ fun hodd => ⟨?_, ?_⟩
  · rw [le_div_iff₀ hden'] at hlow
    have h : (2 : ℚ) * (den * m) ≤ 2 * num + den := by linarith
    exact_mod_cast h
  · rw [div_le_iff₀ hden'] at hhigh
    have h : (2 : ℚ) * num ≤ 2 * (den * m) + den := by linarith
    exact_mod_cast h
  · have hlow' := (htie hodd).1
    rw [lt_div_iff₀ hden'] at hlow'
    have h : (2 : ℚ) * (den * m) < 2 * num + den := by linarith
    exact_mod_cast h
  · have hhigh' := (htie hodd).2
    rw [div_lt_iff₀ hden'] at hhigh'
    have h : (2 : ℚ) * num < 2 * (den * m) + den := by linarith
    exact_mod_cast h

theorem roundHalfEven_le {num den c : Nat} (h : num ≤ den * c) : roundHalfEven num den ≤ c := by
  rcases Nat.eq_zero_or_pos den with rfl | hden
  · have hnum : num = 0 := by simpa using h
    simp [roundHalfEven, hnum]
  obtain ⟨q, hq⟩ : ∃ q, q = num / den := ⟨_, rfl⟩
  obtain ⟨r, hr⟩ : ∃ r, r = num % den := ⟨_, rfl⟩
  have hsplit : den * q + r = num := by rw [hq, hr, Nat.div_add_mod]
  have hle : q ≤ c := by
    rw [hq]
    exact Nat.div_le_of_le_mul h
  have hzero : q = c → r = 0 := by
    rintro rfl
    omega
  rw [roundHalfEven, ← hq, ← hr]
  split_ifs <;> omega

/-- Whether a rational is rounded to an integer: it is within half of it, at the half itself if the
integer is even. -/
def Rounds (t : ℚ) (m : Nat) : Prop :=
  |t - m| ≤ 1 / 2 ∧ (|t - m| = 1 / 2 → m % 2 = 0)

/-- Rounding with a tie to even is rounding to within half. -/
theorem rounds_roundHalfEven (num : Nat) {den : Nat} (hden : 0 < den) :
    Rounds ((num : ℚ) / den) (roundHalfEven num den) := by
  obtain ⟨q, hq⟩ : ∃ q, q = num / den := ⟨_, rfl⟩
  obtain ⟨r, hr⟩ : ∃ r, r = num % den := ⟨_, rfl⟩
  have hden' : (0 : ℚ) < den := by exact_mod_cast hden
  have hsplit : (num : ℚ) / den = q + r / den := by
    have hnum : (num : ℚ) = den * q + r := by
      rw [hq, hr]
      exact_mod_cast (Nat.div_add_mod num den).symm
    rw [hnum]
    field_simp
  -- What is left over decides between the two neighbours.
  have hlow : (0 : ℚ) ≤ r / den := by positivity
  have hhigh : (r : ℚ) / den < 1 := by
    rw [div_lt_one hden', hr]
    exact_mod_cast Nat.mod_lt _ hden
  have hleft : |(num : ℚ) / den - q| = r / den := by
    rw [hsplit, add_sub_cancel_left, abs_of_nonneg hlow]
  have hright : |(num : ℚ) / den - (q + 1 : Nat)| = 1 - r / den := by
    rw [hsplit, abs_of_nonpos (by push_cast; linarith)]
    push_cast
    ring
  have hhalf : (r : ℚ) / den < 1 / 2 ↔ 2 * r < den := by
    rw [div_lt_div_iff₀ hden' (by norm_num), one_mul, mul_comm]
    exact_mod_cast Iff.rfl
  have hhalf' : 1 / 2 < (r : ℚ) / den ↔ den < 2 * r := by
    rw [div_lt_div_iff₀ (by norm_num) hden', one_mul, mul_comm]
    exact_mod_cast Iff.rfl
  rw [roundHalfEven, ← hq, ← hr]
  unfold Rounds
  split_ifs with hless hmore heven
  · rw [hleft]
    have hlt := hhalf.2 hless
    exact ⟨hlt.le, fun heq => absurd heq hlt.ne⟩
  · rw [hright]
    have hlt := hhalf'.2 hmore
    exact ⟨by linarith, fun heq => absurd heq (by linarith)⟩
  · rw [hleft]
    exact ⟨not_lt.1 (mt hhalf'.1 hmore), fun _ => heven⟩
  · rw [hright]
    have hge := not_lt.1 (mt hhalf.1 hless)
    exact ⟨by linarith, fun _ => by omega⟩

/-! ## Magnitudes -/

variable {x : Double} {r : ℚ}

theorem exponentField_lt (x : Double) : x.exponentField < 2048 :=
  Nat.mod_lt _ (by decide)

theorem significand_lt (x : Double) : x.significand < 2 ^ 53 := by
  by_cases h : x.exponentField = 0
  · have hsig : x.significand = x.fractionField := by simp [significand, h]
    exact hsig ▸ x.fractionField_lt.trans (by decide)
  · exact (significand_bounds h).2.2

theorem significand_pos (hzero : x.isZero = false) : 0 < x.significand := by
  rw [Nat.pos_iff_ne_zero]
  intro hsig
  by_cases h : x.exponentField = 0
  · have hfraction : x.fractionField = 0 := by simpa [significand, h] using hsig
    rw [(isZero_iff x).2 ⟨h, hfraction⟩] at hzero
    cases hzero
  · have hbounds := (significand_bounds h).2.1
    omega

theorem numerator_pos (hzero : x.isZero = false) : 0 < x.numerator := by
  have hpos := significand_pos hzero
  rw [numerator, Nat.shiftLeft_eq]
  positivity

theorem denominator_pos (x : Double) : 0 < x.denominator := by
  rw [denominator, Nat.shiftLeft_eq]
  positivity

def magnitude (x : Double) : ℚ :=
  x.significand * 2 ^ x.exponent

/-- A number and a power of two as a quotient of natural numbers. -/
theorem shiftLeft_div (n : Nat) (e : Int) :
    ((n <<< e.toNat : Nat) : ℚ) / ((1 <<< (-e).toNat : Nat) : ℚ) = n * 2 ^ e := by
  rcases Int.eq_nat_or_neg e with ⟨k, rfl | rfl⟩
  · simp [Nat.shiftLeft_eq]
  · simp [Nat.shiftLeft_eq, div_eq_mul_inv]

/-- The numerator and the denominator are those of the magnitude. -/
theorem numerator_div_denominator (x : Double) :
    (x.numerator : ℚ) / x.denominator = x.magnitude :=
  shiftLeft_div _ _

/-! ## Rounding intervals -/

/-- Whether a rational lies in the rounding interval of a finite double, whose ends belong to it if
the significand is even. -/
def Near (x : Double) (r : ℚ) : Prop :=
  let t := r / 2 ^ (x.exponent - 2)
  if x.significand % 2 = 0 then ((Decimal.interval x).1 : ℚ) ≤ t ∧ t ≤ (Decimal.interval x).2.2
  else ((Decimal.interval x).1 : ℚ) < t ∧ t < (Decimal.interval x).2.2

theorem div_exponent_sub_two (x : Double) (r : ℚ) :
    r / 2 ^ (x.exponent - 2) = 4 * (r / 2 ^ x.exponent) := by
  rw [zpow_sub₀ (by norm_num)]
  field_simp
  norm_num

/-- The ends of the rounding interval in quarters of the last place. -/
theorem interval_eq (hpos : 0 < x.significand) :
    ((Decimal.interval x).1 : ℚ) = 4 * (if x.significand = exponentWeight ∧ 1 < x.exponentField then
        (x.significand : ℚ) - 1 / 4 else x.significand - 1 / 2) ∧
      ((Decimal.interval x).2.2 : ℚ) = 4 * ((x.significand : ℚ) + 1 / 2) := by
  unfold Decimal.interval
  dsimp only
  constructor
  · split
    · rw [Nat.cast_sub (by omega)]
      push_cast
      ring
    · rw [Nat.cast_sub (by omega)]
      push_cast
      ring
  · push_cast
    ring

/-- The rounding interval in units of the last place. -/
theorem Near.bounds (h : x.Near r) (hpos : 0 < x.significand) :
    (if x.significand = exponentWeight ∧ 1 < x.exponentField then (x.significand : ℚ) - 1 / 4
        else x.significand - 1 / 2) ≤ r / 2 ^ x.exponent ∧
      r / 2 ^ x.exponent ≤ x.significand + 1 / 2 ∧
      (x.significand % 2 ≠ 0 → (x.significand : ℚ) - 1 / 2 < r / 2 ^ x.exponent ∧
        r / 2 ^ x.exponent < x.significand + 1 / 2) := by
  obtain ⟨hlow, hhigh⟩ := interval_eq hpos
  unfold Near at h
  dsimp only at h
  rw [hlow, hhigh, div_exponent_sub_two] at h
  have hedge : (if x.significand = exponentWeight ∧ 1 < x.exponentField then
      (x.significand : ℚ) - 1 / 4 else x.significand - 1 / 2) ≥ x.significand - 1 / 2 := by
    split <;> linarith
  split at h
  · rename_i heven
    exact ⟨by linarith, by linarith, fun hodd => absurd heven hodd⟩
  · exact ⟨by linarith, by linarith, fun _ => ⟨by linarith, by linarith⟩⟩

/-- What lies strictly between the ends of the rounding interval lies in it. -/
theorem near_of_lt (hpos : 0 < x.significand)
    (hlow : (if x.significand = exponentWeight ∧ 1 < x.exponentField then
        (x.significand : ℚ) - 1 / 4 else x.significand - 1 / 2) < r / 2 ^ x.exponent)
    (hhigh : r / 2 ^ x.exponent < x.significand + 1 / 2) : x.Near r := by
  obtain ⟨hlow', hhigh'⟩ := interval_eq hpos
  unfold Near
  dsimp only
  rw [hlow', hhigh', div_exponent_sub_two]
  split
  · exact ⟨by linarith, by linarith⟩
  · exact ⟨by linarith, by linarith⟩

/-- The rounding rule with its grid and its significand given. -/
theorem ofRatio_eq (negative : Bool) {num den m : Nat} {q : Int} (hnum : 0 < num) (hden : 0 < den)
    (hq : max (floorLog2 num den - 52) (-1074) = q)
    (hlow : (m : ℚ) - 1 / 2 ≤ num / den / 2 ^ q) (hhigh : (num : ℚ) / den / 2 ^ q ≤ m + 1 / 2)
    (htie : m % 2 ≠ 0 → (m : ℚ) - 1 / 2 < num / den / 2 ^ q ∧
      (num : ℚ) / den / 2 ^ q < m + 1 / 2) :
    ofRatio negative num den = ofMagnitude negative
      (min (m + (q + 1074).toNat * exponentWeight) (2047 * exponentWeight)) := by
  have hround : (if 0 ≤ q then roundHalfEven num (den <<< q.toNat)
      else roundHalfEven (num <<< (-q).toNat) den) = m := by
    rw [div_two_zpow num hden] at hlow hhigh htie
    split at hlow
    · rename_i hq
      rw [if_pos hq] at hhigh htie ⊢
      refine roundHalfEven_eq ?_ hlow hhigh htie
      rw [Nat.shiftLeft_eq]
      positivity
    · rename_i hq
      rw [if_neg hq] at hhigh htie ⊢
      exact roundHalfEven_eq hden hlow hhigh htie
  rw [ofRatio, if_neg (by omega)]
  simp only [hq, hround]

/-- The binary logarithm of a quotient, read off the quotient in units of a power of two. -/
theorem add_le_floorLog2_iff {num den : Nat} (hnum : 0 < num) (hden : 0 < den) {k e : Int} :
    k + e ≤ floorLog2 num den ↔ (2 : ℚ) ^ k ≤ num / den / 2 ^ e := by
  rw [le_floorLog2_iff hnum hden, le_div_iff₀ (two_zpow_pos e), zpow_add₀ (by norm_num)]

/-- The double with the magnitude of another one and a sign of its own. -/
def signed (x : Double) (negative : Bool) : Double :=
  ofMagnitude negative (x.exponentField * exponentWeight + x.fractionField)

theorem signed_isNegative (x : Double) : x.signed x.isNegative = x :=
  ofMagnitude_fields x

/-- Below the normal binades the grid is the finest one. -/
theorem ofRatio_of_near_subnormal (negative : Bool) (hsubnormal : x.exponentField = 0)
    (hzero : x.isZero = false) {num den : Nat} (hnum : 0 < num) (hden : 0 < den)
    (h : x.Near (num / den)) : ofRatio negative num den = x.signed negative := by
  have hsig : x.significand = x.fractionField := by simp [significand, hsubnormal]
  have hexp : x.exponent = -1074 := by
    rw [exponent, hsubnormal]
    decide
  have hlt : x.significand + 1 ≤ 2 ^ 52 := hsig ▸ x.fractionField_lt
  obtain ⟨hlow, hhigh, htie⟩ := h.bounds (significand_pos hzero)
  rw [if_neg (by omega)] at hlow
  have hlog : ¬ 52 + x.exponent ≤ floorLog2 num den := by
    rw [add_le_floorLog2_iff hnum hden, not_le]
    have hlt' : (x.significand : ℚ) + 1 ≤ 2 ^ 52 := by exact_mod_cast hlt
    calc (num : ℚ) / den / 2 ^ x.exponent ≤ x.significand + 1 / 2 := hhigh
      _ < 2 ^ 52 := by linarith
      _ = 2 ^ (52 : Int) := by norm_num
  have hgrid : max (floorLog2 num den - 52) (-1074) = x.exponent := by omega
  have hbound : x.fractionField ≤ 2047 * exponentWeight :=
    x.fractionField_lt.le.trans (Nat.le_mul_of_pos_left _ (by decide))
  rw [ofRatio_eq negative hnum hden hgrid hlow hhigh htie, hexp, hsig, signed, hsubnormal,
    Int.add_left_neg, Int.toNat_zero, Nat.zero_mul, Nat.add_zero, Nat.zero_add,
    Nat.min_eq_left hbound]

/-- A quotient in the binade of a normal double has the grid of that binade. -/
theorem ofRatio_of_near_grid (negative : Bool) (hfinite : x.exponentField ≠ 2047)
    (hnormal : x.exponentField ≠ 0) {num den : Nat} (hnum : 0 < num) (hden : 0 < den)
    (h : x.Near (num / den)) (hgrid : max (floorLog2 num den - 52) (-1074) = x.exponent) :
    ofRatio negative num den = x.signed negative := by
  obtain ⟨hsig, hsigLow, -⟩ := significand_bounds hnormal
  obtain ⟨hlow, hhigh, htie⟩ := h.bounds (by omega)
  have hlow' : (x.significand : ℚ) - 1 / 2 ≤ num / den / 2 ^ x.exponent := by
    split at hlow <;> linarith
  have hexponent : (x.exponent + 1074).toNat = x.exponentField - 1 := by
    unfold exponent
    omega
  rw [ofRatio_eq negative hnum hden hgrid hlow' hhigh htie, hsig, hexponent,
    magnitude_normal hfinite hnormal, signed]

/-- A quotient that lies below the binade is near to the least double of the binade only, and on
its finer grid it is rounded up to twice the least significand. -/
theorem ofRatio_of_near_below (negative : Bool) (hfinite : x.exponentField ≠ 2047)
    (hfield : 1 < x.exponentField) {num den : Nat} (hnum : 0 < num) (hden : 0 < den)
    (h : x.Near (num / den)) (hbelow : ¬ 52 + x.exponent ≤ floorLog2 num den) :
    ofRatio negative num den = x.signed negative := by
  have hnormal : x.exponentField ≠ 0 := by omega
  obtain ⟨hsig, hsigLow, -⟩ := significand_bounds hnormal
  obtain ⟨hlow, -, -⟩ := h.bounds (by omega)
  have hlt : (num : ℚ) / den / 2 ^ x.exponent < 2 ^ 52 := by
    rw [add_le_floorLog2_iff hnum hden] at hbelow
    exact_mod_cast not_le.1 hbelow
  -- What is near `x` and below its binade is near its least significand, and the grid is twice as
  -- fine there.
  have hleast : x.significand = exponentWeight := by
    by_contra hne
    have hge : 2 ^ 52 + 1 ≤ x.significand := by
      unfold exponentWeight at hne
      omega
    have hge' : (2 : ℚ) ^ 52 + 1 ≤ x.significand := by exact_mod_cast hge
    rw [if_neg fun h => hne h.1] at hlow
    linarith
  have hcast : ((exponentWeight : Nat) : ℚ) = 2 ^ 52 := by norm_num [exponentWeight]
  rw [if_pos ⟨hleast, hfield⟩, hleast, hcast] at hlow
  have hlog : 51 + x.exponent ≤ floorLog2 num den := by
    rw [add_le_floorLog2_iff hnum hden]
    refine le_trans ?_ hlow
    norm_num
  have hgrid : max (floorLog2 num den - 52) (-1074) = x.exponent - 1 := by
    unfold exponent at *
    omega
  have htwice : (num : ℚ) / den / 2 ^ (x.exponent - 1) = 2 * (num / den / 2 ^ x.exponent) := by
    rw [zpow_sub₀ (by norm_num)]
    field_simp
  have hcast' : ((2 * exponentWeight : Nat) : ℚ) = 2 ^ 53 := by norm_num [exponentWeight]
  have hexponent : (x.exponent - 1 + 1074).toNat = x.exponentField - 2 := by
    unfold exponent
    omega
  have hsum : 2 * exponentWeight + (x.exponentField - 2) * exponentWeight =
      x.fractionField + exponentWeight + (x.exponentField - 1) * exponentWeight := by
    unfold exponentWeight at *
    omega
  rw [ofRatio_eq negative (m := 2 * exponentWeight) hnum hden hgrid
    (by rw [htwice, hcast']; linarith) (by rw [htwice, hcast']; linarith)
    (fun hodd => absurd (Nat.mul_mod_right 2 _) hodd), hexponent, hsum,
    magnitude_normal hfinite hnormal, signed]

/-- A quotient is rounded to a significand, at most the one that carries into the next binade. -/
theorem exists_significand (negative : Bool) {num den : Nat} (hnum : 0 < num) (hden : 0 < den) :
    ∃ m ≤ 2 ^ 53, Rounds (num / den / 2 ^ max (floorLog2 num den - 52) (-1074)) m ∧
      ofRatio negative num den = ofMagnitude negative
        (min (m + (max (floorLog2 num den - 52) (-1074) + 1074).toNat * exponentWeight)
          (2047 * exponentWeight)) := by
  obtain ⟨q, hq⟩ : ∃ q, q = max (floorLog2 num den - 52) (-1074) := ⟨_, rfl⟩
  -- On the grid of the binade the quotient is below `2 ^ 53`, and so is what it rounds to.
  have hlt : (num : ℚ) / den / 2 ^ q < 2 ^ 53 := by
    rw [div_lt_iff₀ (two_zpow_pos q), ← zpow_natCast, ← zpow_add₀ (by norm_num)]
    refine (lt_floorLog2_succ hnum hden).trans_le (zpow_le_zpow_right₀ (by norm_num) ?_)
    push_cast
    omega
  have hpos : (0 : ℚ) < den := by exact_mod_cast hden
  rw [ofRatio, if_neg (by omega)]
  simp only [← hq]
  refine ⟨_, ?_, ?_, rfl⟩
  · rw [div_two_zpow num hden] at hlt
    split
    · rename_i hle
      rw [if_pos hle, div_lt_iff₀' ?_] at hlt
      · refine roundHalfEven_le ?_
        exact_mod_cast hlt.le
      · rw [Nat.shiftLeft_eq]
        push_cast
        positivity
    · rename_i hnot
      rw [if_neg hnot, div_lt_iff₀' hpos] at hlt
      refine roundHalfEven_le ?_
      exact_mod_cast hlt.le
  · rw [div_two_zpow num hden]
    split
    · refine rounds_roundHalfEven num ?_
      rw [Nat.shiftLeft_eq]
      positivity
    · exact rounds_roundHalfEven _ hden

/-- A quotient below `2 ^ k` is rounded to at most `2 ^ k`. -/
theorem exponentField_ofRatio_le (negative : Bool) {num den k : Nat} (hden : 0 < den)
    (h : num < 2 ^ k * den) : (ofRatio negative num den).exponentField ≤ k + 1023 := by
  rcases Nat.eq_zero_or_pos num with rfl | hnum
  · have hzero : ofRatio negative 0 den = zero negative := by
      rw [ofRatio, if_pos (.inl rfl)]
    have hfield : (zero negative).exponentField = 0 := by cases negative <;> decide
    rw [hzero, hfield]
    exact Nat.zero_le _
  obtain ⟨m, hm, -, hratio⟩ := exists_significand negative hnum hden
  have hlog : ¬ (k : Int) ≤ floorLog2 num den := by
    rw [le_floorLog2_iff hnum hden, not_le, div_lt_iff₀ (by exact_mod_cast hden)]
    exact_mod_cast h
  obtain ⟨q, hq⟩ : ∃ q, q = (max (floorLog2 num den - 52) (-1074) + 1074).toNat := ⟨_, rfl⟩
  have hqle : q ≤ k + 1021 := by omega
  rw [← hq] at hratio
  rw [hratio, (fields_ofMagnitude negative (Nat.lt_of_le_of_lt (Nat.min_le_right _ _)
    (by decide))).2.1]
  unfold exponentWeight
  omega

/-- A rational is rounded to one integer only. -/
theorem Rounds.eq {t : ℚ} {m m' : Nat} (h : Rounds t m) (h' : Rounds t m') : m = m' := by
  obtain ⟨hlow, hhigh⟩ := abs_le.1 h.1
  obtain ⟨hlow', hhigh'⟩ := abs_le.1 h'.1
  have hle : m ≤ m' + 1 := by
    have hle : (m : ℚ) ≤ m' + 1 := by linarith
    exact_mod_cast hle
  have hle' : m' ≤ m + 1 := by
    have hle : (m' : ℚ) ≤ m + 1 := by linarith
    exact_mod_cast hle
  by_contra hne
  -- Between neighbours there is only the tie, and one of them is odd.
  have heven : m % 2 = 0 ∧ m' % 2 = 0 := by
    rcases Nat.lt_or_ge m m' with hlt | hge
    · have hm' : (m' : ℚ) = m + 1 := by exact_mod_cast (show m' = m + 1 by omega)
      refine ⟨h.2 ?_, h'.2 ?_⟩
      · rw [abs_of_nonneg (by linarith)]
        linarith
      · rw [abs_of_nonpos (by linarith)]
        linarith
    · have hm : (m : ℚ) = m' + 1 := by exact_mod_cast (show m = m' + 1 by omega)
      refine ⟨h.2 ?_, h'.2 ?_⟩
      · rw [abs_of_nonpos (by linarith)]
        linarith
      · rw [abs_of_nonneg (by linarith)]
        linarith
  omega

/-- Quotients of one value are rounded alike. -/
theorem ofRatio_congr (negative : Bool) {num den num' den' : Nat} (hnum : 0 < num) (hden : 0 < den)
    (hnum' : 0 < num') (hden' : 0 < den') (h : (num : ℚ) / den = num' / den') :
    ofRatio negative num den = ofRatio negative num' den' := by
  have hlog : floorLog2 num den = floorLog2 num' den' := by
    refine le_antisymm ?_ ?_
    · rw [le_floorLog2_iff hnum' hden', ← h, ← le_floorLog2_iff hnum hden]
    · rw [le_floorLog2_iff hnum hden, h, ← le_floorLog2_iff hnum' hden']
  obtain ⟨m, -, hm, hratio⟩ := exists_significand negative hnum hden
  obtain ⟨m', -, hm', hratio'⟩ := exists_significand negative hnum' hden'
  rw [← h, ← hlog] at hm'
  rw [hratio, hratio', hm.eq hm', hlog]

/-- A quotient in the rounding interval of a finite double is rounded to its magnitude. -/
theorem ofRatio_of_near (negative : Bool) (hfinite : x.exponentField ≠ 2047)
    (hzero : x.isZero = false) {num den : Nat} (hnum : 0 < num) (hden : 0 < den)
    (h : x.Near (num / den)) : ofRatio negative num den = x.signed negative := by
  by_cases hnormal : x.exponentField = 0
  · exact ofRatio_of_near_subnormal negative hnormal hzero hnum hden h
  have hfield := x.exponentField_lt
  have hexp : x.exponent = x.exponentField - 1075 := by
    unfold exponent
    omega
  have hhigh : ¬ 53 + x.exponent ≤ floorLog2 num den := by
    have hlt : (x.significand : ℚ) + 1 ≤ 2 ^ 53 := by exact_mod_cast x.significand_lt
    rw [add_le_floorLog2_iff hnum hden, not_le]
    calc (num : ℚ) / den / 2 ^ x.exponent ≤ x.significand + 1 / 2 :=
          (h.bounds (significand_pos hzero)).2.1
      _ < 2 ^ 53 := by linarith
      _ = 2 ^ (53 : Int) := by norm_num
  by_cases hgrid : max (floorLog2 num den - 52) (-1074) = x.exponent
  · exact ofRatio_of_near_grid negative hfinite hnormal hnum hden h hgrid
  · exact ofRatio_of_near_below negative hfinite (by omega) hnum hden h (by omega)

end Double
end Espalier
