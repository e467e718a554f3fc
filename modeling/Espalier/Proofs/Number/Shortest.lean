import Espalier.Proofs.Number.Nearest

/-!
# The shortest decimal lies where it should

The search for the fewest digits stops at a decimal inside the rounding interval of the double, at
the seventeenth digit at the latest, and taking off zeros does not move the decimal.  So whoever
rounds it exactly finds the double again.
-/

namespace Espalier
namespace Decimal

open Double (two_zpow_pos shiftLeft_div)

def value (d : Decimal) : ℚ :=
  d.coefficient * 10 ^ d.exponent

theorem ten_zpow_pos (p : Int) : (0 : ℚ) < 10 ^ p :=
  zpow_pos (by norm_num) p

/-! ## Units -/

theorem den_inUnits (num num' den : Nat) (p : Int) :
    (inUnits num den p).2 = (inUnits num' den p).2 := by
  unfold inUnits
  split <;> rfl

theorem den_inUnits_pos (num : Nat) {den : Nat} (hden : 0 < den) (p : Int) :
    0 < (inUnits num den p).2 := by
  unfold inUnits
  split
  · exact Nat.mul_pos hden (Nat.pow_pos (by decide))
  · exact hden

/-- Units change the numbers and not the quotient. -/
theorem inUnits_div (num den : Nat) (p : Int) :
    ((inUnits num den p).1 : ℚ) / (inUnits num den p).2 = num / den / 10 ^ p := by
  unfold inUnits
  split
  · rename_i hp
    obtain ⟨n, rfl⟩ := Int.eq_ofNat_of_zero_le hp
    have hpow : Nat.pow 10 n = 10 ^ n := rfl
    rw [Int.toNat_natCast, hpow, div_div]
    push_cast
    rw [zpow_natCast]
  · rename_i hp
    obtain ⟨n, rfl⟩ : ∃ n : Nat, p = -(n : Int) := ⟨(-p).toNat, by omega⟩
    have hpow : Nat.pow 10 n = 10 ^ n := rfl
    rw [Int.neg_neg, Int.toNat_natCast, hpow, zpow_neg, zpow_natCast, div_inv_eq_mul]
    push_cast
    ring

/-! ## The search -/

/-- Quarters of the last place of a double in units of a power of ten, as the search counts them. -/
def quarters (x : Double) (p : Int) (n : Nat) : Nat × Nat :=
  inUnits (n <<< (x.exponent - 2).toNat) (1 <<< (-(x.exponent - 2)).toNat) p

/-- The test of the search whether a number of units lies in the rounding interval. -/
def inside (x : Double) (p : Int) (c : Nat) : Bool :=
  if x.significand % 2 = 0 then
    (quarters x p (interval x).1).1 ≤ c * (quarters x p (interval x).2.1).2 &&
      c * (quarters x p (interval x).2.1).2 ≤ (quarters x p (interval x).2.2).1
  else
    (quarters x p (interval x).1).1 < c * (quarters x p (interval x).2.1).2 &&
      c * (quarters x p (interval x).2.1).2 < (quarters x p (interval x).2.2).1

theorem den_quarters_pos (x : Double) (p : Int) (n : Nat) : 0 < (quarters x p n).2 := by
  refine den_inUnits_pos _ ?_ p
  rw [Nat.shiftLeft_eq]
  positivity

/-- Comparing with a number of units is comparing in quarters of the last place. -/
theorem quarters_le_iff (x : Double) (p : Int) (n m c : Nat) :
    ((quarters x p n).1 ≤ c * (quarters x p m).2 ↔
        (n : ℚ) ≤ (c : ℚ) * 10 ^ p / 2 ^ (x.exponent - 2)) ∧
      (c * (quarters x p m).2 ≤ (quarters x p n).1 ↔
        (c : ℚ) * 10 ^ p / 2 ^ (x.exponent - 2) ≤ n) := by
  have hden : (quarters x p m).2 = (quarters x p n).2 := den_inUnits _ _ _ _
  have hpos : (0 : ℚ) < (quarters x p n).2 := by exact_mod_cast den_quarters_pos x p n
  have hten := ten_zpow_pos p
  have htwo := two_zpow_pos (x.exponent - 2)
  have hdiv : ((quarters x p n).1 : ℚ) / (quarters x p n).2 =
      n * 2 ^ (x.exponent - 2) / 10 ^ p := by
    rw [quarters, inUnits_div, shiftLeft_div]
  rw [hden]
  constructor
  · rw [le_div_iff₀ htwo, ← div_le_iff₀ hten, ← hdiv, div_le_iff₀ hpos]
    exact_mod_cast Iff.rfl
  · rw [div_le_iff₀ htwo, ← le_div_iff₀ hten, ← hdiv, le_div_iff₀ hpos]
    exact_mod_cast Iff.rfl

/-- The test of the search says whether a number is in the rounding interval. -/
theorem inside_iff (x : Double) (p : Int) (c : Nat) :
    inside x p c = true ↔ x.Near (c * 10 ^ p) := by
  obtain ⟨hlow, hlow'⟩ := quarters_le_iff x p (interval x).1 (interval x).2.1 c
  obtain ⟨hhigh', hhigh⟩ := quarters_le_iff x p (interval x).2.2 (interval x).2.1 c
  unfold inside Double.Near
  dsimp only
  split
  · rw [Bool.and_eq_true, decide_eq_true_iff, decide_eq_true_iff, hlow, hhigh]
  · rw [Bool.and_eq_true, decide_eq_true_iff, decide_eq_true_iff, ← not_le, ← not_le, hlow',
      hhigh', not_le, not_le]

/-- The multiple of a power of ten that is next below a double. -/
def below (x : Double) (p : Int) : Nat :=
  (quarters x p (interval x).2.1).1 / (quarters x p (interval x).2.1).2

/-- The search tries the two neighbours of a double, of which the lower one may not be zero. -/
theorem neighbour?_eq (x : Double) (p : Int) :
    ∃ nearer, (nearer = below x p ∨ nearer = below x p + 1) ∧
      neighbour? x p =
        if below x p ≠ 0 && inside x p (below x p) && inside x p (below x p + 1) then
          some ⟨nearer, p⟩
        else if below x p ≠ 0 && inside x p (below x p) then some ⟨below x p, p⟩
        else if inside x p (below x p + 1) then some ⟨below x p + 1, p⟩
        else none := by
  refine ⟨_, ?_, rfl⟩
  split_ifs
  · exact .inl rfl
  · exact .inr rfl
  · exact .inl rfl
  · exact .inr rfl

/-- A neighbour that is found is not zero and lies in the rounding interval. -/
theorem exists_of_neighbour? {x : Double} {p : Int} {d : Decimal} (h : neighbour? x p = some d) :
    ∃ c, d = ⟨c, p⟩ ∧ c ≠ 0 ∧ inside x p c = true := by
  obtain ⟨nearer, hnearer, heq⟩ := neighbour?_eq x p
  rw [heq] at h
  split_ifs at h with hboth honly habove
  · cases h
    rw [Bool.and_eq_true, Bool.and_eq_true, decide_eq_true_iff] at hboth
    rcases hnearer with rfl | rfl
    · exact ⟨_, rfl, hboth.1.1, hboth.1.2⟩
    · exact ⟨_, rfl, Nat.succ_ne_zero _, hboth.2⟩
  · cases h
    rw [Bool.and_eq_true, decide_eq_true_iff] at honly
    exact ⟨_, rfl, honly.1, honly.2⟩
  · cases h
    exact ⟨_, rfl, Nat.succ_ne_zero _, habove⟩

/-- A neighbour in the rounding interval is found. -/
theorem isSome_neighbour? {x : Double} {p : Int}
    (h : (below x p ≠ 0 ∧ inside x p (below x p) = true) ∨ inside x p (below x p + 1) = true) :
    (neighbour? x p).isSome = true := by
  obtain ⟨nearer, -, heq⟩ := neighbour?_eq x p
  rw [heq]
  split_ifs with hboth honly habove
  · rfl
  · rfl
  · rfl
  · rw [Bool.and_eq_true, decide_eq_true_iff] at honly
    exact absurd h (not_or_intro honly habove)

/-! ## Grids that are fine enough -/

/-- A double lies between its two neighbours. -/
theorem below_le (x : Double) (p : Int) :
    (below x p : ℚ) * 10 ^ p ≤ x.magnitude ∧ x.magnitude < (below x p + 1 : Nat) * 10 ^ p := by
  have hden := den_quarters_pos x p (interval x).2.1
  have hpos : (0 : ℚ) < (quarters x p (interval x).2.1).2 := by exact_mod_cast hden
  have hten := ten_zpow_pos p
  have hdiv : ((quarters x p (interval x).2.1).1 : ℚ) / (quarters x p (interval x).2.1).2 =
      x.magnitude / 10 ^ p := by
    have hmid : (interval x).2.1 = 4 * x.significand := rfl
    rw [quarters, inUnits_div, shiftLeft_div, hmid, Double.magnitude, zpow_sub₀ (by norm_num)]
    push_cast
    ring
  rw [← le_div_iff₀ hten, ← div_lt_iff₀ hten, ← hdiv, le_div_iff₀ hpos, div_lt_iff₀ hpos]
  constructor
  · exact_mod_cast Nat.div_mul_le_self _ _
  · exact_mod_cast (Nat.div_lt_iff_lt_mul hden).1 (Nat.lt_succ_self _)

/-- A grid of the seventeenth digit is fine enough: a neighbour lies in the rounding interval. -/
theorem isSome_neighbour?_of_le {x : Double} (hzero : x.isZero = false) {p : Int}
    (hp : (10 : ℚ) ^ p * 10 ^ 16 ≤ x.magnitude) : (neighbour? x p).isSome = true := by
  have hpos := Double.significand_pos hzero
  have hten := ten_zpow_pos p
  have htwo := two_zpow_pos x.exponent
  obtain ⟨hbelow, habove⟩ := below_le x p
  have hne : below x p ≠ 0 := by
    intro h
    rw [h] at habove
    norm_num at habove
    linarith
  -- The grid and the interval, in units of the last place.
  obtain ⟨m, hm⟩ : ∃ m : ℚ, m = x.significand := ⟨_, rfl⟩
  obtain ⟨unit, hunit⟩ : ∃ unit : ℚ, unit = 10 ^ p / 2 ^ x.exponent := ⟨_, rfl⟩
  obtain ⟨b, hb⟩ : ∃ b : ℚ, b = (below x p : ℚ) * 10 ^ p / 2 ^ x.exponent := ⟨_, rfl⟩
  have hmagnitude : x.magnitude / 2 ^ x.exponent = m := by
    rw [hm, Double.magnitude, mul_div_cancel_right₀ _ htwo.ne']
  have hunitPos : 0 < unit := hunit ▸ div_pos hten htwo
  have hfine : unit * 10 ^ 16 ≤ m := by
    rw [← hmagnitude, hunit, div_mul_eq_mul_div]
    exact (div_le_div_iff_of_pos_right htwo).2 hp
  have hlow : b ≤ m := by
    rw [← hmagnitude, hb]
    exact (div_le_div_iff_of_pos_right htwo).2 hbelow
  have hhigh : m < b + unit := by
    rw [← hmagnitude, hb, hunit, ← add_div]
    refine (div_lt_div_iff_of_pos_right htwo).2 ?_
    push_cast at habove
    linarith
  have hmlt : m < 2 ^ 53 := by
    rw [hm]
    exact_mod_cast Double.significand_lt x
  have hsum : ((below x p + 1 : Nat) : ℚ) * 10 ^ p / 2 ^ x.exponent = b + unit := by
    rw [hb, hunit]
    push_cast
    ring
  refine isSome_neighbour? ?_
  by_cases hover : b + unit < m + 1 / 2
  · -- The upper neighbour is within half of a last place.
    refine .inr ((inside_iff x p _).2 (Double.near_of_lt hpos ?_ ?_))
    · rw [hsum, ← hm]
      split <;> linarith
    · rw [hsum, ← hm]
      exact hover
  · -- The lower one is then closer than half, and the double is not the least of its binade.
    have hedge : ¬ (x.significand = Double.exponentWeight ∧ 1 < x.exponentField) := by
      rintro ⟨hleast, -⟩
      have hm52 : m = 2 ^ 52 := by
        rw [hm, hleast]
        norm_num [Double.exponentWeight]
      linarith
    refine .inl ⟨hne, (inside_iff x p _).2 (Double.near_of_lt hpos ?_ ?_)⟩
    · rw [if_neg hedge, ← hb, ← hm]
      linarith
    · rw [← hb, ← hm]
      linarith

/-! ## Decimal logarithms -/

/-- The test with integers compares a power of ten with the quotient. -/
theorem reaches_iff {num den : Nat} (hden : 0 < den) (e : Int) :
    reaches num den e = true ↔ (10 : ℚ) ^ e ≤ num / den := by
  have hden' : (0 : ℚ) < den := by exact_mod_cast hden
  have hpow : ∀ n, Nat.pow 10 n = 10 ^ n := fun _ => rfl
  rw [reaches, le_div_iff₀ hden']
  split
  · rename_i he
    obtain ⟨n, rfl⟩ := Int.eq_ofNat_of_zero_le he
    rw [decide_eq_true_iff, Int.toNat_natCast, hpow, zpow_natCast, mul_comm]
    exact_mod_cast Iff.rfl
  · rename_i he
    obtain ⟨n, rfl⟩ : ∃ n : Nat, e = -(n : Int) := ⟨(-e).toNat, by omega⟩
    rw [decide_eq_true_iff, Int.neg_neg, Int.toNat_natCast, hpow, zpow_neg, zpow_natCast,
      inv_mul_le_iff₀ (by positivity), mul_comm]
    exact_mod_cast Iff.rfl

/-- The decimal estimate of a binary logarithm exceeds it by one digit at most. -/
theorem estimate_le {l : Int} (hlow : -1100 ≤ l) (hhigh : l ≤ 1100) :
    (10 : ℚ) ^ (l * 30103 / 100000 - 1) ≤ 2 ^ l := by
  have hall : ∀ n ≤ 1100, 10 ^ (n * 30103 / 100000) ≤ 10 * 2 ^ n ∧
      2 ^ n ≤ 10 * 10 ^ ((n * 30103 + 99999) / 100000) := by decide +kernel
  rw [zpow_sub₀ (by norm_num), zpow_one, div_le_iff₀ (by norm_num)]
  rcases Int.eq_nat_or_neg l with ⟨n, rfl | rfl⟩
  · have h := (hall n (by omega)).1
    have he : (n : Int) * 30103 / 100000 = (n * 30103 / 100000 : Nat) := by omega
    have h' : (10 : ℚ) ^ (n * 30103 / 100000) ≤ 10 * 2 ^ n := by exact_mod_cast h
    rw [he, zpow_natCast, zpow_natCast]
    linarith
  · have h := (hall n (by omega)).2
    have he : -(n : Int) * 30103 / 100000 = -((n * 30103 + 99999) / 100000 : Nat) := by omega
    have h' : (2 : ℚ) ^ n ≤ 10 * 10 ^ ((n * 30103 + 99999) / 100000) := by exact_mod_cast h
    rw [he, zpow_neg, zpow_natCast, zpow_neg, zpow_natCast, mul_comm _ (10 : ℚ),
      ← div_eq_mul_inv, le_div_iff₀ (by positivity), inv_mul_le_iff₀ (by positivity)]
    linarith

/-- The power of ten of the first digit is not above the quotient. -/
theorem floorLog10_le {num den : Nat} (hnum : 0 < num) (hden : 0 < den)
    (hlow : -1100 ≤ Double.floorLog2 num den) (hhigh : Double.floorLog2 num den ≤ 1100) :
    (10 : ℚ) ^ floorLog10 num den ≤ num / den := by
  have hlog := (Double.le_floorLog2_iff hnum hden).1 (le_refl (Double.floorLog2 num den))
  have hestimate := (estimate_le hlow hhigh).trans hlog
  unfold floorLog10
  simp only [Bool.not_eq_true']
  split_ifs with hbelow habove
  · exact hestimate
  · exact (reaches_iff hden _).1 habove
  · rw [Bool.not_eq_false] at hbelow
    exact (reaches_iff hden _).1 hbelow

/-! ## The decimal that is found -/

/-- Taking off zeros changes neither the number nor whether it is zero. -/
theorem trimZeros_spec (fuel : Nat) (d : Decimal) :
    (trimZeros fuel d).value = d.value ∧
      ((trimZeros fuel d).coefficient ≠ 0 ↔ d.coefficient ≠ 0) := by
  induction fuel generalizing d with
  | zero => exact ⟨rfl, Iff.rfl⟩
  | succ fuel ih =>
    rw [trimZeros]
    split
    · rename_i h
      obtain ⟨hvalue, hne⟩ := ih ⟨d.coefficient / 10, d.exponent + 1⟩
      have hcoefficient : ((d.coefficient / 10 : Nat) : ℚ) * 10 = d.coefficient := by
        exact_mod_cast Nat.div_mul_cancel (Nat.dvd_of_mod_eq_zero h.1)
      refine ⟨?_, hne.trans ⟨fun _ => h.2, fun hd => ?_⟩⟩
      · rw [hvalue, value, value, zpow_add₀ (by norm_num), zpow_one, ← hcoefficient]
        ring
      · have hsplit := Nat.div_add_mod d.coefficient 10
        show d.coefficient / 10 ≠ 0
        omega
    · exact ⟨rfl, Iff.rfl⟩

/-- The decimal logarithm of a finite double is at most that of its magnitude. -/
theorem floorLog10_le_magnitude {x : Double} (hfinite : x.exponentField ≠ 2047)
    (hzero : x.isZero = false) :
    (10 : ℚ) ^ floorLog10 x.numerator x.denominator ≤ x.magnitude := by
  have hpos := Double.significand_pos hzero
  have hlt := Double.significand_lt x
  have hfield := x.exponentField_lt
  have hnum := Double.numerator_pos hzero
  have hden := x.denominator_pos
  have hexp : -1074 ≤ x.exponent ∧ x.exponent ≤ 971 := by
    unfold Double.exponent
    omega
  have htwo := two_zpow_pos x.exponent
  have hpos' : (1 : ℚ) ≤ x.significand := by exact_mod_cast hpos
  have hlt' : (x.significand : ℚ) < 2 ^ (53 : Int) := by exact_mod_cast hlt
  rw [← Double.numerator_div_denominator]
  -- The estimate of the logarithm holds between two powers of two, which all doubles lie between.
  refine floorLog10_le hnum hden ?_ ?_
  · rw [Double.le_floorLog2_iff hnum hden, Double.numerator_div_denominator, Double.magnitude]
    calc (2 : ℚ) ^ (-1100 : Int) ≤ 2 ^ x.exponent :=
          zpow_le_zpow_right₀ (by norm_num) (by omega)
      _ ≤ x.significand * 2 ^ x.exponent := le_mul_of_one_le_left htwo.le hpos'
  · have hnot : ¬ (1101 : Int) ≤ Double.floorLog2 x.numerator x.denominator := by
      rw [Double.le_floorLog2_iff hnum hden, Double.numerator_div_denominator, Double.magnitude,
        not_le]
      calc (x.significand : ℚ) * 2 ^ x.exponent < 2 ^ (53 : Int) * 2 ^ x.exponent :=
            mul_lt_mul_of_pos_right hlt' htwo
        _ = 2 ^ (53 + x.exponent) := (zpow_add₀ (by norm_num) _ _).symm
        _ ≤ 2 ^ (1101 : Int) := zpow_le_zpow_right₀ (by norm_num) (by omega)
    omega

/-- The decimal that is found for a finite double other than zero is not zero and lies in the
rounding interval. -/
theorem near_shortest {x : Double} (hfinite : x.exponentField ≠ 2047) (hzero : x.isZero = false) :
    (shortest x).coefficient ≠ 0 ∧ x.Near (shortest x).value := by
  obtain ⟨top, htop⟩ : ∃ top, top = floorLog10 x.numerator x.denominator := ⟨_, rfl⟩
  have hlog := floorLog10_le_magnitude hfinite hzero
  rw [← htop] at hlog
  -- The last grid that the search comes to is fine enough.
  have hlast : (neighbour? x (top - (16 : Nat))).isSome = true := by
    refine isSome_neighbour?_of_le hzero ?_
    rw [← zpow_natCast, ← zpow_add₀ (by norm_num)]
    convert hlog using 2
    push_cast
    ring
  obtain ⟨d, hhit⟩ : ∃ d, ((List.range 17).findSome? fun (n : Nat) => neighbour? x (top - n)) =
      some d := by
    rw [← Option.isSome_iff_exists, List.findSome?_isSome_iff]
    exact ⟨16, by decide, hlast⟩
  rcases List.exists_of_findSome?_eq_some hhit with ⟨n, -, hn⟩
  rcases exists_of_neighbour? hn with ⟨c, rfl, hc, hinside⟩
  obtain ⟨hvalue, hne⟩ := trimZeros_spec 17 ⟨c, top - n⟩
  rw [shortest]
  simp only [← htop, hhit, Option.getD_some]
  refine ⟨hne.2 hc, ?_⟩
  rw [hvalue]
  exact (inside_iff x _ c).1 hinside

end Decimal
end Espalier
