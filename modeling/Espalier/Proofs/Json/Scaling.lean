import Espalier.Proofs.Json.Doubles
import Espalier.Proofs.Number.Closest

/-!
# How a JSON number is scaled

What the reader of JSON makes of a numeral other than an integer.  The result is finite whenever
there is one, since only a multiplication could pass the largest double and that is refused.  If the
digits make a number below `2 ^ 53` and the power of ten is at most the twenty-second, both are
exact as doubles, so the one product or quotient is the double nearest to the written number.
-/

namespace Espalier

namespace Json.Numeral

open Double

/-! ## Powers of ten -/

/-- The powers of ten that a double can hold are positive and finite. -/
theorem powerOfTen_spec {k : Nat} (h : k ≤ 308) :
    (powerOfTen k).isFinite = true ∧ (powerOfTen k).isNegative = false ∧
      (powerOfTen k).isZero = false := by
  have hall : ∀ k ≤ 308, (powerOfTen k).isFinite = true ∧ (powerOfTen k).isNegative = false ∧
      (powerOfTen k).isZero = false := by decide +kernel
  exact hall k h

/-- Up to the twenty-second, powers of ten are doubles. -/
theorem magnitude_powerOfTen {k : Nat} (h : k ≤ 22) : (powerOfTen k).magnitude = 10 ^ k := by
  have hall : ∀ k ≤ 22, (powerOfTen k).numerator = 10 ^ k * (powerOfTen k).denominator := by
    decide +kernel
  have hpos : (0 : ℚ) < (powerOfTen k).denominator := by exact_mod_cast denominator_pos _
  rw [← numerator_div_denominator, div_eq_iff hpos.ne']
  exact_mod_cast hall k h

/-- The rounded powers of ten from the first on are not below two. -/
theorem two_mul_denominator_le {k : Nat} (hpos : 1 ≤ k) (h : k ≤ 308) :
    2 * (powerOfTen k).denominator ≤ (powerOfTen k).numerator := by
  have hall : ∀ k ≤ 307,
      2 * (powerOfTen (k + 1)).denominator ≤ (powerOfTen (k + 1)).numerator := by
    decide +kernel
  obtain ⟨k, rfl⟩ : ∃ j, k = j + 1 := ⟨k - 1, by omega⟩
  exact hall k (by omega)

/-! ## Significands -/

/-- The significand never outgrows sixty-four bits. -/
theorem takeDigits_lt {m : Nat} (hm : m < UInt64.size) (ds : List Char) :
    (takeDigits m ds).1 < UInt64.size := by
  induction ds generalizing m with
  | nil => exact hm
  | cons d ds ih =>
    rw [takeDigits]
    split
    · rename_i h
      exact ih h
    · exact hm

/-- Digits that make a number of sixty-four bits are all taken. -/
theorem takeDigits_eq {m : Nat} {ds : List Char}
    (h : m * 10 ^ ds.length + Ascii.decimalValue ds < UInt64.size) :
    takeDigits m ds = (m * 10 ^ ds.length + Ascii.decimalValue ds, []) := by
  induction ds generalizing m with
  | nil => simp [takeDigits, Ascii.decimalValue]
  | cons d ds ih =>
    have hcons : Ascii.decimalValue (d :: ds) =
        (d.toNat - '0'.toNat) * 10 ^ ds.length + Ascii.decimalValue ds := by
      rw [← List.singleton_append, Ascii.decimalValue_append]
      simp [Ascii.decimalValue]
    have hsum : m * 10 ^ (d :: ds).length + Ascii.decimalValue (d :: ds) =
        (m * 10 + (d.toNat - '0'.toNat)) * 10 ^ ds.length + Ascii.decimalValue ds := by
      rw [hcons, List.length_cons]
      ring
    rw [hsum] at h ⊢
    have hnext : m * 10 + (d.toNat - '0'.toNat) < UInt64.size := by
      have hpow : 0 < 10 ^ ds.length := Nat.pow_pos (by decide)
      have hle := Nat.le_mul_of_pos_right (m * 10 + (d.toNat - '0'.toNat)) hpow
      omega
    rw [takeDigits]
    simp only [hnext, if_true]
    exact ih h

def mantissa (n : Numeral) : Nat :=
  Ascii.decimalValue (n.whole ++ n.fraction)

def writtenExponent (n : Numeral) : Int :=
  match n.exponent with
  | none => 0
  | some (negative, ds) =>
    if negative then -(Ascii.decimalValue ds : Int) else Ascii.decimalValue ds

/-- The power of ten that the last digit stands for. -/
def scale (n : Numeral) : Int :=
  n.writtenExponent - n.fraction.length

/-- A significand that fits takes in all digits. -/
theorem significand_eq {n : Numeral} (h : n.mantissa < UInt64.size) :
    n.significand = (n.mantissa, -(n.fraction.length : Int)) := by
  have hsum : n.mantissa = Ascii.decimalValue n.whole * 10 ^ n.fraction.length +
      Ascii.decimalValue n.fraction := Ascii.decimalValue_append _ _
  have hwhole : takeDigits 0 n.whole = (Ascii.decimalValue n.whole, []) := by
    have hle := Nat.le_mul_of_pos_right (Ascii.decimalValue n.whole)
      (Nat.pow_pos (n := n.fraction.length) (show 0 < 10 by decide))
    have htake : takeDigits 0 n.whole =
        (0 * 10 ^ n.whole.length + Ascii.decimalValue n.whole, []) := takeDigits_eq (by omega)
    rwa [Nat.zero_mul, Nat.zero_add] at htake
  rw [significand, hwhole]
  dsimp only
  rw [takeDigits_eq (hsum ▸ h), ← hsum]
  simp

theorem scaleExponent_eq {n : Numeral} (hscale : -1000 ≤ n.scale ∧ n.scale ≤ 1000)
    (hlength : n.fraction.length ≤ 1000) :
    scaleExponent (-(n.fraction.length : Int)) n.exponent = .ok n.scale := by
  have hmax : Int32.maxValue.toInt = 2147483647 := by decide
  have hmin : Int32.minValue.toInt = -2147483648 := by decide
  unfold scale writtenExponent at *
  cases hexponent : n.exponent with
  | none =>
    rw [scaleExponent, Int.zero_sub]
  | some e =>
    rcases e with ⟨negative, ds⟩
    rw [hexponent] at hscale
    simp only at hscale
    rw [scaleExponent]
    simp only [clampExponent, hmax, hmin]
    cases negative
    · simp only [Bool.false_eq_true, if_false] at hscale ⊢
      rw [if_neg (by omega)]
      congr 1
      omega
    · simp only [if_true] at hscale ⊢
      rw [if_neg (by omega)]
      congr 1
      omega

/-! ## Every result is finite -/

/-- Dividing by a power of ten never makes a double greater. -/
theorem exponentField_divideDown {x : Double} (hx : x.exponentField ≤ 1087) (steps : Nat) :
    (divideDown steps x).exponentField ≤ 1087 := by
  induction steps generalizing x with
  | zero => exact hx
  | succ steps ih =>
    rw [divideDown]
    split
    · exact hx
    · obtain ⟨hfinite, -, hzero⟩ := powerOfTen_spec (k := 308) (by decide)
      exact ih (exponentField_div_le hx hfinite hzero
        (two_mul_denominator_le (by decide) (by decide)))

/-- Only a product can be infinite, and the reader refuses it; quotients start below `2 ^ 64` and go
down. -/
theorem isFinite_of_scaled? {m : Nat} (hm : m < UInt64.size) {e : Int} {x : Double}
    (h : scaled? m e = some x) : x.isFinite = true := by
  have hfield : (Double.ofNat m).exponentField ≤ 1087 := exponentField_ofNat_le hm
  have hfinite : (Double.ofNat m).isFinite = true := isFinite_iff.2 (by omega)
  unfold scaled? at h
  dsimp only at h
  split_ifs at h with hlarge hzero hpos hinfinite
  · cases h
    exact hfinite
  · cases h
    rw [Bool.not_eq_true] at hinfinite
    rw [mul_eq hfinite (powerOfTen_spec (by omega)).1] at hinfinite ⊢
    exact isFinite_ofRatio _ _ _ hinfinite
  · cases h
    -- What is left after the steps of `308` is between one and `308`.
    obtain ⟨n, hn⟩ : ∃ n, n = (-e).toNat := ⟨_, rfl⟩
    have hsteps : 308 * ((n - 1) / 308) + 1 ≤ n ∧ n ≤ 308 * ((n - 1) / 308) + 308 := by omega
    rw [← hn]
    obtain ⟨hfinite', -, hzero⟩ := powerOfTen_spec (k := n - 308 * ((n - 1) / 308)) (by omega)
    have hle := exponentField_div_le (exponentField_divideDown hfield ((n - 1) / 308)) hfinite'
      hzero (two_mul_denominator_le (by omega) (by omega))
    exact isFinite_iff.2 (by omega)

/-- The magnitude of a numeral, before the sign. -/
def magnitude? (n : Numeral) : Option Double :=
  match scaleExponent n.significand.2 n.exponent with
  | .ok e => scaled? n.significand.1 e
  | .error negative =>
    if n.significand.1 ≠ 0 ∧ !negative then none else some (Double.zero false)

/-- The sign of a number is put on after scaling. -/
theorem double?_eq (n : Numeral) :
    n.double? = n.magnitude?.map fun x => if n.negative then x.negate else x := by
  unfold double? magnitude?
  dsimp only
  generalize scaleExponent n.significand.2 n.exponent = r
  cases r with
  | ok e =>
    dsimp only
    cases scaled? n.significand.1 e <;> rfl
  | error negative =>
    dsimp only
    split <;> rfl

/-- A number with a point or an exponent is read as a finite double, if it is read at all. -/
theorem isFinite_of_double? {n : Numeral} {x : Double} (h : n.double? = some x) :
    x.isFinite = true := by
  rw [double?_eq, Option.map_eq_some_iff] at h
  rcases h with ⟨y, hy, rfl⟩
  have hfinite : y.isFinite = true := by
    unfold magnitude? at hy
    split at hy
    · exact isFinite_of_scaled? (takeDigits_lt (takeDigits_lt (by decide) _) _) hy
    · split_ifs at hy
      cases hy
      decide
  split
  · rw [isFinite_negate, hfinite]
  · exact hfinite

/-! ## Small numbers are exact -/

/-- A numeral of a number below `2 ^ 53` and a power of ten that is exact as a double. -/
def Brief (n : Numeral) : Prop :=
  n.mantissa < 2 ^ 53 ∧ -22 ≤ n.scale ∧ n.scale ≤ 22

instance (n : Numeral) : Decidable n.Brief :=
  inferInstanceAs (Decidable (_ ∧ _ ∧ _))

/-- The digits are few, so the decimal is one quotient. -/
theorem ofDecimal_eq (negative : Bool) {m : Nat} (hpos : m ≠ 0) (hm : m < 2 ^ 53) {e : Int}
    (he : -22 ≤ e ∧ e ≤ 22) :
    Double.ofDecimal negative m e =
      if 0 ≤ e then Double.ofRatio negative (m * Nat.pow 10 e.toNat) 1
      else Double.ofRatio negative m (Nat.pow 10 (-e).toNat) := by
  have hlength : (Nat.toDigits 10 m).length ≤ 16 :=
    (Nat.length_toDigits_le_iff (by decide) (by decide)).2 (hm.trans (by decide))
  unfold Double.ofDecimal
  dsimp only
  rw [if_neg hpos, if_neg (by omega), if_neg (by omega)]

theorem scaled?_zero {e : Int} (he : -22 ≤ e ∧ e ≤ 22) :
    scaled? 0 e = some (Double.zero false) := by
  have hall : ∀ k ≤ 44, scaled? 0 ((k : Nat) - 22 : Int) = some (Double.zero false) := by
    decide +kernel
  have hshift : (((e + 22).toNat : Nat) - 22 : Int) = e := by omega
  exact hshift ▸ hall (e + 22).toNat (by omega)

/-- One exact number times or by another is rounded once. -/
theorem scaled?_eq {m : Nat} (hpos : m ≠ 0) (hm : m < 2 ^ 53) {e : Int} (he : -22 ≤ e ∧ e ≤ 22) :
    scaled? m e = some (Double.ofDecimal false m e) := by
  obtain ⟨hvalue, hmfinite, hmsign⟩ := magnitude_ofNat hpos hm
  have hmzero : (Double.ofNat m).isZero = false := isZero_ofRatio_one false hpos
  have hten : ∀ k, 0 < Nat.pow 10 k := fun k => Nat.pow_pos (by decide)
  rw [ofDecimal_eq false hpos hm he]
  unfold scaled?
  dsimp only
  rw [if_neg (by omega)]
  split
  · rename_i hle
    obtain ⟨k, rfl⟩ := Int.eq_ofNat_of_zero_le hle
    have hk : k ≤ 22 := by omega
    obtain ⟨hkfinite, hksign, hkzero⟩ := powerOfTen_spec (k := k) (by omega)
    have hmul : (Double.ofNat m).mul (powerOfTen k) =
        Double.ofRatio false (m * Nat.pow 10 k) 1 := by
      rw [mul_eq hmfinite hkfinite, hmsign, hksign]
      refine ofRatio_congr false (Nat.mul_pos (numerator_pos hmzero) (numerator_pos hkzero))
        (Nat.mul_pos (denominator_pos _) (denominator_pos _))
        (Nat.mul_pos (Nat.pos_of_ne_zero hpos) (hten k)) Nat.one_pos ?_
      rw [product_eq, hvalue, magnitude_powerOfTen hk]
      simp
    have hsmall : m * Nat.pow 10 k < 2 ^ 127 * 1 := by
      calc m * 10 ^ k < 2 ^ 53 * 10 ^ k := Nat.mul_lt_mul_of_pos_right hm (hten k)
        _ ≤ 2 ^ 53 * 10 ^ 22 := Nat.mul_le_mul_left _ (Nat.pow_le_pow_right (by decide) hk)
        _ < 2 ^ 127 * 1 := by decide
    have hfield := exponentField_ofRatio_le false Nat.one_pos hsmall
    rw [Int.toNat_natCast, hmul, isInfinite_of_isFinite (isFinite_iff.2 (by omega))]
    rfl
  · rename_i hnot
    obtain ⟨k, rfl⟩ : ∃ k : Nat, e = -(k : Int) := ⟨(-e).toNat, by omega⟩
    obtain ⟨hkfinite, hksign, hkzero⟩ := powerOfTen_spec (k := k) (by omega)
    have hsteps : (k - 1) / 308 = 0 := by omega
    -- The power is small, so one division is made and not several.
    rw [Int.neg_neg, Int.toNat_natCast, hsteps, divideDown, Nat.mul_zero, Nat.sub_zero,
      div_eq hmfinite hkfinite hkzero, hmsign, hksign]
    congr 1
    refine ofRatio_congr false (Nat.mul_pos (numerator_pos hmzero) (denominator_pos _))
      (Nat.mul_pos (denominator_pos _) (numerator_pos hkzero)) (Nat.pos_of_ne_zero hpos)
      (hten k) ?_
    rw [quotient_eq, hvalue, magnitude_powerOfTen (by omega)]
    simp

def nearest (n : Numeral) : Double :=
  Double.ofDecimal n.negative n.mantissa n.scale

/-- A brief numeral is rounded once, whatever its sign. -/
theorem double?_of_brief {n : Numeral} (hbrief : n.Brief) (hlength : n.fraction.length ≤ 1000) :
    n.double? = some n.nearest := by
  obtain ⟨hmantissa, hscale⟩ := hbrief
  have hsize : n.mantissa < UInt64.size := hmantissa.trans (by decide)
  have hmagnitude : n.magnitude? = some (Double.ofDecimal false n.mantissa n.scale) := by
    rw [magnitude?, significand_eq hsize]
    dsimp only
    rw [scaleExponent_eq (by omega) hlength]
    by_cases hzero : n.mantissa = 0
    · rw [hzero, Double.ofDecimal, if_pos rfl]
      exact scaled?_zero hscale
    · exact scaled?_eq hzero hmantissa hscale
  rw [double?_eq, hmagnitude, Option.map_some, nearest]
  cases n.negative with
  | false => rw [if_neg Bool.false_ne_true]
  | true => rw [if_pos rfl, negate_ofDecimal]

/-- A brief numeral in the rounding interval of a double is nearest to that double. -/
theorem nearest_of_near {n : Numeral} (hbrief : n.Brief) {x : Double} (hfinite : x.isFinite = true)
    (hzero : x.isZero = false) (hsign : n.negative = x.isNegative)
    (h : x.Near (n.mantissa * 10 ^ n.scale)) : n.nearest = x := by
  obtain ⟨hmantissa, hscale⟩ := hbrief
  have hfield := isFinite_iff.1 hfinite
  have hten : ∀ k, 0 < Nat.pow 10 k := fun k => Nat.pow_pos (by decide)
  -- Zero is below every rounding interval but its own.
  have hpos : n.mantissa ≠ 0 := by
    intro hm
    have hsig : (1 : ℚ) ≤ x.significand := by exact_mod_cast significand_pos hzero
    have hlow := (h.bounds (significand_pos hzero)).1
    rw [hm, Nat.cast_zero, zero_mul, zero_div] at hlow
    split at hlow <;> linarith
  have hsigned : n.nearest = x.signed n.negative := by
    rw [nearest, ofDecimal_eq _ hpos hmantissa hscale]
    split
    · rename_i hle
      refine ofRatio_of_near _ hfield hzero (Nat.mul_pos (Nat.pos_of_ne_zero hpos) (hten _))
        Nat.one_pos ?_
      rw [← Int.toNat_of_nonneg hle, zpow_natCast] at h
      simpa using h
    · rename_i hnot
      refine ofRatio_of_near _ hfield hzero (Nat.pos_of_ne_zero hpos) (hten _) ?_
      have hneg : n.scale = -((-n.scale).toNat : Int) := by omega
      rw [hneg, zpow_neg, zpow_natCast, ← div_eq_mul_inv] at h
      simpa using h
  rw [hsigned, hsign, signed_isNegative]

end Json.Numeral

/-! ## Brief doubles -/

namespace Decimal.SetOut

variable {negative : Bool} {c : Nat} {p : Int} {n : Json.Numeral}

/-- However a decimal is set out, the numeral denotes it. -/
theorem value_eq (h : SetOut negative (Nat.toDigits 10 c) p n) :
    (n.mantissa : ℚ) * 10 ^ n.scale = c * 10 ^ p := by
  have hc := Ascii.decimalValue_toDigits c
  unfold Json.Numeral.mantissa Json.Numeral.scale Json.Numeral.writtenExponent
  cases h with
  | below k hp =>
    have hmantissa : Ascii.decimalValue (['0'] ++ (List.replicate k '0' ++ Nat.toDigits 10 c)) =
        c := by
      rw [Ascii.decimalValue_append, Ascii.decimalValue_append, Ascii.decimalValue_replicate_zero,
        hc]
      simp [Ascii.decimalValue]
    have hscale : 0 - ((List.replicate k '0' ++ Nat.toDigits 10 c).length : Int) = p := by
      rw [List.length_append, List.length_replicate]
      omega
    rw [hmantissa, hscale]
  | above k hp =>
    have hmantissa : Ascii.decimalValue (Nat.toDigits 10 c ++ List.replicate k '0' ++ ['0']) =
        c * 10 ^ k * 10 := by
      rw [Ascii.decimalValue_append, Ascii.decimalValue_append, Ascii.decimalValue_replicate_zero,
        hc, List.length_replicate]
      simp [Ascii.decimalValue]
    have hscale : 0 - ((['0'] : List Char).length : Int) = -1 := rfl
    rw [hmantissa, hscale, hp, zpow_natCast, zpow_neg, zpow_one]
    push_cast
    ring
  | across k hpos hlt hp =>
    have hscale : 0 - (((Nat.toDigits 10 c).drop k).length : Int) = p := by
      rw [List.length_drop]
      omega
    rw [List.take_append_drop, hc, hscale]
  | powered e hp =>
    have hlength : 0 < (Nat.toDigits 10 c).length := Nat.length_toDigits_pos
    have hscale : (if decide (e < 0) = true then
        -(Ascii.decimalValue (Nat.toDigits 10 e.natAbs) : Int)
        else Ascii.decimalValue (Nat.toDigits 10 e.natAbs)) -
          (((Nat.toDigits 10 c).drop 1).length : Int) = p := by
      rw [Ascii.decimalValue_toDigits, List.length_drop]
      simp only [decide_eq_true_eq]
      split <;> omega
    dsimp only
    rw [List.take_append_drop, hc, hscale]

/-- A brief numeral has no long fraction. -/
theorem length_fraction_le (h : SetOut negative (Nat.toDigits 10 c) p n) (hbrief : n.Brief) :
    n.fraction.length ≤ 1000 := by
  obtain ⟨hmantissa, hlow, -⟩ := hbrief
  unfold Json.Numeral.scale Json.Numeral.writtenExponent at hlow
  cases h with
  | below k hp =>
    dsimp only at hlow ⊢
    omega
  | above k hp =>
    dsimp only at hlow ⊢
    omega
  | across k hpos hlt hp =>
    dsimp only at hlow ⊢
    omega
  | powered e hp =>
    have hc : c < 10 ^ 16 := by
      unfold Json.Numeral.mantissa at hmantissa
      dsimp only at hmantissa
      rw [List.take_append_drop, Ascii.decimalValue_toDigits] at hmantissa
      omega
    have hlength := (Nat.length_toDigits_le_iff (by decide) (by decide)).2 hc
    rw [List.length_drop]
    omega

end Decimal.SetOut

namespace Double

/-- A finite double whose numeral is brief is read back. -/
theorem double?_numeral_of_brief {x : Double} (hfinite : x.isFinite = true)
    (h : x.numeral.Brief) : x.numeral.double? = some x := by
  by_cases hzero : x.isZero = true
  · obtain ⟨hfield, hfraction⟩ := (isZero_iff x).1 hzero
    have hx : zero x.isNegative = x := by
      have hfields := x.ofMagnitude_fields
      rwa [hfield, hfraction] at hfields
    have hread : ∀ negative, (⟨negative, ['0'], ['0'], none⟩ : Json.Numeral).double? =
        some (zero negative) := by
      decide +kernel
    rw [numeral, if_pos hzero, hread, hx]
  · have hzero' : x.isZero = false := by simpa using hzero
    have hsetOut := Decimal.setOut_numeral x.isNegative (Decimal.shortest x)
    have hnear := (Decimal.near_shortest (isFinite_iff.1 hfinite) hzero').2
    rw [numeral, if_neg hzero] at h ⊢
    rw [Json.Numeral.double?_of_brief h (hsetOut.length_fraction_le h),
      Json.Numeral.nearest_of_near h hfinite hzero' hsetOut.negative_eq]
    rw [hsetOut.value_eq]
    exact hnear

end Double
end Espalier
