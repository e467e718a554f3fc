import Espalier.Proofs.Json.Numerals
import Espalier.Proofs.Number.Shortest

/-!
# Doubles in JSON text

The text of a double is that of a numeral, in which the digits of the shortest decimal are set out
in one of four ways.  The numeral is well formed and never one of an integer, so the reader takes it
for a double whatever its value.
-/

namespace Espalier

/-! ## Numerals of decimals -/

namespace Decimal

def numeral (negative : Bool) (d : Decimal) : Json.Numeral :=
  let digits := Nat.toDigits 10 d.coefficient
  let n := digits.length
  let e : Int := d.exponent + n - 1
  if -5 ≤ e ∧ e ≤ 15 then
    if e < 0 then ⟨negative, ['0'], List.replicate (-e - 1).toNat '0' ++ digits, none⟩
    else if n ≤ e.toNat + 1 then
      ⟨negative, digits ++ List.replicate (e.toNat + 1 - n) '0', ['0'], none⟩
    else ⟨negative, digits.take (e.toNat + 1), digits.drop (e.toNat + 1), none⟩
  else
    ⟨negative, digits.take 1, digits.drop 1, some (decide (e < 0), Nat.toDigits 10 e.natAbs)⟩

/-- The layout of a decimal is the text of its numeral. -/
theorem toList_layout (negative : Bool) (d : Decimal) :
    Json.Numeral.signChars negative ++ (d.layout Json.decimalStyle).toList =
      (d.numeral negative).chars := by
  obtain ⟨digits, hdigits⟩ : ∃ digits, digits = Nat.toDigits 10 d.coefficient := ⟨_, rfl⟩
  have hlength : 0 < digits.length := hdigits ▸ Nat.length_toDigits_pos
  obtain ⟨e, he⟩ : ∃ e : Int, e = d.exponent + digits.length - 1 := ⟨_, rfl⟩
  have hstyle : ((Json.decimalStyle.leastPositional ≤ e &&
      e ≤ Json.decimalStyle.greatestPositional) = true) ↔ -5 ≤ e ∧ e ≤ 15 := by
    rw [Bool.and_eq_true, decide_eq_true_iff, decide_eq_true_iff]
    rfl
  unfold layout numeral
  simp only [← hdigits, ← he, hstyle]
  -- Digits are placed around the point, padded with zeros in front or behind or cut in two; beyond
  -- the range the first of them stands alone in front of an exponent.
  by_cases hpositional : -5 ≤ e ∧ e ≤ 15
  · rw [if_pos hpositional, if_pos hpositional]
    by_cases hnegative : e < 0
    · rw [if_pos hnegative, if_pos hnegative]
      have hfraction : List.replicate (-e - 1).toNat '0' ++ digits ≠ [] :=
        List.append_ne_nil_of_right_ne_nil _ (List.length_pos_iff.1 hlength)
      rw [Json.Numeral.chars, Json.Numeral.fractionChars, if_neg hfraction]
      simp [Json.Numeral.exponentChars, zeros]
    · rw [if_neg hnegative, if_neg hnegative]
      by_cases hwhole : digits.length ≤ e.toNat + 1
      · rw [if_pos hwhole, if_pos hwhole]
        simp [Json.Numeral.chars, Json.Numeral.fractionChars, Json.Numeral.exponentChars, zeros]
      · rw [if_neg hwhole, if_neg hwhole]
        have hfraction : digits.drop (e.toNat + 1) ≠ [] := by
          rw [Ne, List.drop_eq_nil_iff]
          exact hwhole
        rw [Json.Numeral.chars, Json.Numeral.fractionChars, if_neg hfraction]
        simp [Json.Numeral.exponentChars]
  · rw [if_neg hpositional, if_neg hpositional]
    have hwidth : Json.decimalStyle.exponentWidth - (toString e.natAbs).length = 0 := by
      have hpos : 0 < (Nat.toDigits 10 e.natAbs).length := Nat.length_toDigits_pos
      rw [Nat.toString_eq_ofList_toDigits, String.length_ofList]
      exact Nat.sub_eq_zero_of_le hpos
    have hsign : (if e < 0 then "-" else "+").toList = [if e < 0 then '-' else '+'] := by
      split <;> rfl
    rw [hwidth]
    by_cases hone : digits.length = 1
    · rw [if_pos hone]
      have hdrop : digits.drop 1 = [] := List.drop_eq_nil_iff.2 (by omega)
      have htake : digits.take 1 = digits := List.take_of_length_le (by omega)
      have hmantissa : (if Json.decimalStyle.mantissaPoint = true then ".0" else "") = "" := rfl
      rw [Json.Numeral.chars, Json.Numeral.fractionChars, if_pos hdrop, htake, hmantissa]
      simp [Json.Numeral.exponentChars, hsign, zeros]
    · rw [if_neg hone]
      have hdrop : digits.drop 1 ≠ [] := fun h => hone (by
        rw [List.drop_eq_nil_iff] at h
        omega)
      rw [Json.Numeral.chars, Json.Numeral.fractionChars, if_neg hdrop]
      simp [Json.Numeral.exponentChars, hsign, zeros]

/-- The ways to set out digits whose last one stands for a power of ten. -/
inductive SetOut (negative : Bool) (digits : List Char) (p : Int) : Json.Numeral → Prop where
  | below (k : Nat) : p = -(k + digits.length) →
      SetOut negative digits p ⟨negative, ['0'], List.replicate k '0' ++ digits, none⟩
  | above (k : Nat) : p = k →
      SetOut negative digits p ⟨negative, digits ++ List.replicate k '0', ['0'], none⟩
  | across (k : Nat) : 0 < k → k < digits.length → p = k - digits.length →
      SetOut negative digits p ⟨negative, digits.take k, digits.drop k, none⟩
  | powered (e : Int) : p = e + 1 - digits.length → SetOut negative digits p
      ⟨negative, digits.take 1, digits.drop 1, some (decide (e < 0), Nat.toDigits 10 e.natAbs)⟩

theorem setOut_numeral (negative : Bool) (d : Decimal) :
    SetOut negative (Nat.toDigits 10 d.coefficient) d.exponent (d.numeral negative) := by
  have hlength : 0 < (Nat.toDigits 10 d.coefficient).length := Nat.length_toDigits_pos
  unfold numeral
  dsimp only
  split_ifs with hpositional hnegative hwhole
  · exact .below _ (by omega)
  · exact .above _ (by omega)
  · exact .across _ (Nat.succ_pos _) (by omega) (by omega)
  · exact .powered _ (by omega)

namespace SetOut

variable {negative : Bool} {p : Int} {n : Json.Numeral}

/-- A decimal is never set out as an integer. -/
theorem isReal {c : Nat} (h : SetOut negative (Nat.toDigits 10 c) p n) :
    (n.fraction.isEmpty && n.exponent.isNone) = false := by
  cases h with
  | below k =>
    have hne : List.replicate k '0' ++ Nat.toDigits 10 c ≠ [] :=
      List.append_ne_nil_of_right_ne_nil _ Nat.toDigits_ne_nil
    rw [Bool.and_eq_false_iff]
    exact .inl (List.isEmpty_eq_false_iff.2 hne)
  | above k => rfl
  | across k hpos hlt =>
    have hne : (Nat.toDigits 10 c).drop k ≠ [] := fun h => by
      rw [List.drop_eq_nil_iff] at h
      omega
    rw [Bool.and_eq_false_iff]
    exact .inl (List.isEmpty_eq_false_iff.2 hne)
  | powered e => exact Bool.and_false _

/-- The digits of a number other than zero are set out as a well-formed numeral. -/
theorem wellFormed {c : Nat} (h : SetOut negative (Nat.toDigits 10 c) p n) (hc : c ≠ 0) :
    n.WellFormed := by
  have hdigit : ∀ d ∈ Nat.toDigits 10 c, d.isDigit = true := fun d => Ascii.isDigit_toDigits
  have hzero : ∀ d ∈ ['0'], d.isDigit = true := List.forall_mem_singleton.2 rfl
  have hzeros : ∀ k, ∀ d ∈ List.replicate k '0', d.isDigit = true := by
    intro k d hd
    rw [List.eq_of_mem_replicate hd]
    rfl
  obtain ⟨d, ds, hds, hd⟩ : ∃ d ds, Nat.toDigits 10 c = d :: ds ∧ d ≠ '0' := by
    rcases List.exists_cons_of_ne_nil (Nat.toDigits_ne_nil (b := 10) (n := c)) with ⟨d, ds, hds⟩
    have hhead := Ascii.head?_toDigits hc
    rw [hds] at hhead
    exact ⟨d, ds, hds, fun hd => hhead (congrArg some hd)⟩
  have htake : ∀ k, 0 < k → ∃ d ds, (Nat.toDigits 10 c).take k = d :: ds ∧ d ≠ '0' := by
    intro k hk
    obtain ⟨k, rfl⟩ : ∃ j, k = j + 1 := ⟨k - 1, by omega⟩
    exact ⟨d, ds.take k, by rw [hds, List.take_succ_cons], hd⟩
  -- The whole part is a single zero or opens with the leading digit, which is not zero.
  cases h with
  | below k =>
    refine ⟨hzero, .inl rfl, fun d hd => ?_, fun e he => by cases he⟩
    exact (List.mem_append.1 hd).elim (hzeros k d) (hdigit d)
  | above k =>
    refine ⟨fun d hd => (List.mem_append.1 hd).elim (hdigit d) (hzeros k d), .inr ?_, hzero,
      fun e he => by cases he⟩
    exact ⟨d, ds ++ List.replicate k '0', by rw [hds, List.cons_append], hd⟩
  | across k hpos =>
    exact ⟨fun d hd => hdigit d (List.mem_of_mem_take hd), .inr (htake k hpos),
      fun d hd => hdigit d (List.mem_of_mem_drop hd), fun e he => by cases he⟩
  | powered e =>
    refine ⟨fun d hd => hdigit d (List.mem_of_mem_take hd), .inr (htake 1 Nat.one_pos),
      fun d hd => hdigit d (List.mem_of_mem_drop hd), ?_⟩
    rintro _ ⟨⟩
    exact ⟨Nat.toDigits_ne_nil, fun d hd => Ascii.isDigit_toDigits hd⟩

theorem negative_eq {digits : List Char} (h : SetOut negative digits p n) :
    n.negative = negative := by
  cases h <;> rfl

end SetOut

end Decimal

/-! ## Numerals of doubles -/

namespace Double

def numeral (x : Double) : Json.Numeral :=
  if x.isZero then ⟨x.isNegative, ['0'], ['0'], none⟩
  else (Decimal.shortest x).numeral x.isNegative

theorem chars_numeral (x : Double) : x.numeral.chars = Json.doubleChars x := by
  rw [Json.doubleChars, shortestText, numeral, String.toList_append]
  have hsign :
      (if x.isNegative then "-" else "").toList = Json.Numeral.signChars x.isNegative := by
    cases x.isNegative <;> rfl
  rw [hsign]
  split
  · cases x.isNegative <;> rfl
  · exact (Decimal.toList_layout _ _).symm

/-- The numeral of a finite double is one that JSON allows. -/
theorem wellFormed_numeral {x : Double} (hfinite : x.isFinite = true) :
    x.numeral.WellFormed := by
  rw [numeral]
  split
  · have hdigit : ∀ d ∈ ['0'], d.isDigit = true := List.forall_mem_singleton.2 rfl
    exact ⟨hdigit, .inl rfl, hdigit, fun e he => by cases he⟩
  · rename_i hzero
    have hfield : x.exponentField ≠ 2047 := by simpa [isFinite] using hfinite
    exact (Decimal.setOut_numeral _ _).wellFormed
      (Decimal.near_shortest hfield (by simpa using hzero)).1

/-- A double is read by the rule for doubles, also if it is whole. -/
theorem value?_numeral (x : Double) :
    x.numeral.value? = x.numeral.double?.map Json.ofDouble := by
  have hreal : (x.numeral.fraction.isEmpty && x.numeral.exponent.isNone) = false := by
    rw [numeral]
    split
    · rfl
    · exact (Decimal.setOut_numeral _ _).isReal
  rw [Json.Numeral.value?, hreal]
  rfl

end Double
end Espalier
