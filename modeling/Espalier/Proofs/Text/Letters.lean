import Espalier.Text.Ascii

/-!
# Letters in any case

Names can be compared with their letters made small or made capital: the two come to the same.
-/

namespace Espalier
namespace Ascii

theorem toLower_toUpper (c : Char) : c.toUpper.toLower = c.toLower := by
  by_cases hsmall : 97 ≤ c.toNat ∧ c.toNat ≤ 122
  · have hletters : ∀ n ∈ List.range' 97 26,
        (Char.ofNat n).toUpper.toLower = (Char.ofNat n).toLower := by decide
    have hc := hletters c.toNat (List.mem_range'_1.2 ⟨hsmall.1, Nat.lt_succ_of_le hsmall.2⟩)
    rwa [Char.ofNat_toNat] at hc
  · have hother : c.toUpper = c := dif_neg hsmall
    rw [hother]

theorem toUpper_toLower (c : Char) : c.toLower.toUpper = c.toUpper := by
  by_cases hcapital : 65 ≤ c.toNat ∧ c.toNat ≤ 90
  · have hletters : ∀ n ∈ List.range' 65 26,
        (Char.ofNat n).toLower.toUpper = (Char.ofNat n).toUpper := by decide
    have hc := hletters c.toNat (List.mem_range'_1.2 ⟨hcapital.1, Nat.lt_succ_of_le hcapital.2⟩)
    rwa [Char.ofNat_toNat] at hc
  · have hother : c.toLower = c := dif_neg hcapital
    rw [hother]

theorem raise_fold (s : String) : raise (fold s) = raise s := by
  rw [raise, fold, raise, String.toList_ofList, List.map_map]
  exact congrArg _ (List.map_congr_left fun c _ => toUpper_toLower c)

theorem fold_raise (s : String) : fold (raise s) = fold s := by
  rw [fold, raise, fold, String.toList_ofList, List.map_map]
  exact congrArg _ (List.map_congr_left fun c _ => toLower_toUpper c)

theorem raise_eq_raise_iff {a b : String} : raise a = raise b ↔ fold a = fold b := by
  constructor
  · intro h
    rw [← fold_raise a, h, fold_raise]
  · intro h
    rw [← raise_fold a, h, raise_fold]

end Ascii
end Espalier
