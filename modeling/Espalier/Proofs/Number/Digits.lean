import Espalier.Text.Ascii
import Mathlib.Algebra.Group.Nat.Defs

/-!
# Runs of decimal digits

What a run of digits denotes when it is put together from shorter runs, and that the digits which a
number is written with are digits, denote that number, and start with zero only for zero.
-/

namespace Espalier
namespace Ascii

theorem decimalValue_eq (ds : List Char) : decimalValue ds = Nat.ofDigitChars 10 ds 0 :=
  rfl

/-- Digits in front count for as many powers of ten as digits follow them. -/
theorem decimalValue_append (ds es : List Char) :
    decimalValue (ds ++ es) = decimalValue ds * 10 ^ es.length + decimalValue es := by
  rw [decimalValue_eq, Nat.ofDigitChars_append, Nat.ofDigitChars_eq_ofDigitChars_zero,
    Nat.mul_comm]
  rfl

theorem decimalValue_replicate_zero (n : Nat) : decimalValue (List.replicate n '0') = 0 := by
  rw [decimalValue_eq, Nat.ofDigitChars_replicate_zero, Nat.mul_zero]

theorem decimalValue_toDigits (n : Nat) : decimalValue (Nat.toDigits 10 n) = n :=
  Nat.ofDigitChars_ten_toDigits

theorem isDigit_toDigits {n : Nat} {c : Char} (h : c ∈ Nat.toDigits 10 n) : c.isDigit = true :=
  Nat.isDigit_of_mem_toDigits (by decide) (by decide) h

/-- Only zero is written with a zero in front. -/
theorem head?_toDigits {n : Nat} (hn : n ≠ 0) : (Nat.toDigits 10 n).head? ≠ some '0' := by
  induction n using Nat.strongRecOn with
  | ind n ih =>
    by_cases hlt : n < 10
    · have hdigit : ∀ n < 10, n ≠ 0 → n.digitChar ≠ '0' := by decide
      rw [Nat.toDigits_of_lt_base hlt]
      exact fun h => hdigit n hlt hn (Option.some.inj h)
    · have hfront := ih (n / 10) (by omega) (by omega)
      rcases List.exists_cons_of_ne_nil (Nat.toDigits_ne_nil (b := 10) (n := n / 10)) with
        ⟨c, cs, hcs⟩
      rw [hcs] at hfront
      rw [Nat.toDigits_eq_if (by decide), if_neg hlt, hcs]
      exact hfront

end Ascii
end Espalier
