/-!
# Integers as machine words

The integers of documents and databases have sixty-four bits and a sign, counts in settings have
thirty-two bits.  An integer becomes such a word only if the word reads back as that integer.
-/

namespace Espalier

def int64? (n : Int) : Option Int64 :=
  let w := Int64.ofInt n
  if w.toInt = n then some w else none

theorem toInt_of_int64? {n : Int} {w : Int64} (h : int64? n = some w) : w.toInt = n := by
  simp only [int64?, Option.ite_none_right_eq_some, Option.some.injEq] at h
  obtain ⟨hn, rfl⟩ := h
  exact hn

theorem int64?_toInt (w : Int64) : int64? w.toInt = some w := by
  simp [int64?, Int64.ofInt_toInt]

/-- A number within the bounds of words is a word. -/
theorem exists_int64? {n : Int} (hlow : -9223372036854775808 ≤ n)
    (hhigh : n ≤ Int64.maxValue.toInt) : ∃ w, int64? n = some w := by
  refine ⟨Int64.ofInt n, ?_⟩
  have hmax : Int64.maxValue.toInt = 9223372036854775807 := by decide
  have hword : (Int64.ofInt n).toInt = n := Int64.toInt_ofInt_of_le (by omega) (by omega)
  simp [int64?, hword]

theorem int64?_eq_none_of_lt {n : Int} (h : Int64.maxValue.toInt < n) : int64? n = none := by
  rw [Option.eq_none_iff_forall_ne_some]
  intro w hw
  have hvalue := toInt_of_int64? hw
  have hle := Int64.toInt_le w
  omega

def uint32? (n : Int) : Option UInt32 :=
  let w := UInt32.ofNat n.toNat
  if (w.toNat : Int) = n then some w else none

end Espalier
