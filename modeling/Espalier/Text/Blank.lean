/-!
# Blank characters

The characters with the Unicode property `White_Space`, and the removal of blanks at the ends of a
text.  Data source names and log levels are trimmed by this rule.
-/

namespace Espalier
namespace Blank

/-- The ranges of the property `White_Space`, both ends included. -/
def ranges : List (Nat × Nat) :=
  [(0x09, 0x0D), (0x20, 0x20), (0x85, 0x85), (0xA0, 0xA0), (0x1680, 0x1680), (0x2000, 0x200A),
    (0x2028, 0x2029), (0x202F, 0x202F), (0x205F, 0x205F), (0x3000, 0x3000)]

def isBlank (c : Char) : Bool :=
  ranges.any fun r => decide (r.1 ≤ c.toNat) && decide (c.toNat ≤ r.2)

theorem isBlank_of_isDigit {c : Char} (h : c.isDigit = true) : isBlank c = false := by
  simp [Char.isDigit, UInt32.le_iff_toNat_le] at h
  simp [isBlank, ranges]
  have hnat : c.toNat = c.val.toNat := rfl
  omega

def trimStart (s : String) : String :=
  String.ofList (s.toList.dropWhile isBlank)

def trim (s : String) : String :=
  String.ofList ((s.toList.dropWhile isBlank).reverse.dropWhile isBlank).reverse

end Blank
end Espalier
