/-!
# Parts of a text

Whether one text stands at the start, at the end or anywhere inside another.
-/

namespace Espalier
namespace Search

/-- Whether characters stand somewhere inside others. -/
def occursInChars (part : List Char) : List Char → Bool
  | [] => part.isEmpty
  | c :: rest => part.isPrefixOf (c :: rest) || occursInChars part rest

/-- A part occurs in a text just if the text has it as an infix. -/
theorem occursInChars_iff {part cs : List Char} :
    occursInChars part cs = true ↔ part <:+: cs := by
  induction cs with
  | nil => simp [occursInChars]
  | cons c rest ih =>
    rw [occursInChars, Bool.or_eq_true, List.isPrefixOf_iff_prefix, ih, List.infix_cons_iff]

def occursIn (part s : String) : Bool :=
  occursInChars part.toList s.toList

def startsWith (s start : String) : Bool :=
  start.toList.isPrefixOf s.toList

def endsWith (s ending : String) : Bool :=
  ending.toList.isSuffixOf s.toList

end Search
end Espalier
