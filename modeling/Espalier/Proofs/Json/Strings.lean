import Espalier.Json.Printer
import Espalier.Json.Reader
import Mathlib.Tactic.SplitIfs

/-!
# Strings in JSON text

The texts that stand for a string, by rules.  A rule relates what it derives to a text and to what
is left of the text, so that rules follow one another without appending.  The reader finds the
string of every such text and no other, whatever follows, and a string that was written between
quotes is such a text.
-/

namespace Espalier
namespace Json

/-! ## Rules -/

/-- What stands after the backslash of a short escape, and the character that it stands for. -/
def shortEscapes : List (Char × Char) :=
  [('"', '"'), ('\\', '\\'), ('/', '/'), ('b', '\x08'), ('f', '\x0c'), ('n', '\n'), ('r', '\r'),
    ('t', '\t')]

/-- One character of a string: as itself, by a short escape, by its number, or by the numbers of a
surrogate pair. -/
inductive CharText : Char → List Char → List Char → Prop
  | plain {c : Char} (hquote : c ≠ '"') (hbackslash : c ≠ '\\') (hcontrol : 0x20 ≤ c.toNat)
      (rest : List Char) : CharText c (c :: rest) rest
  | short {e c : Char} (h : (e, c) ∈ shortEscapes) (rest : List Char) :
      CharText c ('\\' :: e :: rest) rest
  | unit {a b c d : Char} {u : Nat} (hu : hexUnit? a b c d = some u) (hhigh : isHighUnit u = false)
      (hlow : isLowUnit u = false) (rest : List Char) :
      CharText (Char.ofNat u) ('\\' :: 'u' :: a :: b :: c :: d :: rest) rest
  | pair {a b c d e f g h : Char} {u v : Nat} (hu : hexUnit? a b c d = some u)
      (hhigh : isHighUnit u = true) (hv : hexUnit? e f g h = some v) (hlow : isLowUnit v = true)
      (rest : List Char) :
      CharText (Char.ofNat (0x10000 + (u - 0xD800) * 0x400 + (v - 0xDC00)))
        ('\\' :: 'u' :: a :: b :: c :: d :: '\\' :: 'u' :: e :: f :: g :: h :: rest) rest

inductive StringText : List Char → List Char → List Char → Prop
  | close (rest : List Char) : StringText [] ('"' :: rest) rest
  | char {c : Char} {xs cs mid rest : List Char} (hc : CharText c cs mid)
      (h : StringText xs mid rest) : StringText (c :: xs) cs rest

/-! ## What is read -/

/-- The character of a numeric escape is written in the text. -/
theorem unitEscape?_eq_some {c : Char} {cs rest : List Char} (h : unitEscape? cs = some (c, rest)) :
    CharText c ('\\' :: 'u' :: cs) rest := by
  unfold unitEscape? at h
  split at h
  · rcases Option.bind_eq_some_iff.1 h with ⟨u, hu, h⟩
    by_cases hhigh : isHighUnit u = true
    · rw [if_pos hhigh] at h
      split at h
      · rcases Option.bind_eq_some_iff.1 h with ⟨v, hv, h⟩
        split at h
        · rename_i hlow
          rw [Option.some.injEq, Prod.mk.injEq] at h
          rcases h with ⟨rfl, rfl⟩
          exact .pair hu hhigh hv hlow _
        · cases h
      · cases h
    · rw [if_neg hhigh] at h
      split at h
      · cases h
      · rename_i hlow
        cases h
        exact .unit hu (Bool.not_eq_true _ ▸ hhigh) (Bool.not_eq_true _ ▸ hlow) rest
  · cases h

/-- The character of an escape is written in the text. -/
theorem escape?_eq_some {c : Char} {cs rest : List Char} (h : escape? cs = some (c, rest)) :
    CharText c ('\\' :: cs) rest := by
  unfold escape? at h
  split at h
  any_goals
    cases h
    exact .short (by decide) rest
  · exact unitEscape?_eq_some h
  · cases h

/-- What is read as a string is one. -/
theorem stringBody?_eq_some {fuel : Nat} {xs cs rest : List Char}
    (h : stringBody? fuel cs = some (xs, rest)) : StringText xs cs rest := by
  induction fuel generalizing xs cs with
  | zero => cases h
  | succ fuel ih =>
    rcases cs with _ | ⟨c, cs⟩
    · cases h
    rw [stringBody?] at h
    split_ifs at h with hquote hbackslash hcontrol
    · subst hquote
      cases h
      exact .close rest
    · subst hbackslash
      rcases Option.bind_eq_some_iff.1 h with ⟨⟨x, mid⟩, hescape, h⟩
      rcases Option.bind_eq_some_iff.1 h with ⟨⟨xs, rest⟩, hbody, h⟩
      cases h
      exact .char (escape?_eq_some hescape) (ih hbody)
    · rcases Option.bind_eq_some_iff.1 h with ⟨⟨xs, rest⟩, hbody, h⟩
      cases h
      exact .char (.plain hquote hbackslash (Nat.le_of_not_lt hcontrol) cs) (ih hbody)

/-- The string that is read is written in the text. -/
theorem string?_eq_some {s : String} {cs rest : List Char} (h : string? cs = some (s, rest)) :
    StringText s.toList cs rest := by
  rcases Option.bind_eq_some_iff.1 h with ⟨⟨xs, rest⟩, hbody, h⟩
  cases h
  rw [String.toList_ofList]
  exact stringBody?_eq_some hbody

/-! ## Reading any text -/

theorem escape?_short {e c : Char} (h : (e, c) ∈ shortEscapes) (rest : List Char) :
    escape? (e :: rest) = some (c, rest) := by
  have hall : ∀ p ∈ shortEscapes, escape? (p.1 :: rest) = some (p.2, rest) := by
    simp [shortEscapes, escape?]
  exact hall _ h

/-- A character is read from any text of it. -/
theorem CharText.stringBody?_eq {c : Char} {cs rest : List Char} (h : CharText c cs rest)
    (fuel : Nat) :
    stringBody? (fuel + 1) cs = (stringBody? fuel rest).map fun p => (c :: p.1, p.2) := by
  have hmap : ∀ o : Option (List Char × List Char),
      (o.bind fun p => some (c :: p.1, p.2)) = o.map fun p => (c :: p.1, p.2) := by
    intro o
    cases o <;> rfl
  rw [← hmap]
  cases h with
  | plain hquote hbackslash hcontrol =>
    rw [stringBody?, if_neg hquote, if_neg hbackslash, if_neg (Nat.not_lt.2 hcontrol)]
    rfl
  | short h =>
    simp [stringBody?, escape?_short h]
  | unit hu hhigh hlow =>
    simp [stringBody?, escape?, unitEscape?, hu, hhigh, hlow]
  | pair hu hhigh hv hlow =>
    simp [stringBody?, escape?, unitEscape?, hu, hhigh, hv, hlow]

/-- Every character takes up some of the text. -/
theorem CharText.length_lt {c : Char} {cs rest : List Char} (h : CharText c cs rest) :
    rest.length < cs.length := by
  cases h <;> simp only [List.length_cons] <;> omega

theorem StringText.length_lt {xs cs rest : List Char} (h : StringText xs cs rest) :
    xs.length + rest.length < cs.length := by
  induction h with
  | close rest => simp
  | char hc _ ih =>
    have hlt := hc.length_lt
    rw [List.length_cons]
    omega

/-- Any text of a string is read as the string. -/
theorem StringText.stringBody?_eq {xs cs rest : List Char} (h : StringText xs cs rest) {fuel : Nat}
    (hfuel : xs.length < fuel) : stringBody? fuel cs = some (xs, rest) := by
  induction h generalizing fuel with
  | close rest =>
    obtain ⟨fuel, rfl⟩ := Nat.exists_eq_add_one_of_ne_zero (Nat.ne_zero_of_lt hfuel)
    rfl
  | char hc _ ih =>
    obtain ⟨fuel, rfl⟩ := Nat.exists_eq_add_one_of_ne_zero (Nat.ne_zero_of_lt hfuel)
    rw [List.length_cons, Nat.add_lt_add_iff_right] at hfuel
    rw [hc.stringBody?_eq, ih hfuel]
    rfl

/-- A string that is written is read. -/
theorem StringText.string?_eq {s : String} {cs rest : List Char}
    (h : StringText s.toList cs rest) : string? cs = some (s, rest) := by
  have hlength := h.length_lt
  rw [string?, h.stringBody?_eq (by omega)]
  simp

/-! ## Written strings -/

/-- The four digits of a control character denote it. -/
theorem hexUnit?_hexDigit {n : Nat} (h : n < 0x20) :
    hexUnit? '0' '0' (hexDigit (n / 16)) (hexDigit (n % 16)) = some n := by
  have hall : ∀ n < 0x20, hexUnit? '0' '0' (hexDigit (n / 16)) (hexDigit (n % 16)) = some n := by
    decide
  exact hall n h

/-- What is written for a character is a text of it. -/
theorem charText_escapedChar (c : Char) (rest : List Char) :
    CharText c (escapedChar c ++ rest) rest := by
  unfold escapedChar
  split_ifs with hquote hbackslash hb hf hn hr ht hcontrol
  · exact .short (by simp [shortEscapes, hquote]) rest
  · exact .short (by simp [shortEscapes, hbackslash]) rest
  · exact .short (by simp [shortEscapes, hb]) rest
  · exact .short (by simp [shortEscapes, hf]) rest
  · exact .short (by simp [shortEscapes, hn]) rest
  · exact .short (by simp [shortEscapes, hr]) rest
  · exact .short (by simp [shortEscapes, ht]) rest
  · -- No control character is half of a surrogate pair.
    have hhigh : isHighUnit c.toNat = false := by
      simp [isHighUnit]
      omega
    have hlow : isLowUnit c.toNat = false := by
      simp [isLowUnit]
      omega
    have hunit := CharText.unit (hexUnit?_hexDigit hcontrol) hhigh hlow rest
    rwa [Char.ofNat_toNat] at hunit
  · exact .plain hquote hbackslash (Nat.le_of_not_lt hcontrol) rest

/-- A string is written with the escapes of its characters. -/
theorem stringText_flatMap (xs rest : List Char) :
    StringText xs (xs.flatMap escapedChar ++ '"' :: rest) rest := by
  induction xs with
  | nil => exact .close rest
  | cons c xs ih =>
    rw [List.flatMap_cons, List.append_assoc]
    exact .char (charText_escapedChar c _) ih

/-- No string has a carriage return in its text, since control characters are escaped. -/
theorem notMem_quotedChars (s : String) : '\r' ∉ quotedChars s := by
  have hescaped : ∀ c : Char, '\r' ∉ escapedChar c := by
    intro c
    have hcode : ∀ n < 0x20,
        '\r' ∉ ['\\', 'u', '0', '0', hexDigit (n / 16), hexDigit (n % 16)] := by
      decide
    unfold escapedChar
    split_ifs with hquote hbackslash hb hf hn hr ht hcontrol
    · decide
    · decide
    · decide
    · decide
    · decide
    · decide
    · decide
    · exact hcode c.toNat hcontrol
    · rw [List.mem_singleton]
      exact fun h => hr h.symm
  rw [quotedChars, List.mem_append, List.mem_cons, List.mem_flatMap]
  rintro ((hquote | ⟨c, -, hc⟩) | hquote)
  · cases hquote
  · exact hescaped c hc
  · exact absurd hquote (by decide)

theorem quotedChars_append (s : String) (rest : List Char) :
    quotedChars s ++ rest = '"' :: (s.toList.flatMap escapedChar ++ '"' :: rest) := by
  simp [quotedChars]

/-- A string between its quotes is read back, the opening quote being read already. -/
theorem string?_quoted (s : String) (rest : List Char) :
    string? (s.toList.flatMap escapedChar ++ '"' :: rest) = some (s, rest) :=
  (stringText_flatMap s.toList rest).string?_eq

end Json
end Espalier
