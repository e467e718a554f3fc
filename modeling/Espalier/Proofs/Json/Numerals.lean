import Espalier.Json.Numeral
import Espalier.Json.Printer
import Espalier.Proofs.Number.Digits
import Mathlib.Data.List.TakeWhile

/-!
# Numbers in JSON text

The text of a number is the text of a numeral, its sign, digits, point and exponent one after the
other.  A well-formed numeral is read part by part if what follows cannot go on with it, and nothing
else is read as a number.  An integer of sixty-four bits is read as itself; what the numeral of a
double denotes is another matter, because the reader rounds in its own way.
-/

namespace Espalier
namespace Json

/-! ## Texts that end a numeral -/

/-- No digit, point or exponent comes next. -/
def EndsNumber (rest : List Char) : Prop :=
  ∀ c ∈ rest.head?, c.isDigit = false ∧ c ≠ '.' ∧ c ≠ 'e' ∧ c ≠ 'E'

namespace Numeral

/-! ## Writing -/

def signChars (negative : Bool) : List Char :=
  if negative then ['-'] else []

/-- The point stands only before digits. -/
def fractionChars (ds : List Char) : List Char :=
  if ds = [] then [] else '.' :: ds

/-- An exponent has its sign in any case. -/
def exponentChars : Option (Bool × List Char) → List Char
  | none => []
  | some (negative, ds) => 'e' :: (if negative then '-' else '+') :: ds

/-- The texts of an exponent: its letter may be of either case, and a plus sign may be left out. -/
inductive ExponentText : Option (Bool × List Char) → List Char → Prop
  | absent : ExponentText none []
  | unsigned {mark : Char} (hmark : mark = 'e' ∨ mark = 'E') (ds : List Char) :
      ExponentText (some (false, ds)) (mark :: ds)
  | signed {mark : Char} (hmark : mark = 'e' ∨ mark = 'E') (negative : Bool) (ds : List Char) :
      ExponentText (some (negative, ds)) (mark :: (if negative then '-' else '+') :: ds)

theorem exponentText_exponentChars (e : Option (Bool × List Char)) :
    ExponentText e (exponentChars e) := by
  cases e with
  | none => exact .absent
  | some p => exact .signed (.inl rfl) p.1 p.2

def chars (n : Numeral) : List Char :=
  signChars n.negative ++ (n.whole ++ (fractionChars n.fraction ++ exponentChars n.exponent))

/-- All parts are runs of digits, and the whole part starts with zero only if it is zero. -/
structure WellFormed (n : Numeral) : Prop where
  whole : ∀ c ∈ n.whole, c.isDigit = true
  leading : n.whole = ['0'] ∨ ∃ c cs, n.whole = c :: cs ∧ c ≠ '0'
  fraction : ∀ c ∈ n.fraction, c.isDigit = true
  exponent : ∀ e ∈ n.exponent, e.2 ≠ [] ∧ ∀ c ∈ e.2, c.isDigit = true

theorem WellFormed.whole_ne_nil {n : Numeral} (hn : n.WellFormed) : n.whole ≠ [] := by
  rcases hn.leading with h | ⟨c, cs, h, -⟩ <;> rw [h] <;> exact List.cons_ne_nil _ _

/-! ## Reading the parts -/

/-- Digits are taken up to the first character that is none. -/
theorem digits_append {ds rest : List Char} (hds : ∀ c ∈ ds, c.isDigit = true)
    (hrest : ∀ c ∈ rest.head?, c.isDigit = false) : digits (ds ++ rest) = (ds, rest) := by
  rw [digits, List.takeWhile_append_of_pos hds, List.dropWhile_append_of_pos hds]
  cases rest with
  | nil => simp
  | cons c rest =>
    have hc := hrest c rfl
    simp [hc]

/-- The whole part is read up to the first character that is no digit. -/
theorem whole?_append {ds rest : List Char} (hds : ∀ c ∈ ds, c.isDigit = true)
    (hleading : ds = ['0'] ∨ ∃ c cs, ds = c :: cs ∧ c ≠ '0')
    (hrest : ∀ c ∈ rest.head?, c.isDigit = false) : whole? (ds ++ rest) = some (ds, rest) := by
  rw [whole?, digits_append hds hrest]
  rcases hleading with rfl | ⟨c, cs, rfl, hc⟩
  · rfl
  · split
    · rename_i h
      cases h
    · rename_i h
      cases h
      exact absurd rfl hc
    · rename_i h
      cases h
      rfl

/-- A fraction is read up to the first character that is no digit. -/
theorem fraction?_append {ds rest : List Char} (hds : ∀ c ∈ ds, c.isDigit = true)
    (hrest : ∀ c ∈ rest.head?, c.isDigit = false ∧ c ≠ '.') :
    fraction? (fractionChars ds ++ rest) = some (ds, rest) := by
  cases ds with
  | nil =>
    rw [fractionChars, if_pos rfl, List.nil_append]
    unfold fraction?
    split
    · exact absurd rfl (hrest '.' rfl).2
    · rfl
  | cons d ds =>
    rw [fractionChars, if_neg (List.cons_ne_nil _ _), List.cons_append, fraction?,
      digits_append hds fun c hc => (hrest c hc).1]

/-- An exponent is read up to the first character that is no digit. -/
theorem exponent?_append {e : Option (Bool × List Char)} {text rest : List Char}
    (htext : ExponentText e text) (he : ∀ p ∈ e, p.2 ≠ [] ∧ ∀ c ∈ p.2, c.isDigit = true)
    (hrest : ∀ c ∈ rest.head?, c.isDigit = false ∧ c ≠ 'e' ∧ c ≠ 'E') :
    exponent? (text ++ rest) = some (e, rest) := by
  cases htext with
  | absent =>
    rw [List.nil_append]
    unfold exponent?
    split
    · exact absurd rfl (hrest 'e' rfl).2.1
    · exact absurd rfl (hrest 'E' rfl).2.2
    · rfl
  | unsigned hmark ds =>
    rcases ds with _ | ⟨d, ds⟩
    · exact absurd rfl (he _ rfl).1
    have hdigits := digits_append (he _ rfl).2 fun c hc => (hrest c hc).1
    -- The first digit is no sign.
    have hd : d.isDigit = true := (he _ rfl).2 d List.mem_cons_self
    have hplus : d ≠ '+' := by
      rintro rfl
      cases hd
    have hminus : d ≠ '-' := by
      rintro rfl
      cases hd
    rw [List.cons_append] at hdigits
    rcases hmark with rfl | rfl <;> simp [exponent?, hdigits, hplus, hminus]
  | signed hmark negative ds =>
    rcases ds with _ | ⟨d, ds⟩
    · exact absurd rfl (he _ rfl).1
    have hdigits := digits_append (he _ rfl).2 fun c hc => (hrest c hc).1
    rw [List.cons_append] at hdigits
    rcases hmark with rfl | rfl <;> cases negative <;> simp [exponent?, hdigits]

/-! ## Reading the whole -/

/-- A numeral stands at the start of a text, and the rest of the text after it. -/
def Text (n : Numeral) (cs rest : List Char) : Prop :=
  n.WellFormed ∧ ∃ text, ExponentText n.exponent text ∧
    cs = signChars n.negative ++ (n.whole ++ (fractionChars n.fraction ++ (text ++ rest)))

/-- A well-formed numeral is read as it stands, whatever follows it. -/
theorem Text.read? {n : Numeral} {cs rest : List Char} (h : n.Text cs rest)
    (hrest : EndsNumber rest) : read? cs = some (n, rest) := by
  rcases n with ⟨negative, whole, fraction, exponent⟩
  rcases h with ⟨hn, text, htext, rfl⟩
  have hexponent := exponent?_append htext hn.exponent
    fun c hc => ⟨(hrest c hc).1, (hrest c hc).2.2⟩
  have hafter : ∀ c ∈ (text ++ rest).head?, c.isDigit = false ∧ c ≠ '.' := by
    have hmark : ∀ {mark : Char}, mark = 'e' ∨ mark = 'E' →
        mark.isDigit = false ∧ mark ≠ '.' := by
      rintro _ (rfl | rfl) <;> decide
    cases htext with
    | absent => exact fun c hc => ⟨(hrest c hc).1, (hrest c hc).2.1⟩
    | unsigned h ds =>
      rintro _ ⟨⟩
      exact hmark h
    | signed h negative ds =>
      rintro _ ⟨⟩
      exact hmark h
  have hfraction := fraction?_append hn.fraction hafter
  have hpoint : ∀ c ∈ (fractionChars fraction ++ (text ++ rest)).head?, c.isDigit = false := by
    rw [fractionChars]
    split
    · exact fun c hc => (hafter c hc).1
    · rintro _ ⟨⟩
      decide
  have hwhole := whole?_append hn.whole hn.leading hpoint
  cases negative with
  | true => simp [signChars, Numeral.read?, hwhole, hfraction, hexponent]
  | false =>
    -- The whole part opens with a digit, which is no sign.
    have hunsigned : ∀ cs rest', whole ++ cs ≠ '-' :: rest' := by
      rcases List.exists_cons_of_ne_nil hn.whole_ne_nil with ⟨d, ds, hds⟩
      intro cs rest' h
      have hdigit := hn.whole d (hds ▸ List.mem_cons_self)
      rw [show whole = d :: ds from hds, List.cons_append] at h
      rw [(List.cons.inj h).1] at hdigit
      exact absurd hdigit (by decide)
    dsimp only
    rw [signChars, if_neg Bool.false_ne_true, List.nil_append, Numeral.read?]
    · simp [hwhole, hfraction, hexponent]
    · exact hunsigned _

/-- A numeral stands at the start of its own characters. -/
theorem text_chars {n : Numeral} (hn : n.WellFormed) (rest : List Char) :
    n.Text (n.chars ++ rest) rest := by
  refine ⟨hn, _, exponentText_exponentChars n.exponent, ?_⟩
  rw [chars, List.append_assoc, List.append_assoc, List.append_assoc]

/-! ## What is read -/

/-- Digits and what follows them make up the text. -/
theorem digits_eq (cs : List Char) :
    cs = (digits cs).1 ++ (digits cs).2 ∧ ∀ c ∈ (digits cs).1, c.isDigit = true :=
  ⟨(List.takeWhile_append_dropWhile).symm, fun _ => List.mem_takeWhile_imp⟩

theorem whole?_eq_some {cs ds rest : List Char} (h : whole? cs = some (ds, rest)) :
    cs = ds ++ rest ∧ (∀ c ∈ ds, c.isDigit = true) ∧
      (ds = ['0'] ∨ ∃ c cs, ds = c :: cs ∧ c ≠ '0') := by
  have hdigits := digits_eq cs
  unfold whole? at h
  split at h
  · cases h
  · cases h
  · rename_i ds' rest' hempty hzero hread
    cases h
    rw [hread] at hdigits
    refine ⟨hdigits.1, hdigits.2, ?_⟩
    rcases ds with _ | ⟨c, ds⟩
    · exact (hempty rfl).elim
    · by_cases hc : c = '0'
      · subst hc
        rcases ds with _ | ⟨d, ds⟩
        · exact .inl rfl
        · exact (hzero _ _ rfl).elim
      · exact .inr ⟨c, ds, rfl, hc⟩

theorem fraction?_eq_some {cs ds rest : List Char} (h : fraction? cs = some (ds, rest)) :
    cs = fractionChars ds ++ rest ∧ ∀ c ∈ ds, c.isDigit = true := by
  unfold fraction? at h
  split at h
  · rename_i cs
    have hdigits := digits_eq cs
    split at h
    · cases h
    · rename_i ds' rest' hempty hread
      cases h
      rw [hread] at hdigits
      have hne : ds ≠ [] := by
        rintro rfl
        exact hempty rfl
      rw [fractionChars, if_neg hne, List.cons_append, ← hdigits.1]
      exact ⟨rfl, hdigits.2⟩
  · cases h
    exact ⟨rfl, fun c hc => by cases hc⟩

/-- An exponent that is read is written in the text. -/
theorem exponent?_eq_some {cs rest : List Char} {e : Option (Bool × List Char)}
    (h : exponent? cs = some (e, rest)) :
    (∀ p ∈ e, p.2 ≠ [] ∧ ∀ c ∈ p.2, c.isDigit = true) ∧
      ∃ text, ExponentText e text ∧ cs = text ++ rest := by
  have hdigits : ∀ {negative : Bool} {cs ds rest' : List Char}, digits cs = (ds, rest') →
      ds ≠ [] → some (some (negative, ds), rest') = some (e, rest) →
      ∃ ds, e = some (negative, ds) ∧ cs = ds ++ rest ∧ ds ≠ [] ∧
        ∀ c ∈ ds, c.isDigit = true := by
    intro negative cs ds rest' hread hne h
    have heq := digits_eq cs
    cases h
    rw [hread] at heq
    exact ⟨ds, rfl, heq.1, hne, heq.2⟩
  have hmarked : ∀ {mark : Char} {cs : List Char}, mark = 'e' ∨ mark = 'E' →
      exponent? (mark :: cs) = some (e, rest) →
      (∀ p ∈ e, p.2 ≠ [] ∧ ∀ c ∈ p.2, c.isDigit = true) ∧
        ∃ text, ExponentText e text ∧ mark :: cs = text ++ rest := by
    intro mark cs hmark h
    have hsign : (∃ negative cs', cs = (if negative then '-' else '+') :: cs' ∧
        ∃ ds, e = some (negative, ds) ∧ cs' = ds ++ rest ∧ ds ≠ [] ∧ ∀ c ∈ ds, c.isDigit = true) ∨
        ∃ ds, e = some (false, ds) ∧ cs = ds ++ rest ∧ ds ≠ [] ∧ ∀ c ∈ ds, c.isDigit = true := by
      rcases hmark with rfl | rfl
      all_goals
        simp only [exponent?] at h
        split at h
        -- Whatever the sign, there must be digits after it.
        all_goals
          split at h
          · cases h
          · rename_i hempty hread
            first
              | exact .inr (hdigits hread (fun hnil => hempty hnil) h)
              | exact .inl ⟨_, _, rfl, hdigits hread (fun hnil => hempty hnil) h⟩
    rcases hsign with ⟨negative, cs', rfl, ds, rfl, rfl, hne, hall⟩ | ⟨ds, rfl, rfl, hne, hall⟩
    · refine ⟨?_, _, .signed hmark negative ds, rfl⟩
      rintro _ ⟨⟩
      exact ⟨hne, hall⟩
    · refine ⟨?_, _, .unsigned hmark ds, rfl⟩
      rintro _ ⟨⟩
      exact ⟨hne, hall⟩
  unfold exponent? at h
  split at h
  · exact hmarked (.inl rfl) h
  · exact hmarked (.inr rfl) h
  · cases h
    exact ⟨fun p hp => (by cases hp), _, .absent, rfl⟩

/-- What is read of a text is a numeral that stands at its start. -/
theorem text_of_read? {n : Numeral} {cs rest : List Char} (h : read? cs = some (n, rest)) :
    n.Text cs rest := by
  have hparts : ∀ (negative : Bool) {cs : List Char},
      ((whole? cs).bind fun x => (fraction? x.2).bind fun y => (exponent? y.2).bind fun z =>
        some ((⟨negative, x.1, y.1, z.1⟩ : Numeral), z.2)) = some (n, rest) →
      n.Text (signChars negative ++ cs) rest := by
    intro negative cs h
    simp only [Option.bind_eq_some_iff, Option.some.injEq, Prod.mk.injEq] at h
    rcases h with ⟨⟨ds, cs₁⟩, hwhole, ⟨fs, cs₂⟩, hfraction, ⟨e, cs₃⟩, hexponent, rfl, rfl⟩
    rcases whole?_eq_some hwhole with ⟨rfl, hds, hleading⟩
    rcases fraction?_eq_some hfraction with ⟨rfl, hfs⟩
    rcases exponent?_eq_some hexponent with ⟨he, text, htext, rfl⟩
    exact ⟨⟨hds, hleading, hfs, he⟩, text, htext, rfl⟩
  unfold read? at h
  dsimp only at h
  split at h
  · exact hparts true h
  · exact hparts false h

/-! ## Integers -/

/-- Decimal digits start with zero for zero only. -/
theorem leading_toDigits (n : Nat) :
    Nat.toDigits 10 n = ['0'] ∨ ∃ c cs, Nat.toDigits 10 n = c :: cs ∧ c ≠ '0' := by
  by_cases hn : n = 0
  · exact .inl (hn ▸ rfl)
  · rcases List.exists_cons_of_ne_nil (Nat.toDigits_ne_nil (b := 10) (n := n)) with ⟨c, cs, hcs⟩
    have hhead := Ascii.head?_toDigits hn
    rw [hcs] at hhead
    exact .inr ⟨c, cs, hcs, fun hc => hhead (congrArg some hc)⟩

def ofInt (n : Int) : Numeral :=
  ⟨decide (n < 0), Nat.toDigits 10 n.natAbs, [], none⟩

theorem chars_ofInt (n : Int) : (ofInt n).chars = integerChars n := by
  by_cases hn : n < 0 <;>
    simp [chars, ofInt, integerChars, signChars, fractionChars, exponentChars, hn]

theorem wellFormed_ofInt (n : Int) : (ofInt n).WellFormed where
  whole _ := Ascii.isDigit_toDigits
  leading := leading_toDigits n.natAbs
  fraction _ hc := by cases hc
  exponent _ he := by cases he

/-- An integer of sixty-four bits is read as itself. -/
theorem value?_ofInt (n : JsonInteger) : (ofInt n.val).value? = some (.integer n) := by
  rcases n with ⟨n, hlower, hupper⟩
  have hsigned : (if decide (n < 0) = true then -(n.natAbs : Int) else (n.natAbs : Int)) = n := by
    by_cases hn : n < 0
    · rw [if_pos (decide_eq_true hn)]
      omega
    · rw [if_neg (by simpa using hn)]
      omega
  have hzero : (decide (n < 0) && ((n.natAbs : Int) == 0)) = false := by
    by_cases hn : n < 0
    · have hne : n ≠ 0 := by omega
      simp [hne]
    · simp [hn]
  simp only [value?, ofInt, Ascii.decimalValue_toDigits, hsigned, hzero, List.isEmpty_nil,
    Option.isNone_none, Bool.and_self, if_true, Bool.false_eq_true, if_false]
  rw [dif_pos ⟨hlower, hupper⟩]

end Numeral
end Json
end Espalier
