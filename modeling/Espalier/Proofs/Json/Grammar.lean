import Espalier.Json.Reader
import Espalier.Proofs.Json.Compact

/-!
# The grammar of JSON text

The texts that stand for a value, by rules and without a reader.  A rule relates what it derives to
a text and to what is left of it, so that rules follow one another without appending.  The reader
finds exactly the values that the rules derive, as long as they are not nested too deeply:
`read?_eq_some` says so of whole documents.
-/

namespace Espalier
namespace Json

/-! ## Rules -/

inductive Blanks : List Char → List Char → Prop
  | none (cs : List Char) : Blanks cs cs
  | more {c : Char} (hc : c = ' ' ∨ c = '\n' ∨ c = '\t' ∨ c = '\r') {cs rest : List Char}
      (h : Blanks cs rest) : Blanks (c :: cs) rest

/-- The name of a member and the colon after it, with the blanks up to the value. -/
inductive KeyText : String → List Char → List Char → Prop
  | mk {key : String} {cs name colon after start : List Char} (hname : Blanks cs ('"' :: name))
      (hkey : StringText key.toList name colon) (hcolon : Blanks colon (':' :: after))
      (hstart : Blanks after start) : KeyText key cs start

mutual

/-- A value, without the blanks around it. -/
inductive ValueText : Json → List Char → List Char → Prop
  | nullWord (rest : List Char) : ValueText .null ('n' :: 'u' :: 'l' :: 'l' :: rest) rest
  | trueWord (rest : List Char) :
      ValueText (.bool true) ('t' :: 'r' :: 'u' :: 'e' :: rest) rest
  | falseWord (rest : List Char) :
      ValueText (.bool false) ('f' :: 'a' :: 'l' :: 's' :: 'e' :: rest) rest
  | number {n : Numeral} {j : Json} {cs rest : List Char} (hn : n.Text cs rest)
      (hj : n.value? = some j) : ValueText j cs rest
  | text {s : String} {cs rest : List Char} (h : StringText s.toList cs rest) :
      ValueText (.text s) ('"' :: cs) rest
  | noItems {cs rest : List Char} (h : Blanks cs (']' :: rest)) :
      ValueText (.array []) ('[' :: cs) rest
  | items {items : List Json} {cs rest : List Char} (h : ItemsText items cs rest) :
      ValueText (.array items) ('[' :: cs) rest
  | noMembers {cs rest : List Char} (h : Blanks cs ('\x7d' :: rest)) :
      ValueText (.object []) ('\x7b' :: cs) rest
  | members {members : List (String × Json)} {cs rest : List Char}
      (h : MembersText members cs rest) : ValueText (.object members) ('\x7b' :: cs) rest

/-- The items of an array, one at least, and the closing bracket. -/
inductive ItemsText : List Json → List Char → List Char → Prop
  | last {j : Json} {cs start stop rest : List Char} (hstart : Blanks cs start)
      (hj : ValueText j start stop) (hstop : Blanks stop (']' :: rest)) : ItemsText [j] cs rest
  | more {j : Json} {items : List Json} {cs start stop next rest : List Char}
      (hstart : Blanks cs start) (hj : ValueText j start stop) (hstop : Blanks stop (',' :: next))
      (h : ItemsText items next rest) : ItemsText (j :: items) cs rest

/-- The members of an object, one at least, and the closing brace. -/
inductive MembersText : List (String × Json) → List Char → List Char → Prop
  | last {key : String} {j : Json} {cs start stop rest : List Char} (hkey : KeyText key cs start)
      (hj : ValueText j start stop) (hstop : Blanks stop ('\x7d' :: rest)) :
      MembersText [(key, j)] cs rest
  | more {key : String} {j : Json} {members : List (String × Json)}
      {cs start stop next rest : List Char} (hkey : KeyText key cs start)
      (hj : ValueText j start stop) (hstop : Blanks stop (',' :: next))
      (h : MembersText members next rest) : MembersText ((key, j) :: members) cs rest

end

/-- A document: a value with blanks around it and nothing else. -/
def DocumentText (j : Json) (text : String) : Prop :=
  ∃ start stop, Blanks text.toList start ∧ ValueText j start stop ∧ Blanks stop []

/-! ## Blanks -/

theorem isBlank_iff {c : Char} : isBlank c = true ↔ c = ' ' ∨ c = '\n' ∨ c = '\t' ∨ c = '\r' := by
  simp [isBlank, or_assoc]

theorem blanks_skipBlanks (cs : List Char) : Blanks cs (skipBlanks cs) := by
  induction cs with
  | nil => exact .none []
  | cons c cs ih =>
    rw [skipBlanks, List.dropWhile_cons]
    split
    · rename_i hc
      exact .more (isBlank_iff.1 hc) ih
    · exact .none _

/-- The reader goes past blanks. -/
theorem Blanks.skipBlanks_eq {cs rest : List Char} (h : Blanks cs rest) :
    skipBlanks cs = skipBlanks rest := by
  induction h with
  | none => rfl
  | more hc _ ih =>
    rw [← ih, skipBlanks, List.dropWhile_cons, if_pos (isBlank_iff.2 hc)]
    rfl

theorem Blanks.skipBlanks_cons {cs rest : List Char} {c : Char} (h : Blanks cs (c :: rest))
    (hc : isBlank c = false) : skipBlanks cs = c :: rest := by
  rw [h.skipBlanks_eq, Json.skipBlanks_cons hc]

/-! ## What is read -/

/-- Blanks behind blanks are blanks. -/
theorem Blanks.trans {cs mid rest : List Char} (h : Blanks cs mid) (h' : Blanks mid rest) :
    Blanks cs rest := by
  induction h with
  | none => exact h'
  | more hc _ ih => exact .more hc (ih h')

theorem ItemsText.after {items : List Json} {cs mid rest : List Char} (hblanks : Blanks cs mid)
    (h : ItemsText items mid rest) : ItemsText items cs rest := by
  cases h with
  | last hstart hj hstop => exact .last (hblanks.trans hstart) hj hstop
  | more hstart hj hstop h => exact .more (hblanks.trans hstart) hj hstop h

theorem KeyText.after {key : String} {cs mid rest : List Char} (hblanks : Blanks cs mid)
    (h : KeyText key mid rest) : KeyText key cs rest := by
  rcases h with ⟨hname, hkey, hcolon, hstart⟩
  exact ⟨hblanks.trans hname, hkey, hcolon, hstart⟩

theorem MembersText.after {members : List (String × Json)} {cs mid rest : List Char}
    (hblanks : Blanks cs mid) (h : MembersText members mid rest) : MembersText members cs rest := by
  cases h with
  | last hkey hj hstop => exact .last (hkey.after hblanks) hj hstop
  | more hkey hj hstop h => exact .more (hkey.after hblanks) hj hstop h

theorem expect_eq_some {word cs rest : List Char} (h : expect word cs = some rest) :
    cs = word ++ rest := by
  induction word generalizing cs with
  | nil =>
    cases h
    rfl
  | cons w word ih =>
    rcases cs with _ | ⟨c, cs⟩
    · cases h
    rw [expect] at h
    split at h
    · rename_i hw
      rw [ih h, hw]
      rfl
    · cases h

/-- A number is not nested. -/
theorem Numeral.nesting_of_value? {n : Numeral} {j : Json} (h : n.value? = some j) :
    j.nesting = 0 := by
  have hdouble : ∀ {o : Option Double}, o.map ofDouble = some j → j.nesting = 0 := by
    intro o ho
    rcases Option.map_eq_some_iff.1 ho with ⟨x, -, rfl⟩
    unfold ofDouble
    split <;> rfl
  unfold value? at h
  dsimp only at h
  split at h
  · split at h
    · exact hdouble (o := some (Double.zero true)) h
    · -- The integer with its sign, if it fits.
      split at h
      all_goals
        split at h
        · cases h
          rfl
        · exact hdouble h
  · exact hdouble h

mutual

/-- What is read as a value is one, with blanks before it, and not nested too deeply.  The cases are
those of the reader, one for each character that can open a value. -/
theorem value?_eq_some {fuel depth : Nat} {j : Json} {cs rest : List Char}
    (h : value? fuel depth cs = some (j, rest)) :
    j.nesting ≤ depth ∧ ∃ start, Blanks cs start ∧ ValueText j start rest := by
  obtain ⟨fuel, rfl⟩ := Nat.exists_eq_add_one_of_ne_zero (show fuel ≠ 0 by rintro rfl; cases h)
  have hblanks := blanks_skipBlanks cs
  rw [value?] at h
  generalize skipBlanks cs = start at h hblanks
  rcases start with _ | ⟨c, after⟩
  · cases h
  dsimp only at h
  suffices hvalue : j.nesting ≤ depth ∧ ValueText j (c :: after) rest from
    ⟨hvalue.1, _, hblanks, hvalue.2⟩
  have hinner := blanks_skipBlanks after
  -- The first character after the blanks decides which rule of the grammar applies.
  split_ifs at h with hquote hbracket hbrace hn ht hf
  · rcases Option.bind_eq_some_iff.1 h with ⟨⟨s, rest⟩, hs, h⟩
    cases h
    exact ⟨Nat.zero_le _, hquote ▸ .text (string?_eq_some hs)⟩
  · obtain _ | depth := depth
    · cases h
    dsimp only at h
    split at h
    · rename_i hclose
      cases h
      exact ⟨Nat.succ_le_succ (Nat.zero_le _), hbracket ▸ .noItems (hclose ▸ hinner)⟩
    · rcases Option.bind_eq_some_iff.1 h with ⟨⟨items, rest⟩, hitems, h⟩
      cases h
      rcases items?_eq_some hitems with ⟨hdepth, htext⟩
      exact ⟨Nat.succ_le_succ hdepth, hbracket ▸ .items (htext.after hinner)⟩
  · obtain _ | depth := depth
    · cases h
    dsimp only at h
    split at h
    · rename_i hclose
      cases h
      exact ⟨Nat.succ_le_succ (Nat.zero_le _), hbrace ▸ .noMembers (hclose ▸ hinner)⟩
    · rcases Option.bind_eq_some_iff.1 h with ⟨⟨members, rest⟩, hmembers, h⟩
      cases h
      rcases members?_eq_some hmembers with ⟨hdepth, htext⟩
      exact ⟨Nat.succ_le_succ hdepth, hbrace ▸ .members (htext.after hinner)⟩
  · rcases Option.map_eq_some_iff.1 h with ⟨rest, hword, hj⟩
    cases hj
    rw [expect_eq_some hword, hn]
    exact ⟨Nat.zero_le _, .nullWord rest⟩
  · rcases Option.map_eq_some_iff.1 h with ⟨rest, hword, hj⟩
    cases hj
    rw [expect_eq_some hword, ht]
    exact ⟨Nat.zero_le _, .trueWord rest⟩
  · rcases Option.map_eq_some_iff.1 h with ⟨rest, hword, hj⟩
    cases hj
    rw [expect_eq_some hword, hf]
    exact ⟨Nat.zero_le _, .falseWord rest⟩
  · rcases Option.bind_eq_some_iff.1 h with ⟨⟨n, rest⟩, hread, h⟩
    rcases Option.bind_eq_some_iff.1 h with ⟨j, hj, h⟩
    cases h
    rw [Numeral.nesting_of_value? hj]
    exact ⟨Nat.zero_le _, .number (Numeral.text_of_read? hread) hj⟩
termination_by fuel

/-- The items that the reader returns stand in the text, and they are nested within its bound. -/
theorem items?_eq_some {fuel depth : Nat} {items : List Json} {cs rest : List Char}
    (h : items? fuel depth cs = some (items, rest)) :
    itemsNesting items ≤ depth ∧ ItemsText items cs rest := by
  obtain ⟨fuel, rfl⟩ := Nat.exists_eq_add_one_of_ne_zero (show fuel ≠ 0 by rintro rfl; cases h)
  rw [items?] at h
  rcases Option.bind_eq_some_iff.1 h with ⟨⟨j, stop⟩, hj, h⟩
  rcases value?_eq_some hj with ⟨hdepth, start, hstart, hvalue⟩
  have hstop := blanks_skipBlanks stop
  dsimp only at h
  split at h
  · rename_i hclose
    cases h
    exact ⟨Nat.max_le.2 ⟨hdepth, Nat.zero_le _⟩, .last hstart hvalue (hclose ▸ hstop)⟩
  · rename_i hcomma
    rcases Option.bind_eq_some_iff.1 h with ⟨⟨items, rest⟩, hitems, h⟩
    cases h
    rcases items?_eq_some hitems with ⟨hdepths, htext⟩
    exact ⟨Nat.max_le.2 ⟨hdepth, hdepths⟩, .more hstart hvalue (hcomma ▸ hstop) htext⟩
  · cases h
termination_by fuel

/-- The members that the reader returns stand in the text, and they are nested within its bound. -/
theorem members?_eq_some {fuel depth : Nat} {members : List (String × Json)} {cs rest : List Char}
    (h : members? fuel depth cs = some (members, rest)) :
    membersNesting members ≤ depth ∧ MembersText members cs rest := by
  obtain ⟨fuel, rfl⟩ := Nat.exists_eq_add_one_of_ne_zero (show fuel ≠ 0 by rintro rfl; cases h)
  have hname := blanks_skipBlanks cs
  rw [members?] at h
  split at h
  · rename_i hquote
    rcases Option.bind_eq_some_iff.1 h with ⟨⟨key, colon⟩, hkey, h⟩
    have hcolon := blanks_skipBlanks colon
    dsimp only at h
    split at h
    · rename_i hmark
      rcases Option.bind_eq_some_iff.1 h with ⟨⟨j, stop⟩, hj, h⟩
      rcases value?_eq_some hj with ⟨hdepth, start, hstart, hvalue⟩
      have hstop := blanks_skipBlanks stop
      have hkey : KeyText key cs start :=
        ⟨hquote ▸ hname, string?_eq_some hkey, hmark ▸ hcolon, hstart⟩
      dsimp only at h
      split at h
      · rename_i hclose
        cases h
        exact ⟨Nat.max_le.2 ⟨hdepth, Nat.zero_le _⟩, .last hkey hvalue (hclose ▸ hstop)⟩
      · rename_i hcomma
        rcases Option.bind_eq_some_iff.1 h with ⟨⟨members, rest⟩, hmembers, h⟩
        cases h
        rcases members?_eq_some hmembers with ⟨hdepths, htext⟩
        exact ⟨Nat.max_le.2 ⟨hdepth, hdepths⟩, .more hkey hvalue (hcomma ▸ hstop) htext⟩
      · cases h
    · cases h
  · cases h
termination_by fuel

end

/-! ## Reading any text -/

theorem Blanks.length_le {cs rest : List Char} (h : Blanks cs rest) : rest.length ≤ cs.length := by
  induction h with
  | none => exact Nat.le_refl _
  | more hc _ ih =>
    rw [List.length_cons]
    omega

/-- Blanks do not go on with a number. -/
theorem Blanks.endsNumber {cs rest : List Char} (h : Blanks cs rest) (hrest : EndsNumber rest) :
    EndsNumber cs := by
  cases h with
  | none => exact hrest
  | more hc =>
    refine endsNumber_of_cons _ ?_
    rcases hc with rfl | rfl | rfl | rfl <;> decide

theorem Numeral.Text.length_lt {n : Numeral} {cs rest : List Char} (h : n.Text cs rest) :
    rest.length < cs.length := by
  rcases h with ⟨hn, text, -, rfl⟩
  have hpos := List.length_pos_of_ne_nil hn.whole_ne_nil
  simp only [List.length_append]
  omega

/-- A value opens with no blank and no closing bracket. -/
theorem ValueText.exists_cons {j : Json} {start rest : List Char} (h : ValueText j start rest) :
    ∃ c after, start = c :: after ∧ isBlank c = false ∧ c ≠ ']' := by
  cases h with
  | number hn hj =>
    rcases hn.exists_cons with ⟨c, after, hstart, hc⟩
    exact ⟨c, after, hstart, hc.isBlank, hc.ne (by decide) (by decide)⟩
  | _ => exact ⟨_, _, rfl, by decide, by decide⟩

/-- Without the blanks before them, items are items and no closing bracket. -/
theorem ItemsText.exists_cons {items : List Json} {cs rest : List Char}
    (h : ItemsText items cs rest) :
    ∃ c after, skipBlanks cs = c :: after ∧ c ≠ ']' ∧ ItemsText items (c :: after) rest := by
  cases h with
  | last hstart hj hstop =>
    rcases hj.exists_cons with ⟨c, after, rfl, hblank, hclose⟩
    exact ⟨c, after, hstart.skipBlanks_cons hblank, hclose, .last (.none _) hj hstop⟩
  | more hstart hj hstop hnext =>
    rcases hj.exists_cons with ⟨c, after, rfl, hblank, hclose⟩
    exact ⟨c, after, hstart.skipBlanks_cons hblank, hclose, .more (.none _) hj hstop hnext⟩

/-- Without the blanks before them, members open with a quote. -/
theorem MembersText.exists_cons {members : List (String × Json)} {cs rest : List Char}
    (h : MembersText members cs rest) :
    ∃ after, skipBlanks cs = '"' :: after ∧ MembersText members ('"' :: after) rest := by
  cases h with
  | last hkey hj hstop =>
    rcases hkey with ⟨hname, hkey, hcolon, hstart⟩
    exact ⟨_, hname.skipBlanks_cons (by decide), .last ⟨.none _, hkey, hcolon, hstart⟩ hj hstop⟩
  | more hkey hj hstop hnext =>
    rcases hkey with ⟨hname, hkey, hcolon, hstart⟩
    exact ⟨_, hname.skipBlanks_cons (by decide),
      .more ⟨.none _, hkey, hcolon, hstart⟩ hj hstop hnext⟩

/-- The name of a member and the colon after it are read before its value. -/
theorem KeyText.exists_after {key : String} {cs start : List Char} (h : KeyText key cs start) :
    ∃ after, Blanks after start ∧ after.length < cs.length ∧ ∀ fuel depth,
      members? (fuel + 1) depth cs = (value? fuel depth after).bind fun p =>
        match skipBlanks p.2 with
        | '\x7d' :: rest => some ([(key, p.1)], rest)
        | ',' :: rest => (members? fuel depth rest).bind fun q => some ((key, p.1) :: q.1, q.2)
        | _ => none := by
  rcases h with ⟨hname, hkey, hcolon, hstart⟩
  have hle := hname.length_le
  have hlt := hkey.length_lt
  have hle' := hcolon.length_le
  simp only [List.length_cons] at hle hle'
  refine ⟨_, hstart, by omega, fun fuel depth => ?_⟩
  rw [members?, hname.skipBlanks_cons (by decide)]
  simp only [hkey.string?_eq, Option.bind_eq_bind, Option.bind_some,
    hcolon.skipBlanks_cons (show isBlank ':' = false by decide)]
  rfl

theorem length_skipBlanks_le (cs : List Char) : (skipBlanks cs).length ≤ cs.length :=
  (blanks_skipBlanks cs).length_le

mutual

/-- Any text of a value is read as the value if what follows does not go on with a number.  The
induction is on the fuel; two units a character are enough, since no two calls in a row read
nothing. -/
theorem value?_of_text {fuel depth : Nat} {j : Json} {cs start rest : List Char}
    (hstart : Blanks cs start) (h : ValueText j start rest) (hfuel : 2 * cs.length ≤ fuel)
    (hdepth : j.nesting ≤ depth) (hrest : EndsNumber rest) :
    rest.length < start.length ∧ value? fuel depth cs = some (j, rest) := by
  have hlength := hstart.length_le
  have hskip : ∀ {c : Char} {after : List Char}, start = c :: after → isBlank c = false →
      skipBlanks cs = c :: after := by
    rintro c after rfl hc
    exact hstart.skipBlanks_cons hc
  -- One step is for the opening character; what is read inside is shorter by it, which pays for the
  -- steps of items and members.
  obtain ⟨fuel, rfl⟩ : ∃ n, fuel = n + 1 := by
    rcases h.exists_cons with ⟨c, after, rfl, -⟩
    rw [List.length_cons] at hlength
    exact ⟨fuel - 1, by omega⟩
  cases h with
  | nullWord =>
    rw [value?, hskip rfl (by decide)]
    exact ⟨by simp only [List.length_cons]; omega, rfl⟩
  | trueWord =>
    rw [value?, hskip rfl (by decide)]
    exact ⟨by simp only [List.length_cons]; omega, rfl⟩
  | falseWord =>
    rw [value?, hskip rfl (by decide)]
    exact ⟨by simp only [List.length_cons]; omega, rfl⟩
  | number hn hj =>
    rcases hn.exists_cons with ⟨c, after, rfl, hc⟩
    rw [value?_numeral hn (hskip rfl hc.isBlank) _ _ hrest, hj]
    exact ⟨hn.length_lt, rfl⟩
  | text hs =>
    have hlt := hs.length_lt
    rw [value?, hskip rfl (by decide)]
    refine ⟨by simp only [List.length_cons]; omega, ?_⟩
    simp [hs.string?_eq]
  | noItems hclose =>
    have hlt := hclose.length_le
    rw [nesting] at hdepth
    obtain ⟨depth, rfl⟩ := Nat.exists_eq_add_one_of_ne_zero (show depth ≠ 0 by omega)
    rw [value?, hskip rfl (by decide)]
    simp only [List.length_cons] at *
    refine ⟨by omega, ?_⟩
    simp [hclose.skipBlanks_cons (show isBlank ']' = false by decide)]
  | items hitems =>
    rw [nesting] at hdepth
    obtain ⟨depth, rfl⟩ := Nat.exists_eq_add_one_of_ne_zero (show depth ≠ 0 by omega)
    rcases hitems.exists_cons with ⟨c, after, hinner, hclose, hitems⟩
    have hle := hinner ▸ length_skipBlanks_le _
    simp only [List.length_cons] at *
    rcases items?_of_text hitems (show 2 * (after.length + 1) + 1 ≤ fuel by omega)
      (Nat.le_of_succ_le_succ hdepth) with ⟨hlt, hread⟩
    rw [List.length_cons] at hlt
    rw [value?, hskip rfl (by decide)]
    refine ⟨by omega, ?_⟩
    simp [hinner, hclose, hread]
  | noMembers hclose =>
    have hlt := hclose.length_le
    rw [nesting] at hdepth
    obtain ⟨depth, rfl⟩ := Nat.exists_eq_add_one_of_ne_zero (show depth ≠ 0 by omega)
    rw [value?, hskip rfl (by decide)]
    simp only [List.length_cons] at *
    refine ⟨by omega, ?_⟩
    simp [hclose.skipBlanks_cons (show isBlank '\x7d' = false by decide)]
  | members hmembers =>
    rw [nesting] at hdepth
    obtain ⟨depth, rfl⟩ := Nat.exists_eq_add_one_of_ne_zero (show depth ≠ 0 by omega)
    rcases hmembers.exists_cons with ⟨after, hinner, hmembers⟩
    have hle := hinner ▸ length_skipBlanks_le _
    simp only [List.length_cons] at *
    rcases members?_of_text hmembers (show 2 * (after.length + 1) + 1 ≤ fuel by omega)
      (Nat.le_of_succ_le_succ hdepth) with ⟨hlt, hread⟩
    rw [List.length_cons] at hlt
    rw [value?, hskip rfl (by decide)]
    refine ⟨by omega, ?_⟩
    simp [hinner, hread]
termination_by fuel

/-- Items that stand in a text are read, if the fuel and the bound on nesting suffice. -/
theorem items?_of_text {fuel depth : Nat} {items : List Json} {cs rest : List Char}
    (h : ItemsText items cs rest) (hfuel : 2 * cs.length + 1 ≤ fuel)
    (hdepth : itemsNesting items ≤ depth) :
    rest.length < cs.length ∧ items? fuel depth cs = some (items, rest) := by
  obtain ⟨fuel, rfl⟩ := Nat.exists_eq_add_one_of_ne_zero (show fuel ≠ 0 by omega)
  cases h with
  | last hstart hj hstop =>
    rw [itemsNesting, Nat.max_le] at hdepth
    have hends := hstop.endsNumber (endsNumber_of_cons _ (by decide))
    rcases value?_of_text hstart hj (show 2 * _ ≤ fuel by omega) hdepth.1 hends with ⟨hlt, hvalue⟩
    have hle := hstart.length_le
    have hle' := hstop.length_le
    rw [List.length_cons] at hle'
    refine ⟨by omega, ?_⟩
    rw [items?, hvalue]
    simp [hstop.skipBlanks_cons (show isBlank ']' = false by decide)]
  | more hstart hj hstop hnext =>
    rw [itemsNesting, Nat.max_le] at hdepth
    have hends := hstop.endsNumber (endsNumber_of_cons _ (by decide))
    rcases value?_of_text hstart hj (show 2 * _ ≤ fuel by omega) hdepth.1 hends with ⟨hlt, hvalue⟩
    have hle := hstart.length_le
    have hle' := hstop.length_le
    rw [List.length_cons] at hle'
    rcases items?_of_text hnext (show 2 * _ + 1 ≤ fuel by omega) hdepth.2 with ⟨hlt', hitems⟩
    refine ⟨by omega, ?_⟩
    rw [items?, hvalue]
    simp [hstop.skipBlanks_cons (show isBlank ',' = false by decide), hitems]
termination_by fuel

/-- Members that stand in a text are read, if the fuel and the bound on nesting suffice. -/
theorem members?_of_text {fuel depth : Nat} {members : List (String × Json)} {cs rest : List Char}
    (h : MembersText members cs rest) (hfuel : 2 * cs.length + 1 ≤ fuel)
    (hdepth : membersNesting members ≤ depth) :
    rest.length < cs.length ∧ members? fuel depth cs = some (members, rest) := by
  obtain ⟨fuel, rfl⟩ := Nat.exists_eq_add_one_of_ne_zero (show fuel ≠ 0 by omega)
  cases h with
  | last hkey hj hstop =>
    rw [membersNesting, Nat.max_le] at hdepth
    have hends := hstop.endsNumber (endsNumber_of_cons _ (by decide))
    rcases hkey.exists_after with ⟨after, hstart, hlength, hmember⟩
    rcases value?_of_text hstart hj (show 2 * _ ≤ fuel by omega) hdepth.1 hends with ⟨hlt, hvalue⟩
    have hle := hstart.length_le
    have hle' := hstop.length_le
    rw [List.length_cons] at hle'
    refine ⟨by omega, ?_⟩
    rw [hmember, hvalue]
    simp [hstop.skipBlanks_cons (show isBlank '\x7d' = false by decide)]
  | more hkey hj hstop hnext =>
    rw [membersNesting, Nat.max_le] at hdepth
    have hends := hstop.endsNumber (endsNumber_of_cons _ (by decide))
    rcases hkey.exists_after with ⟨after, hstart, hlength, hmember⟩
    rcases value?_of_text hstart hj (show 2 * _ ≤ fuel by omega) hdepth.1 hends with ⟨hlt, hvalue⟩
    have hle := hstart.length_le
    have hle' := hstop.length_le
    rw [List.length_cons] at hle'
    rcases members?_of_text hnext (show 2 * _ + 1 ≤ fuel by omega) hdepth.2 with ⟨hlt', hread⟩
    refine ⟨by omega, ?_⟩
    rw [hmember, hvalue]
    simp [hstop.skipBlanks_cons (show isBlank ',' = false by decide), hread]
termination_by fuel

end

/-- The reader finds the value of a document that is not nested too deeply, and nothing else. -/
theorem read?_eq_some {text : String} {j : Json} :
    read? text = some j ↔ DocumentText j text ∧ j.nesting ≤ nestingLimit := by
  constructor
  · intro h
    rcases Option.bind_eq_some_iff.1 h with ⟨⟨j, stop⟩, hread, h⟩
    rcases value?_eq_some hread with ⟨hdepth, start, hstart, hvalue⟩
    have hstop := blanks_skipBlanks stop
    rcases Option.ite_none_right_eq_some.1 h with ⟨hempty, hj⟩
    cases hj
    rw [List.isEmpty_iff.1 hempty] at hstop
    exact ⟨⟨start, stop, hstart, hvalue, hstop⟩, hdepth⟩
  · rintro ⟨⟨start, stop, hstart, hvalue, hstop⟩, hdepth⟩
    have hends : EndsNumber stop := hstop.endsNumber fun c hc => by cases hc
    have hread := (value?_of_text hstart hvalue (Nat.le_add_right _ 2) hdepth hends).2
    rw [read?]
    simp only [hread, Option.bind_eq_bind, Option.bind_some, hstop.skipBlanks_eq]
    rfl

end Json
end Espalier
