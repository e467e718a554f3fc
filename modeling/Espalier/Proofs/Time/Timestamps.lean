import Espalier.Proofs.Text.Runs
import Espalier.Store.Codec

/-!
# The texts of a datetime column

A datetime as it is written: a day, a day with a time, or a day with a time and an offset.  The
scanners take every form whose numbers have at most their digits, blanks before them and a year with
a sign, unless it has an offset; the documented forms are those in which every number has exactly
its digits and nothing else stands in the text.  No text has two forms, so the texts that a column
takes beyond the documented ones are known.
-/

namespace Espalier
namespace Timestamp

open Text (Stops stops_cons stops_append takeWhile_append dropWhile_append)

/-! ## Datetimes as written -/

structure Figure where
  blanks : List Char
  digits : List Char

namespace Figure

def chars (f : Figure) : List Char :=
  f.blanks ++ f.digits

def value (f : Figure) : Nat :=
  Ascii.decimalValue f.digits

/-- Blanks, and at least one digit. -/
structure Lenient (f : Figure) : Prop where
  blanks : ∀ c ∈ f.blanks, Blank.isBlank c = true
  digits : ∀ c ∈ f.digits, c.isDigit = true
  nonempty : f.digits ≠ []

structure Exact (width : Nat) (f : Figure) : Prop where
  blanks : f.blanks = []
  digits : ∀ c ∈ f.digits, c.isDigit = true
  length : f.digits.length = width

/-- An exact figure is a lenient one. -/
theorem Exact.lenient {f : Figure} {width : Nat} (h : f.Exact width) (hwidth : 0 < width) :
    f.Lenient where
  blanks := by simp [h.blanks]
  digits := h.digits
  nonempty := List.length_pos_iff.1 (h.length ▸ hwidth)

theorem Exact.chars_eq {f : Figure} {width : Nat} (h : f.Exact width) : f.chars = f.digits := by
  rw [chars, h.blanks, List.nil_append]

end Figure

def signChars : Option Bool → List Char
  | none => []
  | some true => ['-']
  | some false => ['+']

structure Day where
  sign : Option Bool
  year : Figure
  month : Figure
  day : Figure

namespace Day

def chars (d : Day) : List Char :=
  d.year.blanks ++ (signChars d.sign ++ (d.year.digits ++
    '-' :: (d.month.chars ++ '-' :: d.day.chars)))

def yearValue (d : Day) : Int :=
  if d.sign = some true then -(d.year.value : Int) else d.year.value

/-- A year of up to four digits, or of any length after a sign. -/
structure Lenient (d : Day) : Prop where
  year : d.year.Lenient
  month : d.month.Lenient
  day : d.day.Lenient
  yearLength : d.sign = none → d.year.digits.length ≤ 4
  monthLength : d.month.digits.length ≤ 2
  dayLength : d.day.digits.length ≤ 2

structure Exact (d : Day) : Prop where
  sign : d.sign = none
  year : d.year.Exact 4
  month : d.month.Exact 2
  day : d.day.Exact 2

/-- There is such a day in the calendar. -/
def Exists (d : Day) : Prop :=
  isDate d.yearValue d.month.value d.day.value = true

theorem Exact.lenient {d : Day} (h : d.Exact) : d.Lenient where
  year := h.year.lenient (by decide)
  month := h.month.lenient (by decide)
  day := h.day.lenient (by decide)
  yearLength _ := Nat.le_of_eq h.year.length
  monthLength := Nat.le_of_eq h.month.length
  dayLength := Nat.le_of_eq h.day.length

end Day

def fractionChars : Option (List Char) → List Char
  | none => []
  | some ds => '.' :: ds

structure Clock where
  hour : Figure
  minute : Figure
  second : Figure
  fraction : Option (List Char)

namespace Clock

def chars (c : Clock) : List Char :=
  c.hour.chars ++ ':' :: (c.minute.chars ++ ':' :: (c.second.chars ++ fractionChars c.fraction))

structure Lenient (c : Clock) : Prop where
  hour : c.hour.Lenient
  minute : c.minute.Lenient
  second : c.second.Lenient
  hourLength : c.hour.digits.length ≤ 2
  minuteLength : c.minute.digits.length ≤ 2
  secondLength : c.second.digits.length ≤ 2
  fraction : ∀ ds ∈ c.fraction, ds ≠ [] ∧ ∀ c ∈ ds, c.isDigit = true

structure Exact (c : Clock) : Prop where
  hour : c.hour.Exact 2
  minute : c.minute.Exact 2
  second : c.second.Exact 2
  fraction : ∀ ds ∈ c.fraction, ds ≠ [] ∧ ∀ c ∈ ds, c.isDigit = true

/-- There is such a time of day, a leap second included. -/
def Exists (c : Clock) : Prop :=
  isTime c.hour.value c.minute.value c.second.value = true

theorem Exact.lenient {c : Clock} (h : c.Exact) : c.Lenient where
  hour := h.hour.lenient (by decide)
  minute := h.minute.lenient (by decide)
  second := h.second.lenient (by decide)
  hourLength := Nat.le_of_eq h.hour.length
  minuteLength := Nat.le_of_eq h.minute.length
  secondLength := Nat.le_of_eq h.second.length
  fraction := h.fraction

end Clock

inductive Offset where
  | none (mark : Char)
  | shift (sign : Char) (hours minutes : Figure)

namespace Offset

def chars : Offset → List Char
  | none mark => [mark]
  | shift sign hours minutes => sign :: (hours.chars ++ ':' :: minutes.chars)

/-- The offset has all its digits and one of some signs. -/
def Within (signs : List Char) : Offset → Prop
  | none mark => mark = 'Z' ∨ mark = 'z'
  | shift sign hours minutes =>
    sign ∈ signs ∧ hours.Exact 2 ∧ minutes.Exact 2 ∧ hours.value ≤ 23 ∧ minutes.value ≤ 59

/-- An offset with few signs is one with more. -/
theorem Within.mono {signs signs' : List Char} (h : ∀ c ∈ signs, c ∈ signs') {o : Offset}
    (ho : o.Within signs) : o.Within signs' := by
  cases o with
  | none mark => exact ho
  | shift sign hours minutes => exact ⟨h sign ho.1, ho.2⟩

end Offset

inductive Form where
  | day (d : Day)
  | dayTime (d : Day) (c : Clock)
  | instant (d : Day) (mark : Char) (c : Clock) (o : Offset)

namespace Form

def chars : Form → List Char
  | day d => d.chars
  | dayTime d c => d.chars ++ 'T' :: c.chars
  | instant d mark c o => d.chars ++ mark :: (c.chars ++ o.chars)

/-- The forms that are taken: only those with an offset must have all their digits. -/
def Taken : Form → Prop
  | day d => d.Lenient ∧ d.Exists
  | dayTime d c => d.Lenient ∧ c.Lenient ∧ d.Exists ∧ c.Exists
  | instant d mark c o => d.Exact ∧ mark ∈ ['T', 't', ' '] ∧ c.Exact ∧
      o.Within ['+', '-', '\u2212'] ∧ d.Exists ∧ c.Exists

/-- The forms that are documented: `YYYY-MM-DD`, `YYYY-MM-DDTHH:MM:SS` with or without a fraction,
and the latter with an offset, as RFC 3339 has it. -/
def Documented : Form → Prop
  | day d => d.Exact ∧ d.Exists
  | dayTime d c => d.Exact ∧ c.Exact ∧ d.Exists ∧ c.Exists
  | instant d mark c o => d.Exact ∧ mark ∈ ['T', 't', ' '] ∧ c.Exact ∧
      o.Within ['+', '-'] ∧ d.Exists ∧ c.Exists

theorem Documented.taken {f : Form} (h : f.Documented) : f.Taken := by
  cases f with
  | day d => exact ⟨h.1.lenient, h.2⟩
  | dayTime d c => exact ⟨h.1.lenient, h.2.1.lenient, h.2.2⟩
  | instant d mark c o =>
    exact ⟨h.1, h.2.1, h.2.2.1, h.2.2.2.1.mono (by simp +contextual), h.2.2.2.2⟩

end Form

def Documented (s : String) : Prop :=
  ∃ f : Form, f.Documented ∧ f.chars = s.toList

/-! ## One form a text -/

variable {ds ds' rest rest' : List Char}

/-- A figure ends where its digits do. -/
theorem Figure.eq_of_append_eq {f f' : Figure} (hf : f.Lenient) (hf' : f'.Lenient)
    (hrest : Stops Char.isDigit rest) (hrest' : Stops Char.isDigit rest')
    (h : f.chars ++ rest = f'.chars ++ rest') : f = f' ∧ rest = rest' := by
  rcases f with ⟨blanks, digits⟩
  rcases f' with ⟨blanks', digits'⟩
  rw [chars, chars, List.append_assoc, List.append_assoc] at h
  have hstops : ∀ {f : Figure} (rest), f.Lenient → Stops Blank.isBlank (f.digits ++ rest) :=
    fun rest hf =>
      stops_append hf.nonempty (fun c hc => Blank.isBlank_of_isDigit (hf.digits c hc)) rest
  rcases Text.eq_of_append_eq hf.blanks hf'.blanks (hstops rest hf) (hstops rest' hf') h with
    ⟨hblanks, h⟩
  rcases Text.eq_of_append_eq hf.digits hf'.digits hrest hrest' h with ⟨hdigits, heq⟩
  rw [Figure.mk.injEq]
  exact ⟨⟨hblanks, hdigits⟩, heq⟩

/-- The digits of a year and what follows do not open with a sign. -/
theorem eq_of_signChars_append_eq {sign sign' : Option Bool} {cs cs' : List Char}
    (hcs : Stops (fun c => c == '+' || c == '-') cs)
    (hcs' : Stops (fun c => c == '+' || c == '-') cs')
    (h : signChars sign ++ cs = signChars sign' ++ cs') : sign = sign' ∧ cs = cs' := by
  have hopens : ∀ {c rest}, (c = '+' ∨ c = '-') → ∀ {cs},
      Stops (fun c => c == '+' || c == '-') cs → cs ≠ c :: rest := by
    rintro c rest hc cs hcs rfl
    have := hcs c rfl
    rcases hc with rfl | rfl <;> cases this
  rcases sign with _ | _ | _ <;> rcases sign' with _ | _ | _ <;>
    simp only [signChars, List.nil_append, List.cons_append, List.cons.injEq] at h
  all_goals first
    | exact ⟨rfl, h⟩
    | exact ⟨rfl, h.2⟩
    | exact (hopens (by decide) hcs h).elim
    | exact (hopens (by decide) hcs' h.symm).elim
    | exact absurd h.1 (by decide)

/-- A day is told from what follows it. -/
theorem Day.eq_of_append_eq {d d' : Day} (hd : d.Lenient) (hd' : d'.Lenient)
    (hrest : Stops Char.isDigit rest) (hrest' : Stops Char.isDigit rest')
    (h : d.chars ++ rest = d'.chars ++ rest') : d = d' ∧ rest = rest' := by
  have hsign : ∀ {f : Figure} (rest), f.Lenient →
      Stops (fun c => c == '+' || c == '-') (f.digits ++ rest) := by
    intro f rest hf
    refine stops_append hf.nonempty (fun c hc => ?_) rest
    have hdigit := hf.digits c hc
    cases hc : c == '+' || c == '-' with
    | false => rfl
    | true =>
      rw [Bool.or_eq_true, beq_iff_eq, beq_iff_eq] at hc
      rcases hc with rfl | rfl <;> cases hdigit
  have hblank : ∀ {f : Figure} (sign rest), f.Lenient →
      Stops Blank.isBlank (signChars sign ++ (f.digits ++ rest)) := by
    intro f sign rest hf
    rcases sign with _ | _ | _
    · exact stops_append hf.nonempty (fun c hc => Blank.isBlank_of_isDigit (hf.digits c hc)) rest
    · exact stops_cons (by decide) _
    · exact stops_cons (by decide) _
  have hmark : ∀ cs, Stops Char.isDigit ('-' :: cs) := stops_cons (by decide)
  -- Each part stops where a character of another kind follows, so they are told one after another.
  rcases d with ⟨sign, ⟨blanks, digits⟩, month, day⟩
  rcases d' with ⟨sign', ⟨blanks', digits'⟩, month', day'⟩
  simp only [chars, List.append_assoc, List.cons_append] at h
  obtain ⟨rfl, hafter⟩ := Text.eq_of_append_eq hd.year.blanks hd'.year.blanks
    (hblank _ _ hd.year) (hblank _ _ hd'.year) h
  obtain ⟨rfl, hdigits⟩ := eq_of_signChars_append_eq (hsign _ hd.year) (hsign _ hd'.year) hafter
  obtain ⟨rfl, hmonth⟩ := Text.eq_of_append_eq hd.year.digits hd'.year.digits
    (hmark _) (hmark _) hdigits
  obtain ⟨rfl, hday⟩ := Figure.eq_of_append_eq hd.month hd'.month (hmark _) (hmark _)
    (List.cons.inj hmonth).2
  obtain ⟨rfl, heq⟩ := Figure.eq_of_append_eq hd.day hd'.day hrest hrest' (List.cons.inj hday).2
  exact ⟨rfl, heq⟩

/-- What may follow a time: no digit, and no point if there is no fraction. -/
def EndsClock (rest : List Char) : Prop :=
  Stops (fun c => c.isDigit || c == '.') rest

theorem EndsClock.stops (h : EndsClock rest) : Stops Char.isDigit rest :=
  fun c hc => (Bool.or_eq_false_iff.1 (h c hc)).1

theorem stops_fractionChars {fraction : Option (List Char)} (h : EndsClock rest) :
    Stops Char.isDigit (fractionChars fraction ++ rest) := by
  cases fraction with
  | none => exact h.stops
  | some ds => exact stops_cons (by decide) _

/-- A fraction is told from what follows it. -/
theorem eq_of_fractionChars_append_eq {fraction fraction' : Option (List Char)}
    (hfraction : ∀ ds ∈ fraction, ds ≠ [] ∧ ∀ c ∈ ds, c.isDigit = true)
    (hfraction' : ∀ ds ∈ fraction', ds ≠ [] ∧ ∀ c ∈ ds, c.isDigit = true)
    (hrest : EndsClock rest) (hrest' : EndsClock rest')
    (h : fractionChars fraction ++ rest = fractionChars fraction' ++ rest') :
    fraction = fraction' ∧ rest = rest' := by
  have hopens : ∀ {rest ds}, EndsClock rest → rest ≠ '.' :: ds := by
    rintro _ ds hrest rfl
    exact absurd (hrest '.' rfl) (by decide)
  cases fraction with
  | none =>
    cases fraction' with
    | none => exact ⟨rfl, h⟩
    | some ds' => exact (hopens hrest h).elim
  | some ds =>
    cases fraction' with
    | none => exact (hopens hrest' h.symm).elim
    | some ds' =>
      obtain ⟨rfl, heq⟩ := Text.eq_of_append_eq (hfraction ds rfl).2 (hfraction' ds' rfl).2
        hrest.stops hrest'.stops (List.cons.inj h).2
      exact ⟨rfl, heq⟩

/-- A clock is told from what follows it. -/
theorem Clock.eq_of_append_eq {c c' : Clock} (hc : c.Lenient) (hc' : c'.Lenient)
    (hrest : EndsClock rest) (hrest' : EndsClock rest')
    (h : c.chars ++ rest = c'.chars ++ rest') : c = c' ∧ rest = rest' := by
  have hmark : ∀ cs, Stops Char.isDigit (':' :: cs) := stops_cons (by decide)
  rcases c with ⟨hour, minute, second, fraction⟩
  rcases c' with ⟨hour', minute', second', fraction'⟩
  simp only [chars, List.append_assoc, List.cons_append] at h
  obtain ⟨rfl, hminute⟩ := Figure.eq_of_append_eq hc.hour hc'.hour (hmark _) (hmark _) h
  obtain ⟨rfl, hsecond⟩ := Figure.eq_of_append_eq hc.minute hc'.minute (hmark _) (hmark _)
    (List.cons.inj hminute).2
  obtain ⟨rfl, hfraction⟩ := Figure.eq_of_append_eq hc.second hc'.second
    (stops_fractionChars hrest) (stops_fractionChars hrest') (List.cons.inj hsecond).2
  obtain ⟨rfl, heq⟩ := eq_of_fractionChars_append_eq hc.fraction hc'.fraction hrest hrest'
    hfraction
  exact ⟨rfl, heq⟩

/-- The sign of an offset, or the mark that stands for none. -/
theorem Offset.Within.endsClock {o : Offset} (h : o.Within ['+', '-', '\u2212']) :
    EndsClock o.chars := by
  cases o with
  | none mark => rcases h with rfl | rfl <;> exact stops_cons (by decide) _
  | shift sign hours minutes =>
    rcases h with ⟨hsign, -⟩
    simp only [List.mem_cons, List.not_mem_nil, or_false] at hsign
    rcases hsign with rfl | rfl | rfl <;> exact stops_cons (by decide) _

/-- Offsets with one text are one offset. -/
theorem Offset.eq_of_chars_eq {o o' : Offset} (h : o.Within ['+', '-', '\u2212'])
    (h' : o'.Within ['+', '-', '\u2212']) (heq : o.chars = o'.chars) : o = o' := by
  have hsigns : ∀ {mark : Char}, mark = 'Z' ∨ mark = 'z' → mark ∉ ['+', '-', '\u2212'] := by
    rintro _ (rfl | rfl) <;> decide
  have hend : Stops Char.isDigit [] := by rintro c ⟨⟩
  have hcolon : ∀ cs, Stops Char.isDigit (':' :: cs) := stops_cons (by decide)
  cases o with
  | none mark =>
    cases o' with
    | none mark' => exact congrArg _ (List.cons.inj heq).1
    | shift sign hours minutes =>
      exact (hsigns h ((List.cons.inj heq).1 ▸ h'.1)).elim
  | shift sign hours minutes =>
    cases o' with
    | none mark' => exact (hsigns h' ((List.cons.inj heq).1 ▸ h.1)).elim
    | shift sign' hours' minutes' =>
      rcases List.cons.inj heq with ⟨rfl, hparts⟩
      rcases h with ⟨-, hhours, hminutes, -⟩
      rcases h' with ⟨-, hhours', hminutes', -⟩
      obtain ⟨rfl, hlast⟩ := Figure.eq_of_append_eq (hhours.lenient (by decide))
        (hhours'.lenient (by decide)) (hcolon _) (hcolon _) hparts
      have hlast : minutes.chars ++ [] = minutes'.chars ++ [] := by
        rw [(List.cons.inj hlast).2]
      rw [(Figure.eq_of_append_eq (hminutes.lenient (by decide)) (hminutes'.lenient (by decide))
        hend hend hlast).1]

namespace Form

def theDay : Form → Day
  | day d => d
  | dayTime d _ => d
  | instant d _ _ _ => d

def afterDay : Form → List Char
  | day _ => []
  | dayTime _ c => 'T' :: c.chars
  | instant _ mark c o => mark :: (c.chars ++ o.chars)

theorem chars_eq (f : Form) : f.chars = f.theDay.chars ++ f.afterDay := by
  cases f with
  | day d => exact (List.append_nil _).symm
  | _ => rfl

theorem Taken.lenient {f : Form} (h : f.Taken) : f.theDay.Lenient := by
  cases f with
  | instant d mark c o => exact h.1.lenient
  | _ => exact h.1

theorem Taken.stops_afterDay {f : Form} (h : f.Taken) : Stops Char.isDigit f.afterDay := by
  cases f with
  | day d => rintro c ⟨⟩
  | dayTime d c => exact stops_cons (by decide) _
  | instant d mark c o =>
    rcases h with ⟨-, hmark, -⟩
    simp only [List.mem_cons, List.not_mem_nil, or_false] at hmark
    rcases hmark with rfl | rfl | rfl <;> exact stops_cons (by decide) _

theorem endsClock_nil : EndsClock [] := by
  rintro c ⟨⟩

/-- A time alone is no time with an offset. -/
theorem clock_chars_ne {c c' : Clock} {o : Offset} (hc : c.Lenient) (hc' : c'.Lenient)
    (ho : o.Within ['+', '-', '\u2212']) : c.chars ≠ c'.chars ++ o.chars := by
  intro h
  have hend : c.chars ++ [] = c'.chars ++ o.chars := by rw [List.append_nil, h]
  have hnil := (Clock.eq_of_append_eq hc hc' endsClock_nil ho.endsClock hend).2
  cases o <;> cases hnil

/-- A text has at most one form. -/
theorem eq_of_chars_eq {f f' : Form} (h : f.Taken) (h' : f'.Taken) (heq : f.chars = f'.chars) :
    f = f' := by
  rw [chars_eq, chars_eq] at heq
  obtain ⟨hday, hafter⟩ := Day.eq_of_append_eq h.lenient h'.lenient h.stops_afterDay
    h'.stops_afterDay heq
  -- A day alone ends here, and a clock without an offset ends where one with an offset goes on.
  cases f with
  | day d =>
    cases f' with
    | day d' => exact congrArg day hday
    | _ => cases hafter
  | dayTime d c =>
    rcases h with ⟨-, hc, -⟩
    cases f' with
    | day d' => cases hafter
    | dayTime d' c' =>
      have hend : c.chars ++ [] = c'.chars ++ [] := by rw [(List.cons.inj hafter).2]
      rw [(Clock.eq_of_append_eq hc h'.2.1 endsClock_nil endsClock_nil hend).1,
        show d = d' from hday]
    | instant d' mark c' o =>
      rcases h' with ⟨-, -, hc', ho, -⟩
      exact (clock_chars_ne hc hc'.lenient ho (List.cons.inj hafter).2).elim
  | instant d mark c o =>
    rcases h with ⟨-, -, hc, ho, -⟩
    cases f' with
    | day d' => cases hafter
    | dayTime d' c' =>
      exact (clock_chars_ne h'.2.1 hc.lenient ho (List.cons.inj hafter).2.symm).elim
    | instant d' mark' c' o' =>
      rcases h' with ⟨-, -, hc', ho', -⟩
      rcases List.cons.inj hafter with ⟨hmark, hclock⟩
      obtain ⟨rfl, hoffset⟩ := Clock.eq_of_append_eq hc.lenient hc'.lenient ho.endsClock
        ho'.endsClock hclock
      rw [Offset.eq_of_chars_eq ho ho' hoffset, hmark, show d = d' from hday]

end Form

/-! ## What is scanned -/

section Scan

variable {α β : Type} {cs : List Char}

theorem bind_apply (x : Scan α) (f : α → Scan β) (cs : List Char) :
    (x >>= f) cs = (x cs).bind fun r => f r.1 r.2 :=
  rfl

/-- A scan goes on with what its first part leaves. -/
theorem bind_of_eq_some {x : Scan α} {a : α} (h : x cs = some (a, rest)) (f : α → Scan β) :
    (x >>= f) cs = f a rest := by
  rw [bind_apply, h, Option.bind_some]

theorem pure_apply (a : α) (cs : List Char) : (pure a : Scan α) cs = some (a, cs) :=
  rfl

/-- A scan after another takes what that one leaves. -/
theorem bind_eq_some {x : Scan α} {f : α → Scan β} {r : β × List Char} :
    (x >>= f) cs = some r ↔ ∃ a rest, x cs = some (a, rest) ∧ f a rest = some r := by
  rw [bind_apply, Option.bind_eq_some_iff, Prod.exists]

theorem oneOf_eq_some {signs : List Char} {c : Char} :
    oneOf signs cs = some (c, rest) ↔ c ∈ signs ∧ cs = c :: rest := by
  cases cs with
  | nil => simp [oneOf]
  | cons d cs =>
    rw [oneOf]
    split
    · rename_i hd
      rw [List.contains_iff_mem] at hd
      simp only [Option.some.injEq, Prod.mk.injEq, List.cons.injEq]
      exact ⟨fun h => ⟨h.1 ▸ hd, h⟩, And.right⟩
    · rename_i hd
      rw [List.contains_iff_mem] at hd
      simp only [reduceCtorEq, false_iff, not_and, List.cons.injEq]
      rintro hc rfl
      exact absurd hc hd

theorem exactly_eq_some {c : Char} {u : Unit} : exactly c cs = some (u, rest) ↔ cs = c :: rest := by
  rw [exactly, bind_eq_some]
  simp [oneOf_eq_some, pure_apply]

theorem require_eq_some {condition : Bool} {u : Unit} :
    require condition cs = some (u, rest) ↔ condition = true ∧ cs = rest := by
  cases condition <;> simp [require]

/-- A number is read up to its digits. -/
theorem number_append {least most : Nat} (hds : ∀ c ∈ ds, c.isDigit = true)
    (hleast : least ≤ ds.length) (hmost : ds.length ≤ most)
    (hrest : ds.length = most ∨ Stops Char.isDigit rest) :
    number least most (ds ++ rest) = some (Ascii.decimalValue ds, rest) := by
  have hstops : Stops Char.isDigit (rest.take (most - ds.length)) := by
    rcases hrest with hfull | hstops
    · rw [hfull, Nat.sub_self, List.take_zero]
      rintro c ⟨⟩
    · intro c hc
      refine hstops c ?_
      rw [List.head?_take] at hc
      split at hc
      · cases hc
      · exact hc
  have htake : ((ds ++ rest).take most).takeWhile Char.isDigit = ds := by
    rw [List.take_append, List.take_of_length_le hmost, takeWhile_append hds hstops]
  rw [number]
  simp only [htake, if_neg (Nat.not_lt.2 hleast), List.drop_left]

/-- What is read as a number is its digits. -/
theorem number_eq_some {least most v : Nat} (h : number least most cs = some (v, rest)) :
    ∃ ds, (∀ c ∈ ds, c.isDigit = true) ∧ least ≤ ds.length ∧ ds.length ≤ most ∧
      v = Ascii.decimalValue ds ∧ cs = ds ++ rest := by
  rw [number] at h
  generalize htake : (cs.take most).takeWhile Char.isDigit = ds at h
  split at h
  · cases h
  · rename_i hleast
    cases h
    have hprefix : ds <+: cs := htake ▸ (List.takeWhile_prefix _).trans (List.take_prefix _ _)
    refine ⟨ds, fun c hc => List.mem_takeWhile_imp (htake ▸ hc), Nat.not_lt.1 hleast, ?_, rfl,
      (List.prefix_iff_eq_append.1 hprefix).symm⟩
    rw [← htake]
    exact Nat.le_trans (List.takeWhile_prefix _).length_le (List.length_take_le _ _)

/-- A number of a fixed width is scanned whatever follows. -/
theorem number_self_eq_some {width v : Nat} :
    number width width cs = some (v, rest) ↔
      ∃ f : Figure, f.Exact width ∧ f.value = v ∧ cs = f.chars ++ rest := by
  constructor
  · intro h
    rcases number_eq_some h with ⟨ds, hds, hleast, hmost, rfl, rfl⟩
    exact ⟨⟨[], ds⟩, ⟨rfl, hds, Nat.le_antisymm hmost hleast⟩, rfl, rfl⟩
  · rintro ⟨f, hf, rfl, rfl⟩
    rw [hf.chars_eq, number_append hf.digits (Nat.le_of_eq hf.length.symm) (Nat.le_of_eq hf.length)
      (.inl hf.length)]
    rfl

theorem anyNumber_append (hds : ∀ c ∈ ds, c.isDigit = true) (hne : ds ≠ [])
    (hrest : Stops Char.isDigit rest) :
    anyNumber (ds ++ rest) = some (Ascii.decimalValue ds, rest) := by
  refine number_append hds (List.length_pos_iff.2 hne) ?_ (.inr hrest)
  rw [List.length_append]
  exact Nat.le_add_right _ _

theorem anyNumber_eq_some {v : Nat} (h : anyNumber cs = some (v, rest)) :
    ∃ ds, (∀ c ∈ ds, c.isDigit = true) ∧ ds ≠ [] ∧ v = Ascii.decimalValue ds ∧ cs = ds ++ rest := by
  rcases number_eq_some h with ⟨ds, hds, hleast, -, hv, hcs⟩
  exact ⟨ds, hds, List.length_pos_iff.1 hleast, hv, hcs⟩

/-- A fraction is read up to its digits. -/
theorem fraction_append {ds? : Option (List Char)}
    (hds : ∀ ds ∈ ds?, ds ≠ [] ∧ ∀ c ∈ ds, c.isDigit = true) (hrest : EndsClock rest) :
    fraction (fractionChars ds? ++ rest) = some ((), rest) := by
  cases ds? with
  | none =>
    rw [fractionChars, List.nil_append, fraction]
    rintro cs rfl
    exact absurd (hrest '.' rfl) (by decide)
  | some ds =>
    rcases hds ds rfl with ⟨hne, hdigits⟩
    rw [fractionChars, List.cons_append, fraction, anyNumber_append hdigits hne hrest.stops]
    rfl

/-- What is read as a fraction is one. -/
theorem fraction_eq_some {u : Unit} (h : fraction cs = some (u, rest)) :
    ∃ ds? : Option (List Char), (∀ ds ∈ ds?, ds ≠ [] ∧ ∀ c ∈ ds, c.isDigit = true) ∧
      cs = fractionChars ds? ++ rest := by
  unfold fraction at h
  split at h
  · rcases Option.map_eq_some_iff.1 h with ⟨⟨v, rest⟩, hnumber, hrest⟩
    cases hrest
    rcases anyNumber_eq_some hnumber with ⟨ds, hds, hne, -, rfl⟩
    exact ⟨some ds, by rintro _ ⟨⟩; exact ⟨hne, hds⟩, rfl⟩
  · cases h
    exact ⟨none, by rintro _ ⟨⟩, rfl⟩

/-- A lenient figure is read with its blanks. -/
theorem looseNumber_append {f : Figure} (hf : f.Lenient) (hlength : f.digits.length ≤ 2)
    (hrest : Stops Char.isDigit rest) : looseNumber (f.chars ++ rest) = some (f.value, rest) := by
  have hblanks : (f.blanks ++ (f.digits ++ rest)).dropWhile Blank.isBlank = f.digits ++ rest :=
    dropWhile_append hf.blanks
      (stops_append hf.nonempty (fun c hc => Blank.isBlank_of_isDigit (hf.digits c hc)) rest)
  rw [looseNumber, bind_apply, skipBlanks, Figure.chars, List.append_assoc, hblanks,
    Option.bind_some,
    number_append hf.digits (List.length_pos_iff.2 hf.nonempty) hlength (.inr hrest)]
  rfl

/-- What is read leniently is a figure. -/
theorem looseNumber_eq_some {v : Nat} (h : looseNumber cs = some (v, rest)) :
    ∃ f : Figure, f.Lenient ∧ f.digits.length ≤ 2 ∧ f.value = v ∧ cs = f.chars ++ rest := by
  rw [looseNumber, bind_eq_some] at h
  rcases h with ⟨_, start, hskip, hnumber⟩
  cases hskip
  rcases number_eq_some hnumber with ⟨ds, hds, hleast, hmost, rfl, hcs⟩
  refine ⟨⟨cs.takeWhile Blank.isBlank, ds⟩, ⟨fun c hc => List.mem_takeWhile_imp hc, hds,
    List.length_pos_iff.1 hleast⟩, hmost, rfl, ?_⟩
  rw [Figure.chars, List.append_assoc, ← hcs, List.takeWhile_append_dropWhile]

/-- The characters of a year: blanks, a sign, digits. -/
theorem looseYear_append {sign : Option Bool} {f : Figure} (hf : f.Lenient)
    (hlength : sign = none → f.digits.length ≤ 4) (hrest : Stops Char.isDigit rest) :
    looseYear (f.blanks ++ (signChars sign ++ (f.digits ++ rest))) =
      some (if sign = some true then -(f.value : Int) else f.value, rest) := by
  have hskip : (f.blanks ++ (signChars sign ++ (f.digits ++ rest))).dropWhile Blank.isBlank =
      signChars sign ++ (f.digits ++ rest) := by
    refine dropWhile_append hf.blanks ?_
    rcases sign with _ | _ | _
    · exact stops_append hf.nonempty (fun c hc => Blank.isBlank_of_isDigit (hf.digits c hc)) rest
    · exact stops_cons (by decide) _
    · exact stops_cons (by decide) _
  rw [looseYear, bind_apply, skipBlanks, hskip, Option.bind_some]
  have hany := anyNumber_append hf.digits hf.nonempty hrest
  rcases sign with _ | _ | _
  · have hnumber := number_append hf.digits (List.length_pos_iff.2 hf.nonempty) (hlength rfl)
      (.inr hrest)
    obtain ⟨c, ds, hcons⟩ := List.exists_cons_of_ne_nil hf.nonempty
    have hdigit : c.isDigit = true := hf.digits c (hcons ▸ List.mem_cons_self)
    rw [signChars, List.nil_append]
    split
    · rename_i hopens
      rw [hcons] at hopens
      cases hopens
      cases hdigit
    · rename_i hopens
      rw [hcons] at hopens
      cases hopens
      cases hdigit
    · rw [hnumber]
      rfl
  · simp only [signChars, List.cons_append, List.nil_append, hany]
    rfl
  · simp only [signChars, List.cons_append, List.nil_append, hany]
    rfl

theorem looseYear_eq_some {v : Int} (h : looseYear cs = some (v, rest)) :
    ∃ (sign : Option Bool) (f : Figure), f.Lenient ∧ (sign = none → f.digits.length ≤ 4) ∧
      (if sign = some true then -(f.value : Int) else f.value) = v ∧
      cs = f.blanks ++ (signChars sign ++ (f.digits ++ rest)) := by
  rw [looseYear, bind_eq_some] at h
  rcases h with ⟨_, start, hskip, hyear⟩
  cases hskip
  have hsplit : cs = cs.takeWhile Blank.isBlank ++ cs.dropWhile Blank.isBlank :=
    List.takeWhile_append_dropWhile.symm
  have hblanks : ∀ c ∈ cs.takeWhile Blank.isBlank, Blank.isBlank c = true :=
    fun c hc => List.mem_takeWhile_imp hc
  generalize cs.dropWhile Blank.isBlank = start at hyear hsplit
  split at hyear
  · rcases Option.map_eq_some_iff.1 hyear with ⟨⟨n, rest⟩, hnumber, hv⟩
    cases hv
    rcases anyNumber_eq_some hnumber with ⟨ds, hds, hne, rfl, rfl⟩
    exact ⟨some true, ⟨_, ds⟩, ⟨hblanks, hds, hne⟩, (nomatch ·), rfl, hsplit⟩
  · rcases Option.map_eq_some_iff.1 hyear with ⟨⟨n, rest⟩, hnumber, hv⟩
    cases hv
    rcases anyNumber_eq_some hnumber with ⟨ds, hds, hne, rfl, rfl⟩
    exact ⟨some false, ⟨_, ds⟩, ⟨hblanks, hds, hne⟩, (nomatch ·), rfl, hsplit⟩
  · rcases Option.map_eq_some_iff.1 hyear with ⟨⟨n, rest⟩, hnumber, hv⟩
    cases hv
    rcases number_eq_some hnumber with ⟨ds, hds, hleast, hmost, rfl, rfl⟩
    exact ⟨none, ⟨_, ds⟩, ⟨hblanks, hds, List.length_pos_iff.1 hleast⟩, fun _ => hmost, rfl, hsplit⟩

/-- A lenient day is read if there is such a day. -/
theorem looseDate_append {d : Day} (hd : d.Lenient) (hexists : d.Exists)
    (hrest : Stops Char.isDigit rest) : looseDate (d.chars ++ rest) = some ((), rest) := by
  have hmark : ∀ cs, Stops Char.isDigit ('-' :: cs) := stops_cons (by decide)
  have hexactly : ∀ cs, exactly '-' ('-' :: cs) = some ((), cs) :=
    fun cs => exactly_eq_some.2 rfl
  simp only [Day.chars, List.append_assoc, List.cons_append]
  rw [looseDate, bind_of_eq_some (looseYear_append hd.year hd.yearLength (hmark _)),
    bind_of_eq_some (hexactly _),
    bind_of_eq_some (looseNumber_append hd.month hd.monthLength (hmark _)),
    bind_of_eq_some (hexactly _), bind_of_eq_some (looseNumber_append hd.day hd.dayLength hrest)]
  exact require_eq_some.2 ⟨hexists, rfl⟩

/-- What is read as a lenient day is one, and the day exists. -/
theorem looseDate_eq_some {u : Unit} (h : looseDate cs = some (u, rest)) :
    ∃ d : Day, d.Lenient ∧ d.Exists ∧ cs = d.chars ++ rest := by
  simp only [looseDate, bind_eq_some, exactly_eq_some, require_eq_some] at h
  rcases h with ⟨y, _, hyear, _, _, rfl, m, _, hmonth, _, _, rfl, d, _, hday, hexists, rfl⟩
  rcases looseYear_eq_some hyear with ⟨sign, year, hy, hylength, rfl, rfl⟩
  rcases looseNumber_eq_some hmonth with ⟨month, hm, hmlength, rfl, rfl⟩
  rcases looseNumber_eq_some hday with ⟨day, hd, hdlength, rfl, rfl⟩
  refine ⟨⟨sign, year, month, day⟩, ⟨hy, hm, hd, hylength, hmlength, hdlength⟩, hexists, ?_⟩
  simp only [Day.chars, List.append_assoc, List.cons_append]

/-- A lenient day and a lenient clock are read if both exist. -/
theorem looseDateTime_append {d : Day} {c : Clock} (hd : d.Lenient) (hc : c.Lenient)
    (hday : d.Exists) (hclock : c.Exists) (hrest : EndsClock rest) :
    looseDateTime (d.chars ++ 'T' :: (c.chars ++ rest)) = some ((), rest) := by
  have hmark : ∀ cs, Stops Char.isDigit (':' :: cs) := stops_cons (by decide)
  have hexactly : ∀ c cs, exactly c (c :: cs) = some ((), cs) :=
    fun c cs => exactly_eq_some.2 rfl
  simp only [Clock.chars, List.append_assoc, List.cons_append]
  rw [looseDateTime, bind_of_eq_some (looseDate_append hd hday (stops_cons (by decide) _)),
    bind_of_eq_some (hexactly _ _),
    bind_of_eq_some (looseNumber_append hc.hour hc.hourLength (hmark _)),
    bind_of_eq_some (hexactly _ _),
    bind_of_eq_some (looseNumber_append hc.minute hc.minuteLength (hmark _)),
    bind_of_eq_some (hexactly _ _),
    bind_of_eq_some (looseNumber_append hc.second hc.secondLength (stops_fractionChars hrest)),
    bind_of_eq_some (fraction_append hc.fraction hrest)]
  exact require_eq_some.2 ⟨hclock, rfl⟩

/-- What is read as a lenient date and time is one, and both exist. -/
theorem looseDateTime_eq_some {u : Unit} (h : looseDateTime cs = some (u, rest)) :
    ∃ (d : Day) (c : Clock), d.Lenient ∧ c.Lenient ∧ d.Exists ∧ c.Exists ∧
      cs = d.chars ++ 'T' :: (c.chars ++ rest) := by
  simp only [looseDateTime, bind_eq_some, exactly_eq_some, require_eq_some] at h
  rcases h with ⟨_, _, hdate, _, _, rfl, h, _, hhour, _, _, rfl, m, _, hminute, _, _, rfl, s, _,
    hsecond, _, _, hfraction, hexists, rfl⟩
  rcases looseDate_eq_some hdate with ⟨d, hd, hday, rfl⟩
  rcases looseNumber_eq_some hhour with ⟨hour, hh, hhlength, rfl, rfl⟩
  rcases looseNumber_eq_some hminute with ⟨minute, hm, hmlength, rfl, rfl⟩
  rcases looseNumber_eq_some hsecond with ⟨second, hs, hslength, rfl, rfl⟩
  rcases fraction_eq_some hfraction with ⟨ds?, hds, rfl⟩
  refine ⟨d, ⟨hour, minute, second, ds?⟩, hd, ⟨hh, hm, hs, hhlength, hmlength, hslength, hds⟩,
    hday, hexists, ?_⟩
  simp only [Clock.chars, List.append_assoc, List.cons_append]

/-- The signs that the scanner knows; the last one is the typographic minus. -/
theorem offset_eq_some {u : Unit} :
    offset cs = some (u, rest) ↔
      ∃ o : Offset, o.Within ['+', '-', '\u2212'] ∧ cs = o.chars ++ rest := by
  -- Behind a sign both directions are the same reading of hours and minutes.
  have hshift : ∀ {after}, (do
      let hours ← number 2 2
      exactly ':'
      let minutes ← number 2 2
      require (hours ≤ 23 && minutes ≤ 59) : Scan Unit) after = some (u, rest) ↔
        ∃ hours minutes : Figure, hours.Exact 2 ∧ minutes.Exact 2 ∧ hours.value ≤ 23 ∧
          minutes.value ≤ 59 ∧ after = hours.chars ++ ':' :: (minutes.chars ++ rest) := by
    intro after
    simp only [bind_eq_some, exactly_eq_some, require_eq_some, number_self_eq_some,
      Bool.and_eq_true, decide_eq_true_eq]
    constructor
    · rintro ⟨_, _, ⟨hours, hh, rfl, rfl⟩, _, _, rfl, _, _, ⟨minutes, hm, rfl, rfl⟩, hle, rfl⟩
      exact ⟨hours, minutes, hh, hm, hle.1, hle.2, rfl⟩
    · rintro ⟨hours, minutes, hh, hm, hhle, hmle, rfl⟩
      exact ⟨_, _, ⟨hours, hh, rfl, rfl⟩, (), _, rfl, _, _, ⟨minutes, hm, rfl, rfl⟩,
        ⟨hhle, hmle⟩, rfl⟩
  rw [offset, bind_eq_some]
  constructor
  · rintro ⟨sign, after, hsign, hoffset⟩
    rcases oneOf_eq_some.1 hsign with ⟨hmem, rfl⟩
    split at hoffset
    · rename_i hmark
      cases hoffset
      exact ⟨.none sign, hmark, rfl⟩
    · rename_i hmark
      rcases hshift.1 hoffset with ⟨hours, minutes, hh, hm, hhle, hmle, rfl⟩
      have hmem : sign ∈ ['+', '-', '\u2212'] := by
        simp only [List.mem_cons, not_or] at hmem hmark ⊢
        simpa [hmark] using hmem
      refine ⟨.shift sign hours minutes, ⟨hmem, hh, hm, hhle, hmle⟩, ?_⟩
      simp only [Offset.chars, List.append_assoc, List.cons_append]
  · rintro ⟨o, ho, rfl⟩
    cases o with
    | none mark =>
      refine ⟨mark, rest, oneOf_eq_some.2 ⟨?_, rfl⟩, ?_⟩
      · rcases ho with rfl | rfl <;> decide
      · rw [if_pos (show mark = 'Z' ∨ mark = 'z' from ho)]
        rfl
    | shift sign hours minutes =>
      rcases ho with ⟨hsign, hh, hm, hhle, hmle⟩
      refine ⟨sign, hours.chars ++ ':' :: (minutes.chars ++ rest), oneOf_eq_some.2 ⟨?_, ?_⟩, ?_⟩
      · exact List.mem_cons_of_mem _ (List.mem_cons_of_mem _ hsign)
      · simp only [Offset.chars, List.append_assoc, List.cons_append]
      · have hmark : ¬ (sign = 'Z' ∨ sign = 'z') := by
          rintro (rfl | rfl) <;> exact absurd hsign (by decide)
        rw [if_neg hmark]
        exact hshift.2 ⟨hours, minutes, hh, hm, hhle, hmle, rfl⟩

/-- A strict instant is read. -/
theorem strict_append {d : Day} {mark : Char} {c : Clock} {o : Offset} (hd : d.Exact)
    (hmark : mark ∈ ['T', 't', ' ']) (hc : c.Exact) (ho : o.Within ['+', '-', '\u2212'])
    (hday : d.Exists) (hclock : c.Exists) :
    strict (d.chars ++ mark :: (c.chars ++ o.chars)) = some ((), []) := by
  rcases d with ⟨sign, year, month, day⟩
  rcases hd with ⟨hsign, hyear, hmonth, hdate⟩
  have hnone : sign = none := hsign
  subst hnone
  have hfigure : ∀ {width : Nat} {f : Figure} (rest), f.Exact width →
      number width width (f.chars ++ rest) = some (f.value, rest) :=
    fun rest hf => number_self_eq_some.2 ⟨_, hf, rfl, rfl⟩
  have hexactly : ∀ c cs, exactly c (c :: cs) = some ((), cs) :=
    fun c cs => exactly_eq_some.2 rfl
  have hyearChars : ∀ rest, year.blanks ++ (year.digits ++ rest) = year.chars ++ rest :=
    fun rest => (List.append_assoc _ _ _).symm
  have hoffset : offset o.chars = some ((), []) :=
    offset_eq_some.2 ⟨o, ho, (List.append_nil _).symm⟩
  simp only [Day.chars, signChars, List.nil_append, hyearChars, Clock.chars, List.append_assoc,
    List.cons_append]
  rw [strict, bind_of_eq_some (hfigure _ hyear), bind_of_eq_some (hexactly _ _),
    bind_of_eq_some (hfigure _ hmonth), bind_of_eq_some (hexactly _ _),
    bind_of_eq_some (hfigure _ hdate), bind_of_eq_some (oneOf_eq_some.2 ⟨hmark, rfl⟩),
    bind_of_eq_some (hfigure _ hc.hour), bind_of_eq_some (hexactly _ _),
    bind_of_eq_some (hfigure _ hc.minute), bind_of_eq_some (hexactly _ _),
    bind_of_eq_some (hfigure _ hc.second),
    bind_of_eq_some (fraction_append hc.fraction ho.endsClock), bind_of_eq_some hoffset]
  refine require_eq_some.2 ⟨Bool.and_eq_true_iff.2 ⟨?_, hclock⟩, rfl⟩
  exact hday

/-- What is read as a strict instant is taken. -/
theorem strict_eq_some {u : Unit} (h : strict cs = some (u, [])) :
    ∃ (d : Day) (mark : Char) (c : Clock) (o : Offset),
      (Form.instant d mark c o).Taken ∧ cs = (Form.instant d mark c o).chars := by
  simp only [strict, bind_eq_some, exactly_eq_some, require_eq_some, oneOf_eq_some,
    number_self_eq_some, offset_eq_some, Bool.and_eq_true] at h
  rcases h with ⟨_, _, ⟨year, hy, rfl, rfl⟩, _, _, rfl, _, _, ⟨month, hm, rfl, rfl⟩, _, _, rfl,
    _, _, ⟨day, hd, rfl, rfl⟩, mark, _, ⟨hmark, rfl⟩, _, _, ⟨hour, hh, rfl, rfl⟩, _, _, rfl,
    _, _, ⟨minute, hmin, rfl, rfl⟩, _, _, rfl, _, _, ⟨second, hs, rfl, rfl⟩, _, _, hfraction,
    _, _, ⟨o, ho, rfl⟩, ⟨hday, hclock⟩, rfl⟩
  rcases fraction_eq_some hfraction with ⟨ds?, hds, rfl⟩
  refine ⟨⟨none, year, month, day⟩, mark, ⟨hour, minute, second, ds?⟩, o,
    ⟨⟨rfl, hy, hm, hd⟩, hmark, ⟨hh, hmin, hs, hds⟩, ho, hday, hclock⟩, ?_⟩
  simp only [Form.chars, Day.chars, signChars, Clock.chars, Figure.chars, List.append_assoc,
    List.cons_append, List.nil_append, List.append_nil]

end Scan

/-! ## Whole texts -/

/-- A scan takes all of a text just if nothing is left behind it. -/
theorem takesAll_iff {α : Type} {scan : Scan α} {s : String} :
    takesAll scan s = true ↔ ∃ a, scan s.toList = some (a, []) := by
  unfold takesAll
  split
  · rename_i h
    simp [h]
  · rename_i h
    simp only [reduceCtorEq, false_iff, not_exists]
    exact h

/-- The datetimes are the texts that have a form that is taken. -/
theorem isTimestamp_iff (s : String) :
    isTimestamp s = true ↔ ∃ f : Form, f.Taken ∧ f.chars = s.toList := by
  simp only [isTimestamp, Bool.or_eq_true, takesAll_iff]
  constructor
  · rintro ((⟨_, h⟩ | ⟨_, h⟩) | ⟨_, h⟩)
    · rcases strict_eq_some h with ⟨d, mark, c, o, htaken, hchars⟩
      exact ⟨_, htaken, hchars.symm⟩
    · rcases looseDateTime_eq_some h with ⟨d, c, hd, hc, hday, hclock, hchars⟩
      rw [List.append_nil] at hchars
      exact ⟨.dayTime d c, ⟨hd, hc, hday, hclock⟩, hchars.symm⟩
    · rcases looseDate_eq_some h with ⟨d, hd, hday, hchars⟩
      rw [List.append_nil] at hchars
      exact ⟨.day d, ⟨hd, hday⟩, hchars.symm⟩
  · rintro ⟨f, htaken, hchars⟩
    rw [← hchars]
    cases f with
    | day d =>
      rcases htaken with ⟨hd, hday⟩
      have hscan := looseDate_append hd hday Form.endsClock_nil.stops
      rw [List.append_nil] at hscan
      exact .inr ⟨_, hscan⟩
    | dayTime d c =>
      rcases htaken with ⟨hd, hc, hday, hclock⟩
      have hscan := looseDateTime_append hd hc hday hclock Form.endsClock_nil
      rw [List.append_nil] at hscan
      exact .inl (.inr ⟨_, hscan⟩)
    | instant d mark c o =>
      rcases htaken with ⟨hd, hmark, hc, ho, hday, hclock⟩
      exact .inl (.inl ⟨_, strict_append hd hmark hc ho hday hclock⟩)

/-- The form of a text decides whether it is a documented one. -/
theorem Form.Taken.documented_iff {f : Form} (h : f.Taken) {s : String} (hs : f.chars = s.toList) :
    Timestamp.Documented s ↔ f.Documented := by
  constructor
  · rintro ⟨f', hf', hs'⟩
    rwa [eq_of_chars_eq h hf'.taken (hs.trans hs'.symm)]
  · exact fun hf => ⟨f, hf, hs⟩

end Timestamp

namespace Store
namespace Codec

open Timestamp (Form Documented)

/-- A datetime column takes every documented text, and it takes the text of any other form that the
scanners know, which is then no documented one.  It refuses all other texts. -/
theorem encode_datetime (column s : String) :
    (Documented s → encode .datetime column (.text s) = .ok (.text s)) ∧
      (∀ f : Form, f.Taken → f.chars = s.toList →
        encode .datetime column (.text s) = .ok (.text s) ∧ (Documented s ↔ f.Documented)) ∧
      ((∀ f : Form, f.Taken → f.chars ≠ s.toList) →
        encode .datetime column (.text s) =
          .error (.typeMismatch column .datetime s!"unparseable datetime '{s}'")) := by
  have hencode : encode .datetime column (.text s) =
      if Timestamp.isTimestamp s then .ok (.text s)
      else .error (.typeMismatch column .datetime s!"unparseable datetime '{s}'") := rfl
  have htaken : ∀ f : Form, f.Taken → f.chars = s.toList →
      encode .datetime column (.text s) = .ok (.text s) := by
    intro f hf hs
    rw [hencode, if_pos ((Timestamp.isTimestamp_iff s).2 ⟨f, hf, hs⟩)]
  refine ⟨fun ⟨f, hf, hs⟩ => htaken f hf.taken hs,
    fun f hf hs => ⟨htaken f hf hs, hf.documented_iff hs⟩, fun hnone => ?_⟩
  rw [hencode, if_neg]
  rw [Timestamp.isTimestamp_iff]
  rintro ⟨f, hf, hs⟩
  exact hnone f hf hs

/-- A day without leading zeros is kept as it stands, although only the one with them is documented;
what is no day is refused. -/
theorem encode_datetime_unpadded :
    encode .datetime "planted_at" (.text "2024-3-1") = .ok (.text "2024-3-1") ∧
      ¬ Documented "2024-3-1" ∧
      encode .datetime "planted_at" (.text "2024-03-01") = .ok (.text "2024-03-01") ∧
      encode .datetime "planted_at" (.text "2023-02-29") = .error
        (.typeMismatch "planted_at" .datetime "unparseable datetime '2023-02-29'") := by
  let year : Timestamp.Figure := ⟨[], ['2', '0', '2', '4']⟩
  have hyear : year.Exact 4 := ⟨rfl, List.all_eq_true.1 (by decide), rfl⟩
  have hdigits : ∀ {c : Char}, c.isDigit = true → Timestamp.Figure.Lenient ⟨[], [c]⟩ :=
    fun hc => ⟨nofun, by simpa using hc, by simp⟩
  have hshort : (Form.day ⟨none, year, ⟨[], ['3']⟩, ⟨[], ['1']⟩⟩).Taken :=
    ⟨⟨hyear.lenient (by decide), hdigits (by decide), hdigits (by decide), by decide, by decide,
      by decide⟩, by unfold Timestamp.Day.Exists; decide⟩
  have hfull : (Form.day ⟨none, year, ⟨[], ['0', '3']⟩, ⟨[], ['0', '1']⟩⟩).Documented :=
    ⟨⟨rfl, hyear, ⟨rfl, List.all_eq_true.1 (by decide), rfl⟩,
      ⟨rfl, List.all_eq_true.1 (by decide), rfl⟩⟩,
      by unfold Timestamp.Day.Exists; decide⟩
  have htaken := (encode_datetime "planted_at" "2024-3-1").2.1 _ hshort rfl
  refine ⟨htaken.1, fun h => ?_, (encode_datetime "planted_at" "2024-03-01").1 ⟨_, hfull, rfl⟩,
    (encode_datetime "planted_at" "2023-02-29").2.2 fun f hf hs => ?_⟩
  · exact absurd (htaken.2.1 h).1.month.length (by decide)
  · exact absurd ((Timestamp.isTimestamp_iff "2023-02-29").2 ⟨f, hf, hs⟩) (by decide)

end Codec
end Store
end Espalier
