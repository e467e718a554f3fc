import Espalier.Proofs.Number.Digits
import Espalier.Proofs.Text.Runs
import Espalier.Time.Duration
import Mathlib.Data.List.Basic
import Mathlib.Tactic.Ring

/-!
# Durations written and read again

A duration is written as amounts of units, the longest first, and each unit is filled up before the
next longer one is counted.  Reading adds the amounts up, and no sum on the way is longer than the
duration itself, so `Duration.ofText?_text` holds up to the longest duration there is.
-/

namespace Espalier
namespace Duration

open Text (Stops)

/-- A count of a unit under one of its names. -/
structure Amount where
  count : Nat
  unit : TimeUnit
  name : String

namespace Amount

def chars (a : Amount) : List Char :=
  Nat.toDigits 10 a.count ++ a.name.toList

def nanoseconds (a : Amount) : Nat :=
  a.count * a.unit.nanoseconds

/-- The name is one of the unit, made of letters, and an amount of a unit below a second is shorter
than one. -/
structure Readable (a : Amount) : Prop where
  unit : TimeUnit.ofName? a.name = some a.unit
  letters : ∀ c ∈ a.name.toList, isLetter c = true
  nonempty : a.name.toList ≠ []
  fine : a.unit.isFine = true → a.nanoseconds < 1000000000

end Amount

def total (as : List Amount) : Nat :=
  (as.map Amount.nanoseconds).sum

def joined (as : List Amount) : List Char :=
  [' '].intercalate (as.map Amount.chars)

/-! ## Reading one amount -/

/-- A letter goes on with neither the digits of a count nor a point behind them. -/
theorem of_isLetter {c : Char} (h : isLetter c = true) :
    (c.isDigit || Blank.isBlank c) = false ∧ c ≠ '.' := by
  have hnat : c.toNat = c.val.toNat := rfl
  have hvalue : 65 ≤ c.toNat ∧ c.toNat ≤ 90 ∨ 97 ≤ c.toNat ∧ c.toNat ≤ 122 ∨ c.toNat = 181 := by
    have hletter : isLetter c = (c.isUpper || c.isLower || c == 'µ') := rfl
    have hupper : c.isUpper = true ↔ 65 ≤ c.val ∧ c.val ≤ 90 := decide_eq_true_iff
    have hlower : c.isLower = true ↔ 97 ≤ c.val ∧ c.val ≤ 122 :=
      Bool.and_eq_true_iff.trans (and_congr decide_eq_true_iff decide_eq_true_iff)
    simp only [hletter, hupper, hlower, Bool.or_eq_true, beq_iff_eq,
      UInt32.le_iff_toNat_le] at h
    rcases h with (h | h) | rfl
    · exact .inl h
    · exact .inr (.inl h)
    · exact .inr (.inr rfl)
  refine ⟨?_, ?_⟩
  · simp [Char.isDigit, UInt32.le_iff_toNat_le, Blank.isBlank, Blank.ranges]
    omega
  · rintro rfl
    revert hvalue
    decide

/-- Digits are taken up to what follows the number. -/
theorem takeDigits_append {ds rest : List Char} (hds : ∀ c ∈ ds, c.isDigit = true)
    (hrest : Stops (fun c => c.isDigit || Blank.isBlank c) rest) :
    takeDigits (ds ++ rest) = (ds, rest) := by
  have hrun : ∀ c ∈ ds, (c.isDigit || Blank.isBlank c) = true := by
    intro c hc
    rw [hds c hc, Bool.true_or]
  rw [takeDigits, Text.takeWhile_append hrun hrest, Text.dropWhile_append hrun hrest,
    List.filter_eq_self.2 hds]

variable {a : Amount}

/-- The text of an amount is read as its number and its unit. -/
theorem term?_append (ha : a.Readable) {rest : List Char} (hrest : Stops isLetter rest) :
    term? (a.chars ++ rest) = some (⟨Nat.toDigits 10 a.count, none, a.name⟩, rest) := by
  obtain ⟨c, cs, hcs⟩ := List.exists_cons_of_ne_nil (Nat.toDigits_ne_nil (b := 10) (n := a.count))
  obtain ⟨l, ls, hls⟩ := List.exists_cons_of_ne_nil ha.nonempty
  have hdigits : ∀ c ∈ Nat.toDigits 10 a.count, c.isDigit = true := fun c => Ascii.isDigit_toDigits
  have hletter := of_isLetter (ha.letters l (by rw [hls]; exact List.mem_cons_self))
  have htake : takeDigits (a.chars ++ rest) = (Nat.toDigits 10 a.count, a.name.toList ++ rest) := by
    rw [Amount.chars, List.append_assoc, takeDigits_append hdigits]
    rw [hls]
    exact Text.stops_cons hletter.1 _
  have hopens : a.chars ++ rest = c :: (cs ++ a.name.toList ++ rest) := by
    rw [Amount.chars, hcs]
    rfl
  have hpoint : ∀ tail, a.name.toList ++ rest ≠ '.' :: tail := by
    intro tail heq
    rw [hls] at heq
    exact hletter.2 (List.cons.inj heq).1
  have hfirst : c.isDigit = true := hdigits c (by rw [hcs]; exact List.mem_cons_self)
  rw [hopens, term?, ← hopens, htake, if_neg (by simp [hfirst])]
  dsimp only
  split
  · rename_i tail heq
    exact absurd heq (hpoint tail)
  · rw [Text.takeWhile_append ha.letters hrest, Text.dropWhile_append ha.letters hrest,
      String.ofList_toList]

theorem word?_of_lt {n : Nat} (h : n < UInt64.size) : word? n = some n :=
  if_pos h

theorem ofNanoseconds?_of_lt {n : Nat} (h : n < UInt64.size * 1000000000) :
    ofNanoseconds? n = some ⟨n, h⟩ :=
  dif_pos h

/-- A unit that is not fine is so many seconds. -/
theorem TimeUnit.nanoseconds_eq {u : TimeUnit} (h : u.isFine = false) :
    0 < u.nanoseconds / 1000000000 ∧ u.nanoseconds = u.nanoseconds / 1000000000 * 1000000000 := by
  cases u <;> first | exact absurd h (by decide) | decide

/-- An amount is added to a duration if there is room for the sum. -/
theorem addTerm?_amount (ha : a.Readable) {d : Duration}
    (h : d.nanoseconds + a.nanoseconds < UInt64.size * 1000000000) :
    d.addTerm? ⟨Nat.toDigits 10 a.count, none, a.name⟩ =
      some ⟨d.nanoseconds + a.nanoseconds, h⟩ := by
  have hsize : UInt64.size = 18446744073709551616 := rfl
  have hsub : d.subseconds < 1000000000 := Nat.mod_lt _ (by decide)
  have hamount : a.nanoseconds = a.count * a.unit.nanoseconds := rfl
  have hadd : ∀ {e : Duration}, word? a.count = some a.count →
      d.addUnits? a.unit.isFine a.unit a.count 1 = some e →
      d.addTerm? ⟨Nat.toDigits 10 a.count, none, a.name⟩ = some e := by
    intro e hcount he
    simp only [addTerm?, ha.unit, Ascii.decimalValue_toDigits, Option.bind_eq_bind,
      Option.bind_some, hcount, he]
    rfl
  -- Fine units are added up in nanoseconds and coarse ones in seconds; both sums stay in a word.
  cases hfine : a.unit.isFine with
  | true =>
    have hshort := ha.fine hfine
    have hcount : a.count ≤ a.nanoseconds := by
      rw [hamount]
      exact Nat.le_mul_of_pos_right _ (by cases a.unit <;> decide)
    refine hadd (word?_of_lt (by omega)) ?_
    rw [hfine, addUnits?, if_pos rfl, ← hamount, word?_of_lt (by omega), Option.bind_eq_bind,
      Option.bind_some, Nat.div_one, addNanoseconds?, word?_of_lt (by omega), Option.bind_eq_bind,
      Option.bind_some, ofNanoseconds?_of_lt h]
  | false =>
    obtain ⟨hpos, hunit⟩ := TimeUnit.nanoseconds_eq hfine
    have hseconds : a.count * (a.unit.nanoseconds / 1000000000) * 1000000000 = a.nanoseconds := by
      rw [Nat.mul_assoc, ← hunit]
      rfl
    have hcount : a.count ≤ a.count * (a.unit.nanoseconds / 1000000000) :=
      Nat.le_mul_of_pos_right _ hpos
    refine hadd (word?_of_lt (by omega)) ?_
    rw [hfine, addUnits?, if_neg Bool.false_ne_true, word?_of_lt (by omega), Option.bind_eq_bind,
      Option.bind_some, Nat.div_one, addSeconds?, hseconds, ofNanoseconds?_of_lt h]

/-! ## Reading amounts -/

/-- What stands behind an amount that others follow. -/
def following (as : List Amount) : List Char :=
  if as = [] then [] else ' ' :: joined as

theorem joined_cons (a : Amount) (as : List Amount) :
    joined (a :: as) = a.chars ++ following as := by
  cases as with
  | nil => simp [joined, following]
  | cons b bs => simp [joined, following]

theorem stops_following (as : List Amount) : Stops isLetter (following as) := by
  rw [following]
  split
  · exact Text.stops_nil _
  · exact Text.stops_cons (by decide) _

/-- An amount opens with a digit. -/
theorem exists_chars (a : Amount) : ∃ c cs, a.chars = c :: cs ∧ c.isDigit = true := by
  obtain ⟨c, cs, hcs⟩ := List.exists_cons_of_ne_nil (Nat.toDigits_ne_nil (b := 10) (n := a.count))
  refine ⟨c, cs ++ a.name.toList, ?_, Ascii.isDigit_toDigits (n := a.count) ?_⟩
  · rw [Amount.chars, hcs]
    rfl
  · rw [hcs]
    exact List.mem_cons_self

theorem total_nil : total [] = 0 :=
  rfl

theorem total_cons (a : Amount) (as : List Amount) :
    total (a :: as) = a.nanoseconds + total as := by
  rw [total, List.map_cons, List.sum_cons, total]

theorem exists_joined {as : List Amount} (hne : as ≠ []) :
    ∃ c cs, joined as = c :: cs ∧ c.isDigit = true := by
  obtain ⟨a, as, rfl⟩ := List.exists_cons_of_ne_nil hne
  obtain ⟨c, cs, hcs, hc⟩ := exists_chars a
  rw [joined_cons, hcs]
  exact ⟨c, _, rfl, hc⟩

/-- Blanks before amounts are left out, and there is more than blanks. -/
theorem following_blanks {as : List Amount} (hne : as ≠ []) :
    (following as).dropWhile Blank.isBlank = joined as ∧
      (following as).all Blank.isBlank = false := by
  obtain ⟨c, cs, hjoined, hc⟩ := exists_joined hne
  have hblank := Blank.isBlank_of_isDigit hc
  rw [following, if_neg hne, hjoined]
  constructor
  · rw [List.dropWhile_cons_of_pos (by decide), List.dropWhile_cons_of_neg (by simp [hblank])]
  · simp [hblank]

/-- One amount is added, and reading goes on behind it. -/
theorem addTerms?_cons {a : Amount} (ha : a.Readable) {as : List Amount} {d : Duration}
    (h : d.nanoseconds + a.nanoseconds < UInt64.size * 1000000000) {cs : List Char}
    (hcs : cs.dropWhile Blank.isBlank = joined (a :: as)) (fuel : Nat) :
    addTerms? (fuel + 1) d cs =
      if (following as).all Blank.isBlank then some ⟨d.nanoseconds + a.nanoseconds, h⟩
      else addTerms? fuel ⟨d.nanoseconds + a.nanoseconds, h⟩ (following as) := by
  rw [addTerms?, hcs, joined_cons, term?_append ha (stops_following as), Option.bind_eq_bind,
    Option.bind_some]
  dsimp only
  rw [addTerm?_amount ha h, Option.bind_eq_bind, Option.bind_some]
  rfl

/-- Amounts are added up one by one, with blanks before each of them. -/
theorem addTerms?_joined {as : List Amount} (hne : as ≠ []) (has : ∀ a ∈ as, a.Readable)
    {d : Duration} (h : d.nanoseconds + total as < UInt64.size * 1000000000) {fuel : Nat}
    {cs : List Char} (hcs : cs.dropWhile Blank.isBlank = joined as) (hfuel : cs.length ≤ fuel) :
    addTerms? fuel d cs = some ⟨d.nanoseconds + total as, h⟩ := by
  induction as generalizing d fuel cs with
  | nil => exact absurd rfl hne
  | cons a as ih =>
    rw [List.forall_mem_cons] at has
    have htotal := total_cons a as
    have hlength : (following as).length < cs.length := by
      obtain ⟨c, more, hchars, -⟩ := exists_chars a
      have hdrop := (List.dropWhile_sublist Blank.isBlank (l := cs)).length_le
      rw [hcs, joined_cons, List.length_append, hchars, List.length_cons] at hdrop
      omega
    obtain ⟨fuel, rfl⟩ : ∃ k, fuel = k + 1 := ⟨fuel - 1, by omega⟩
    rw [addTerms?_cons has.1 (by omega) hcs]
    by_cases hlast : as = []
    · subst hlast
      simp [following, total]
    · obtain ⟨hblank, hall⟩ := following_blanks hlast
      have hrest : d.nanoseconds + a.nanoseconds + total as < UInt64.size * 1000000000 := by
        rwa [Nat.add_assoc, ← htotal]
      rw [hall, if_neg Bool.false_ne_true, ih hlast has.2 hrest hblank (by omega)]
      simp only [htotal, Nat.add_assoc]

/-! ## Writing -/

def shownAmounts (as : List Amount) : List Amount :=
  as.filter fun a => a.count ≠ 0

/-- An amount is shown unless it is zero. -/
theorem shown_eq (a : Amount) :
    shown a.count a.name = (shownAmounts [a]).map fun a => String.ofList a.chars := by
  have htext : toString a.count ++ a.name = String.ofList a.chars := by
    rw [← String.toList_inj, String.toList_append, String.toList_ofList, Amount.chars,
      Nat.toString_eq_ofList_toDigits, String.toList_ofList]
  rw [shown, htext, shownAmounts]
  by_cases hcount : a.count = 0 <;> simp [hcount]

theorem total_shownAmounts (as : List Amount) : total (shownAmounts as) = total as := by
  induction as with
  | nil => rfl
  | cons a as ih =>
    rw [total_cons, ← ih]
    by_cases hcount : a.count = 0
    · have hnone : a.nanoseconds = 0 := by rw [Amount.nanoseconds, hcount, Nat.zero_mul]
      rw [shownAmounts, List.filter_cons_of_neg (by simp [hcount]), hnone, Nat.zero_add]
      rfl
    · rw [shownAmounts, List.filter_cons_of_pos (by simp [hcount]), total_cons]
      rfl

def amounts (d : Duration) : List Amount :=
  let inYear := d.seconds % 31557600
  let inMonth := inYear % 2630016
  let inDay := inMonth % 86400
  let plural (count : Nat) (name : String) := if 1 < count then name ++ "s" else name
  [⟨d.seconds / 31557600, .year, plural (d.seconds / 31557600) "year"⟩,
    ⟨inYear / 2630016, .month, plural (inYear / 2630016) "month"⟩,
    ⟨inMonth / 86400, .day, plural (inMonth / 86400) "day"⟩, ⟨inDay / 3600, .hour, "h"⟩,
    ⟨inDay % 3600 / 60, .minute, "m"⟩, ⟨inDay % 60, .second, "s"⟩,
    ⟨d.subseconds / 1000000, .millisecond, "ms"⟩,
    ⟨d.subseconds / 1000 % 1000, .microsecond, "us"⟩,
    ⟨d.subseconds % 1000, .nanosecond, "ns"⟩]

/-- Each unit is filled up by the shorter ones. -/
theorem seconds_eq (n : Nat) :
    n / 31557600 * 31557600 + n % 31557600 / 2630016 * 2630016 +
      n % 31557600 % 2630016 / 86400 * 86400 + n % 31557600 % 2630016 % 86400 / 3600 * 3600 +
      n % 31557600 % 2630016 % 86400 % 3600 / 60 * 60 +
      n % 31557600 % 2630016 % 86400 % 60 = n := by
  rw [← Nat.mod_mod_of_dvd _ (show 60 ∣ 3600 by decide), Nat.add_assoc, Nat.div_add_mod',
    Nat.add_assoc, Nat.div_add_mod', Nat.add_assoc, Nat.div_add_mod', Nat.add_assoc,
    Nat.div_add_mod', Nat.div_add_mod']

/-- Milliseconds, microseconds and nanoseconds make up the fraction of a second. -/
theorem subseconds_eq (n : Nat) :
    n / 1000000 * 1000000 + n / 1000 % 1000 * 1000 + n % 1000 = n := by
  omega

/-- Units that are so many seconds are summed up in seconds. -/
theorem sum_eq (second a b c d e f x y z A B C D E X Y : Nat) :
    a * (A * second) + (b * (B * second) + (c * (C * second) + (d * (D * second) +
      (e * (E * second) + (f * second + (x * X + (y * Y + (z * 1 + 0)))))))) =
      (a * A + b * B + c * C + d * D + e * E + f) * second + (x * X + y * Y + z) := by
  ring

theorem seconds_add_subseconds (d : Duration) :
    d.seconds * 1000000000 + d.subseconds = d.nanoseconds :=
  Nat.div_add_mod' _ _

theorem total_amounts (d : Duration) : total d.amounts = d.nanoseconds := by
  simp only [amounts, total_cons, total_nil, Amount.nanoseconds, TimeUnit.nanoseconds]
  rw [sum_eq, seconds_eq, subseconds_eq, seconds_add_subseconds]

/-- Whether a name can be read as that of a unit. -/
def TimeUnit.isWrittenAs (u : TimeUnit) (name : String) : Bool :=
  TimeUnit.ofName? name == some u && name.toList.all isLetter && !name.toList.isEmpty

theorem Amount.readable {count : Nat} {u : TimeUnit} {name : String}
    (hname : u.isWrittenAs name = true)
    (hfine : u.isFine = true → count * u.nanoseconds < 1000000000) :
    (⟨count, u, name⟩ : Amount).Readable := by
  simp only [TimeUnit.isWrittenAs, Bool.and_eq_true, beq_iff_eq, List.all_eq_true,
    Bool.not_eq_true', List.isEmpty_eq_false_iff] at hname
  exact ⟨hname.1.1, hname.1.2, hname.2, hfine⟩

theorem readable_amounts (d : Duration) : ∀ a ∈ d.amounts, a.Readable := by
  have hsub : d.subseconds < 1000000000 := Nat.mod_lt _ (by decide)
  have hplural : ∀ {u : TimeUnit} {name : String} (count : Nat), u.isFine = false →
      u.isWrittenAs name = true → u.isWrittenAs (name ++ "s") = true →
      (⟨count, u, if 1 < count then name ++ "s" else name⟩ : Amount).Readable := by
    intro u name count hcoarse hone hmany
    refine Amount.readable ?_ fun hfine => absurd hfine (by simp [hcoarse])
    split
    · exact hmany
    · exact hone
  simp only [amounts, List.forall_mem_cons]
  refine ⟨hplural _ (by decide) (by decide) (by decide),
    hplural _ (by decide) (by decide) (by decide), hplural _ (by decide) (by decide) (by decide),
    Amount.readable (by decide) nofun, Amount.readable (by decide) nofun,
    Amount.readable (by decide) nofun, Amount.readable (by decide) fun _ => ?_,
    Amount.readable (by decide) fun _ => ?_, Amount.readable (by decide) fun _ => ?_, nofun⟩
  · simp only [TimeUnit.nanoseconds]
    omega
  · simp only [TimeUnit.nanoseconds]
    omega
  · simp only [TimeUnit.nanoseconds]
    omega

theorem shownAmounts_eq (as : List Amount) :
    (as.flatMap fun a => shown a.count a.name) =
      (shownAmounts as).map fun a => String.ofList a.chars := by
  induction as with
  | nil => rfl
  | cons a as ih =>
    rw [List.flatMap_cons, ih, shown_eq, ← List.map_append, shownAmounts, shownAmounts,
      shownAmounts, ← List.filter_append, List.singleton_append]

/-- A duration is written as its amounts, and as no seconds if there are none. -/
theorem text_eq (d : Duration) :
    d.text =
      if shownAmounts d.amounts = [] then "0s"
      else String.intercalate " "
        ((shownAmounts d.amounts).map fun a => String.ofList a.chars) := by
  have hempty : ((shownAmounts d.amounts).map fun a => String.ofList a.chars).isEmpty = true ↔
      shownAmounts d.amounts = [] := by
    rw [List.isEmpty_iff, List.map_eq_nil_iff]
  rw [← if_congr hempty rfl rfl, ← shownAmounts_eq]
  simp only [text, amounts, shownPlural, List.flatMap_cons, List.flatMap_nil, List.append_assoc,
    List.append_nil]

/-- The text of a duration is its amounts with blanks between. -/
theorem toList_text (d : Duration) (hshown : shownAmounts d.amounts ≠ []) :
    d.text.toList = joined (shownAmounts d.amounts) := by
  have hchars : (String.toList ∘ fun a : Amount => String.ofList a.chars) = Amount.chars := by
    funext a
    rw [Function.comp_apply, String.toList_ofList]
  rw [text_eq, if_neg hshown, String.toList_intercalate, List.map_map, hchars]
  rfl

theorem eq_of_nanoseconds : ∀ {d e : Duration}, d.nanoseconds = e.nanoseconds → d = e
  | ⟨_, _⟩, ⟨_, _⟩, rfl => rfl

/-- Every duration is read again from its text. -/
theorem ofText?_text (d : Duration) : ofText? d.text = some d := by
  have htotal : total (shownAmounts d.amounts) = d.nanoseconds := by
    rw [total_shownAmounts, total_amounts]
  by_cases hnone : shownAmounts d.amounts = []
  · have hzero : d = zero := by
      rw [hnone, total_nil] at htotal
      exact eq_of_nanoseconds htotal.symm
    rw [text_eq, if_pos hnone, hzero]
    decide
  · obtain ⟨c, cs, hjoined, hc⟩ := exists_joined hnone
    have hreadable : ∀ a ∈ shownAmounts d.amounts, a.Readable := fun a ha =>
      readable_amounts d a (List.mem_of_mem_filter ha)
    have hblank : d.text.toList.dropWhile Blank.isBlank = joined (shownAmounts d.amounts) := by
      rw [toList_text d hnone, hjoined,
        List.dropWhile_cons_of_neg (by simp [Blank.isBlank_of_isDigit hc])]
    have hzero : zero.nanoseconds + total (shownAmounts d.amounts) = d.nanoseconds := by
      rw [htotal, show zero.nanoseconds = 0 from rfl, Nat.zero_add]
    have hbound := d.bounded
    rw [← hzero] at hbound
    have hlong : d.text ≠ "0" := by
      intro hzero
      obtain ⟨a, as, has⟩ := List.exists_cons_of_ne_nil hnone
      have ha := hreadable a (by rw [has]; exact List.mem_cons_self)
      obtain ⟨l, hl⟩ := List.exists_mem_of_ne_nil _ ha.nonempty
      have hmem : l ∈ d.text.toList := by
        rw [toList_text d hnone, has, joined_cons, Amount.chars, List.mem_append, List.mem_append]
        exact .inl (.inr hl)
      rw [hzero] at hmem
      have hletter := ha.letters l hl
      rw [List.mem_singleton.1 hmem] at hletter
      exact absurd hletter (by decide)
    have hlength : d.text.toList.length ≤ d.text.length := Nat.le_of_eq String.length_toList
    rw [ofText?, if_neg hlong, addTerms?_joined hnone hreadable hbound hblank hlength]
    exact congrArg some (eq_of_nanoseconds hzero)

end Duration
end Espalier
