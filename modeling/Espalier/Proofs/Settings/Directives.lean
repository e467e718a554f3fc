import Espalier.Proofs.Text.Trimming
import Espalier.Settings.Logging
import Mathlib.Data.List.Basic

/-!
# What the level of the log means

The level of the log is a text of entries between commas.  An entry that is a plain level is meant
for everything, the last such entry being the one that counts; every other entry is about its own
target.  `Directive.default_raised` says what flags on the command line do to this meaning: targets
are kept and the default is never lowered, but it is raised only where no plain level stands in a
list with others or behind them.
-/

namespace Espalier

inductive Directive where
  /-- A level for everything that no target is about. -/
  | level (l : LogLevel)
  /-- What is logged of one target, as it is written. -/
  | target (entry : String)
deriving DecidableEq

namespace Directive

open LogLevel (ofText? raised wanted?)

def ofEntry (entry : String) : Directive :=
  match ofText? entry with
  | some l => level l
  | none => target entry

/-- The entries of a text without the blanks around them; an empty one means nothing. -/
def entries (s : String) : List String :=
  ((s.toList.splitOn ',').map fun cs => Blank.trim (String.ofList cs)).filter (· ≠ "")

def ofText (s : String) : List Directive :=
  (entries s).map ofEntry

def level? : Directive → Option LogLevel
  | level l => some l
  | target _ => none

def target? : Directive → Option String
  | level _ => none
  | target entry => some entry

def levels (ds : List Directive) : List LogLevel :=
  ds.filterMap level?

def targets (ds : List Directive) : List String :=
  ds.filterMap target?

/-- The level of everything that no target is about: the last one given.  If there is none, nothing
of it is logged, but errors are where there are no directives at all. -/
def default (ds : List Directive) : LogLevel :=
  (levels ds).getLast?.getD (if ds.isEmpty then .error else .off)

/-! ## Entries -/

/-- The entries on both sides of a comma are those of the text. -/
theorem entries_comma {s a b : String} (hs : s.toList = a.toList ++ ',' :: b.toList) :
    entries s = entries a ++ entries b := by
  rw [entries, hs, List.splitOn_append_cons_self, List.map_append, List.filter_append]
  rfl

/-- A text without a comma has one entry at most. -/
theorem entries_of_notMem {s : String} (h : ',' ∉ s.toList) :
    entries s = if Blank.trim s = "" then [] else [Blank.trim s] := by
  rw [entries, List.splitOn_eq_singleton h]
  by_cases hempty : Blank.trim s = "" <;> simp [hempty]

/-- What is put before a text without a comma is put before its first part. -/
theorem splitOn_append_left {before : List Char} (h : ',' ∉ before) (cs : List Char) :
    ∃ first rest, cs.splitOn ',' = first :: rest ∧
      (before ++ cs).splitOn ',' = (before ++ first) :: rest := by
  induction before with
  | nil =>
    obtain ⟨first, rest, hcs⟩ := List.exists_cons_of_ne_nil (List.splitOn_ne_nil ',' cs)
    exact ⟨first, rest, hcs, hcs⟩
  | cons c before ih =>
    rw [List.mem_cons, not_or] at h
    obtain ⟨first, rest, hcs, happend⟩ := ih h.2
    refine ⟨first, rest, hcs, ?_⟩
    rw [List.cons_append, List.splitOn_cons_eq_if_modifyHead, if_neg (by simpa using Ne.symm h.1),
      happend]
    rfl

/-- What is put behind a text without a comma is put behind its last part. -/
theorem splitOn_append_right {after : List Char} (h : ',' ∉ after) (cs : List Char) :
    ∃ front last, cs.splitOn ',' = front ++ [last] ∧
      (cs ++ after).splitOn ',' = front ++ [last ++ after] := by
  induction cs with
  | nil => exact ⟨[], [], List.splitOn_nil _, List.splitOn_eq_singleton h⟩
  | cons c cs ih =>
    obtain ⟨front, last, hcs, happend⟩ := ih
    simp only [List.cons_append, List.splitOn_cons_eq_if_modifyHead, hcs, happend]
    by_cases hc : (c == ',') = true
    · exact ⟨[] :: front, last, by rw [if_pos hc]; rfl, by rw [if_pos hc]; rfl⟩
    · rw [if_neg hc, if_neg hc]
      cases front with
      | nil => exact ⟨[], c :: last, rfl, rfl⟩
      | cons first front => exact ⟨(c :: first) :: front, last, rfl, rfl⟩

theorem comma_notMem_of_blank {cs : List Char} (h : ∀ c ∈ cs, Blank.isBlank c = true) : ',' ∉ cs :=
  fun hmem => absurd (h ',' hmem) (by decide)

/-- Blanks in front belong to no entry. -/
theorem entries_blanks_append {s t : String} {before : List Char}
    (h : ∀ c ∈ before, Blank.isBlank c = true) (hs : s.toList = before ++ t.toList) :
    entries s = entries t := by
  obtain ⟨first, rest, hleft, hlefts⟩ := splitOn_append_left (comma_notMem_of_blank h) t.toList
  have hfirst : Blank.trim (String.ofList (before ++ first)) = Blank.trim (String.ofList first) :=
    Blank.trim_between before [] (by simp) h nofun
  rw [entries, entries, hs, hlefts, hleft, List.map_cons, List.map_cons, hfirst]

/-- Blanks behind belong to no entry. -/
theorem entries_append_blanks {s t : String} {after : List Char}
    (h : ∀ c ∈ after, Blank.isBlank c = true) (hs : s.toList = t.toList ++ after) :
    entries s = entries t := by
  obtain ⟨front, last, hright, hrights⟩ := splitOn_append_right (comma_notMem_of_blank h) t.toList
  have hlast : Blank.trim (String.ofList (last ++ after)) = Blank.trim (String.ofList last) :=
    Blank.trim_between [] after (by simp) nofun h
  rw [entries, entries, hs, hrights, hright, List.map_append, List.map_append, List.map_singleton,
    List.map_singleton, hlast]

/-- Blanks at the ends of a text stand around its first and its last entry. -/
theorem entries_trim (s : String) : entries (Blank.trim s) = entries s := by
  obtain ⟨before, after, hbefore, hafter, hs⟩ := Blank.exists_trim s
  let t := String.ofList ((Blank.trim s).toList ++ after)
  have ht : t.toList = (Blank.trim s).toList ++ after := String.toList_ofList
  rw [← entries_append_blanks hafter ht, ← entries_blanks_append hbefore (by rw [hs, ht])]

/-! ## Plain levels -/

theorem number?_of_comma {s : String} (h : ',' ∈ s.toList) : LogLevel.number? s = none := by
  have hdigits : ∀ ds : List Char, ',' ∈ ds → (!ds.all Char.isDigit) = true := by
    intro ds hmem
    rw [Bool.not_eq_true', List.all_eq_false]
    exact ⟨',', hmem, by decide⟩
  unfold LogLevel.number?
  split
  · rename_i rest hrest
    rw [hrest] at h
    have hmem : ',' ∈ rest := (List.mem_cons.1 h).resolve_left (by decide)
    exact if_pos (by rw [hdigits rest hmem, Bool.or_true])
  · exact if_pos (by rw [hdigits _ h, Bool.or_true])

/-- A plain level holds no comma. -/
theorem notMem_of_ofText? {s : String} {l : LogLevel} (h : ofText? s = some l) :
    ',' ∉ s.toList := by
  intro hcomma
  rw [ofText?, number?_of_comma hcomma] at h
  have hname : Ascii.fold l.name = Ascii.fold s := by
    simpa [Ascii.sameName] using List.find?_some h
  have hmem : ',' ∈ (Ascii.fold l.name).toList := by
    rw [hname, Ascii.fold, String.toList_ofList]
    exact List.mem_map_of_mem (f := Char.toLower) hcomma
  revert hmem
  cases l <;> decide

theorem ofText?_empty : ofText? "" = none := by
  decide

/-- A plain level is the one directive of its text. -/
theorem ofText_of_plain {s : String} {l : LogLevel} (h : ofText? (Blank.trim s) = some l) :
    ofText s = [level l] := by
  have hne : Blank.trim s ≠ "" := by
    intro hempty
    rw [hempty, ofText?_empty] at h
    cases h
  have htrim : Blank.trim (Blank.trim s) = Blank.trim s :=
    String.toList_injective (Blank.trim_of_tight [] [] (by simp) nofun nofun
      (Blank.tight_trim s))
  rw [ofText, ← entries_trim, entries_of_notMem (notMem_of_ofText? h), htrim, if_neg hne,
    List.map_singleton, ofEntry, h]

theorem ofText_name (l : LogLevel) : ofText l.name = [level l] :=
  ofText_of_plain (by cases l <;> decide)

/-! ## Raising -/

/-- A text that is no plain level means the same behind the wanted level. -/
theorem ofText_behind (l : LogLevel) (s : String) :
    ofText (l.name ++ "," ++ Blank.trim s) = level l :: ofText s := by
  have hlist : (l.name ++ "," ++ Blank.trim s).toList =
      l.name.toList ++ ',' :: (Blank.trim s).toList := by
    simp
  have hname : (entries l.name).map ofEntry = [level l] := ofText_name l
  rw [ofText, entries_comma hlist, List.map_append, hname, entries_trim]
  rfl

theorem ofText_of_trim_eq_empty {s : String} (h : Blank.trim s = "") : ofText s = [] := by
  rw [ofText, ← entries_trim, h]
  rfl

/-- What raising does to the meaning of a text. -/
theorem ofText_raised {flags : Nat} {wanted : LogLevel} (hwanted : wanted? flags = some wanted)
    (s : String) :
    ofText (raised flags s) =
      match ofText? (Blank.trim s) with
      | some current => [level (current.max wanted)]
      | none => level wanted :: ofText s := by
  simp only [raised, hwanted]
  cases hplain : ofText? (Blank.trim s) with
  | some current => exact ofText_name _
  | none =>
    dsimp only
    by_cases hempty : Blank.trim s = ""
    · rw [if_pos (by simp [hempty]), ofText_of_trim_eq_empty hempty, ofText_name]
    · rw [if_neg (by simpa using hempty), ofText_behind]

/-- A later level for everything replaces an earlier one. -/
theorem default_cons (l : LogLevel) (ds : List Directive) :
    default (level l :: ds) = (levels ds).getLast?.getD l := by
  have hlevels : levels (level l :: ds) = l :: levels ds := rfl
  rw [default, hlevels, List.getLast?_cons, Option.getD_some]

theorem number_max (a b : LogLevel) : (a.max b).number = max a.number b.number := by
  unfold LogLevel.max
  split
  · omega
  · omega

/-- Every flag that is given asks for more than errors. -/
theorem exists_wanted {flags : Nat} (h : 0 < flags) :
    ∃ wanted, wanted? flags = some wanted ∧ LogLevel.error.number ≤ wanted.number := by
  match flags, h with
  | 1, _ => exact ⟨.info, rfl, by decide⟩
  | 2, _ => exact ⟨.debug, rfl, by decide⟩
  | _ + 3, _ => exact ⟨.trace, rfl, by decide⟩

/-- Flags that are given ask for a level.  The directives of targets stay as they are, and the
default level is never lowered.  It is raised to the wanted one just if the text is a plain level,
or none of its entries is one, or the last of them is high enough already: a lower one in a list
goes on to be the default. -/
theorem default_raised {flags : Nat} (h : 0 < flags) (s : String) :
    ∃ wanted, wanted? flags = some wanted ∧
      targets (ofText (raised flags s)) = targets (ofText s) ∧
      (default (ofText s)).number ≤ (default (ofText (raised flags s))).number ∧
      (wanted.number ≤ (default (ofText (raised flags s))).number ↔
        (ofText? (Blank.trim s)).isSome = true ∨
          ∀ l ∈ (levels (ofText s)).getLast?, wanted.number ≤ l.number) := by
  obtain ⟨wanted, hwanted, herror⟩ := exists_wanted h
  refine ⟨wanted, hwanted, ?_⟩
  rw [ofText_raised hwanted]
  -- A single level is raised itself; before directives the wanted one is put in front, where any
  -- later default replaces it.
  cases hplain : ofText? (Blank.trim s) with
  | some current =>
    have hbefore : default [level current] = current := default_cons current []
    have hafter : default [level (current.max wanted)] = current.max wanted := default_cons _ []
    rw [ofText_of_plain hplain, hbefore]
    dsimp only
    rw [hafter, number_max]
    exact ⟨rfl, by omega, iff_of_true (by omega) (.inl rfl)⟩
  | none =>
    have htargets : targets (level wanted :: ofText s) = targets (ofText s) := rfl
    dsimp only
    rw [htargets, default_cons]
    cases hlast : (levels (ofText s)).getLast? with
    | none =>
      have hbefore : (default (ofText s)).number ≤ LogLevel.error.number := by
        rw [default, hlast, Option.getD_none]
        split <;> decide
      exact ⟨rfl, hbefore.trans herror, by simp⟩
    | some l =>
      have hbefore : default (ofText s) = l := by
        rw [default, hlast, Option.getD_some]
      rw [hbefore, Option.getD_some]
      exact ⟨rfl, Nat.le_refl _, by simp⟩

/-- One flag leaves the default of a list at the warnings that are set there. -/
theorem default_raised_listed :
    0 < 1 ∧ ofText (raised 1 "warn,tree_store=trace") =
        [.level .info, .level .warn, .target "tree_store=trace"] ∧
      targets (ofText (raised 1 "warn,tree_store=trace")) = ["tree_store=trace"] ∧
      default (ofText (raised 1 "warn,tree_store=trace")) = .warn ∧
      ¬ LogLevel.info.number ≤ (default (ofText (raised 1 "warn,tree_store=trace"))).number := by
  obtain ⟨wanted, hwanted, htargets, -, hraised⟩ :=
    default_raised (by decide : 0 < 1) "warn,tree_store=trace"
  obtain rfl : LogLevel.info = wanted := Option.some.inj hwanted
  refine ⟨by decide, by decide, htargets.trans (by decide), by decide, fun hle => ?_⟩
  have hcases := hraised.1 hle
  revert hcases
  decide

end Directive
end Espalier
