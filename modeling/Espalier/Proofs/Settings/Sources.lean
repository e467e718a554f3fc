import Espalier.Proofs.Text.Runs
import Espalier.Proofs.Text.Trimming
import Espalier.Settings.Dsn
import Mathlib.Data.List.Infix

/-!
# Data source names taken apart

The driver takes schemes away from the start of a name and cuts the rest at the first question mark;
by sight a name is searched as a whole.  Neither the schemes nor the question mark have a part in
what is searched for, so the search can be said of the path and the query too, up to one colon.
-/

namespace Espalier

/-! ## Parts around a character -/

namespace Search

variable {part before after : List Char} {c : Char}

/-- What does not hold a character is a prefix of a text up to it. -/
theorem prefix_append_cons_iff (hc : c ∉ part) :
    part <+: before ++ c :: after ↔ part <+: before := by
  constructor
  · rintro ⟨rest, h⟩
    rcases List.append_eq_append_iff.1 h with ⟨more, hbefore, -⟩ | ⟨more, hpart, hmore⟩
    · exact ⟨more, hbefore.symm⟩
    · rcases more with _ | ⟨d, more⟩
      · rw [hpart, List.append_nil]
      · obtain rfl := (List.cons.inj hmore).1
        exact absurd (hpart ▸ List.mem_append_right _ List.mem_cons_self) hc
  · exact fun h => h.trans (List.prefix_append _ _)

/-- What does not hold a character stands before it or behind it. -/
theorem infix_append_cons_iff (hc : c ∉ part) :
    part <:+: before ++ c :: after ↔ part <:+: before ∨ part <:+: after := by
  induction before with
  | nil =>
    have hopens : part <+: [] ++ c :: after ↔ part <+: [] := prefix_append_cons_iff hc
    rw [List.nil_append] at hopens ⊢
    rw [List.infix_cons_iff, hopens, List.prefix_nil, List.infix_nil]
  | cons d before ih =>
    rw [List.cons_append, List.infix_cons_iff, ← List.cons_append, prefix_append_cons_iff hc, ih,
      List.infix_cons_iff, or_assoc]

/-- What does not hold a character is a suffix of a text behind it. -/
theorem suffix_append_cons_iff (hc : c ∉ part) :
    part <:+ before ++ c :: after ↔ part <:+ after := by
  constructor
  · rintro ⟨rest, h⟩
    rcases List.append_eq_append_iff.1 h with ⟨more, -, hpart⟩ | ⟨more, -, hmore⟩
    · exact absurd (hpart ▸ List.mem_append_right _ List.mem_cons_self) hc
    · rcases more with _ | ⟨d, more⟩
      · rw [List.nil_append] at hmore
        exact absurd (hmore ▸ List.mem_cons_self) hc
      · exact ⟨more, (List.cons.inj hmore).2.symm⟩
  · exact fun h => h.trans ((List.suffix_cons _ _).trans (List.suffix_append _ _))

end Search

namespace Dsn

open Search

/-! ## Schemes and paths -/

/-- Schemes at the start of a text. -/
theorem exists_stripStart (start cs : List Char) :
    ∃ n, cs = (List.replicate n start).flatten ++ stripStart start cs := by
  fun_induction stripStart start cs with
  | case1 cs h ih =>
    obtain ⟨n, hn⟩ := ih
    obtain ⟨rest, rfl⟩ := List.isPrefixOf_iff_prefix.1 h.1
    rw [List.drop_left] at hn ⊢
    exact ⟨n + 1, by rw [List.replicate_succ, List.flatten_cons, List.append_assoc, ← hn]⟩
  | case2 cs h => exact ⟨0, rfl⟩

/-- What is not at the start stays. -/
theorem stripStart_of_not_prefix {start cs : List Char} (h : ¬ start <+: cs) :
    stripStart start cs = cs := by
  rw [stripStart, dif_neg fun hstart => h (List.isPrefixOf_iff_prefix.1 hstart.1)]

/-- A start that is repeated is taken away as often as it is there. -/
theorem stripStart_append {start : List Char} (hne : start ≠ []) (cs : List Char) :
    stripStart start (start ++ cs) = stripStart start cs := by
  have hstart : start.isPrefixOf (start ++ cs) = true :=
    List.isPrefixOf_iff_prefix.2 (List.prefix_append _ _)
  rw [stripStart, dif_pos ⟨hstart, hne⟩, List.drop_left]

section

variable {c : Char} {before : List Char} (h : c ∉ before)
include h

theorem forall_ne : ∀ d ∈ before, (d != c) = true := by
  intro d hd
  rw [bne_iff_ne]
  rintro rfl
  exact h hd

theorem splitFirst_of_notMem : splitFirst c before = (before, none) := by
  rw [splitFirst, List.dropWhile_eq_nil_iff.2 (forall_ne h)]

/-- A text is split at the first of a character. -/
theorem splitFirst_append (after : List Char) :
    splitFirst c (before ++ c :: after) = (before, some after) := by
  have hstops : Text.Stops (· != c) (c :: after) := Text.stops_cons (by simp) after
  rw [splitFirst, Text.dropWhile_append (forall_ne h) hstops,
    Text.takeWhile_append (forall_ne h) hstops]

end

/-! ## Targets -/

def afterSchemes (dsn : String) : List Char :=
  stripStart scheme.toList (stripStart "sqlite://".toList dsn.toList)

def rawPath (dsn : String) : List Char :=
  (splitFirst '?' (afterSchemes dsn)).1

def rawQuery? (dsn : String) : Option (List Char) :=
  (splitFirst '?' (afterSchemes dsn)).2

/-- The pair of a query that asks for a database in memory. -/
def AsksForMemory (pair : String × String) : Prop :=
  Percent.decodeQuery pair.1 = "mode" ∧ Percent.decodeQuery pair.2 = "memory"

/-- A member of a query asks for memory or changes neither path nor place. -/
theorem Target.setting?_eq_some {t t' : Target} {pair : String × String}
    (h : t.setting? pair.1 pair.2 = some t') :
    t'.path = t.path ∧ (t'.inMemory = true ↔ t.inMemory = true ∨ AsksForMemory pair) := by
  rw [Target.setting?] at h
  rw [AsksForMemory]
  -- Names and values are compared after decoding only.
  generalize Percent.decodeQuery pair.1 = name at h ⊢
  generalize Percent.decodeQuery pair.2 = value at h ⊢
  by_cases hmode : name = "mode"
  · rw [if_pos hmode] at h
    have hvalues : (value = "memory" ∧ t' = { t with inMemory := true }) ∨
        (value ≠ "memory" ∧ t'.path = t.path ∧ t'.inMemory = t.inMemory) := by
      split at h
      · rename_i hro
        cases h
        exact .inr ⟨by rw [hro]; decide, rfl, rfl⟩
      · split at h
        · rename_i hrw
          cases h
          refine .inr ⟨?_, rfl, rfl⟩
          rintro rfl
          cases hrw
        · split at h
          · rename_i hmemory
            cases h
            exact .inl ⟨hmemory, rfl⟩
          · cases h
    rcases hvalues with ⟨hmemory, rfl⟩ | ⟨hother, hpath, hsame⟩
    · exact ⟨rfl, by simp [hmode, hmemory]⟩
    · exact ⟨hpath, by simp [hother, hsame]⟩
  · rw [if_neg hmode] at h
    have hsame : t'.path = t.path ∧ t'.inMemory = t.inMemory := by
      repeat' split at h
      all_goals cases h <;> exact ⟨rfl, rfl⟩
    exact ⟨hsame.1, by simp [hmode, hsame.2]⟩

/-- A query asks for memory if one of its members does. -/
theorem foldlM_setting? {pairs : List (String × String)} {base t : Target}
    (h : pairs.foldlM (fun t pair => t.setting? pair.1 pair.2) base = some t) :
    t.path = base.path ∧
      (t.inMemory = true ↔ base.inMemory = true ∨ ∃ pair ∈ pairs, AsksForMemory pair) := by
  induction pairs generalizing base with
  | nil =>
    cases h
    simp
  | cons pair pairs ih =>
    rw [List.foldlM_cons, Option.bind_eq_bind, Option.bind_eq_some_iff] at h
    obtain ⟨next, hnext, h⟩ := h
    obtain ⟨hpath, hmemory⟩ := Target.setting?_eq_some hnext
    obtain ⟨hpaths, hmemories⟩ := ih h
    refine ⟨hpaths.trans hpath, ?_⟩
    rw [hmemories, hmemory, or_assoc, List.exists_mem_cons_iff]

/-- The driver opens memory for the plain name, and otherwise the path with what the query says of
it. -/
theorem target?_eq (dsn : String) :
    target? dsn =
      (if rawPath dsn = ":memory:".toList then some { path := "", inMemory := true }
        else (Percent.decode? (String.ofList (rawPath dsn))).map fun p => { path := p }).bind
      fun base => (queryPairs ((rawQuery? dsn).getD [])).foldlM
        (fun t pair => t.setting? pair.1 pair.2) base := by
  have hiff : String.ofList (rawPath dsn) = ":memory:" ↔ rawPath dsn = ":memory:".toList := by
    rw [← String.toList_inj, String.toList_ofList]
  have hsplit : splitFirst '?' (afterSchemes dsn) = (rawPath dsn, rawQuery? dsn) := rfl
  rw [← if_congr hiff rfl rfl, target?, ← afterSchemes, hsplit]
  dsimp only
  by_cases hpath : String.ofList (rawPath dsn) = ":memory:"
  · rw [if_pos hpath, if_pos hpath]
    rfl
  · rw [if_neg hpath, if_neg hpath]
    rfl

/-- The driver opens a database in memory just if the path says so or a pair of the query asks for
one. -/
theorem inMemory_iff {dsn : String} {t : Target} (h : target? dsn = some t) :
    t.inMemory = true ↔ rawPath dsn = ":memory:".toList ∨
      ∃ pair ∈ queryPairs ((rawQuery? dsn).getD []), AsksForMemory pair := by
  rw [target?_eq] at h
  obtain ⟨base, hbase, h⟩ := Option.bind_eq_some_iff.1 h
  rw [(foldlM_setting? h).2]
  split at hbase
  · rename_i hpath
    cases hbase
    simp [hpath]
  · rename_i hpath
    obtain ⟨p, -, rfl⟩ := Option.map_eq_some_iff.1 hbase
    exact ⟨fun hmemory => .inr (hmemory.resolve_left Bool.false_ne_true),
      fun hmemory => .inr (hmemory.resolve_left hpath)⟩

/-- The path of what is not in memory is the path of the name with its percent codes replaced. -/
theorem decode?_rawPath {dsn : String} {t : Target} (h : target? dsn = some t)
    (hmemory : t.inMemory = false) :
    Percent.decode? (String.ofList (rawPath dsn)) = some t.path := by
  have hpath : rawPath dsn ≠ ":memory:".toList := by
    intro hpath
    rw [(inMemory_iff h).2 (.inl hpath)] at hmemory
    cases hmemory
  rw [target?_eq, if_neg hpath] at h
  obtain ⟨base, hbase, h⟩ := Option.bind_eq_some_iff.1 h
  obtain ⟨p, hp, rfl⟩ := Option.map_eq_some_iff.1 hbase
  rw [hp, (foldlM_setting? h).1]

theorem rawPath_of_notMem {dsn : String} (h : '?' ∉ afterSchemes dsn) :
    rawPath dsn = afterSchemes dsn ∧ rawQuery? dsn = none := by
  rw [rawPath, rawQuery?, splitFirst_of_notMem h]
  exact ⟨rfl, rfl⟩

/-- A name is parted at its first question mark. -/
theorem rawPath_of_append {dsn : String} {path query : List Char} (hpath : '?' ∉ path)
    (h : afterSchemes dsn = path ++ '?' :: query) :
    rawPath dsn = path ∧ rawQuery? dsn = some query := by
  rw [rawPath, rawQuery?, h, splitFirst_append hpath]
  exact ⟨rfl, rfl⟩

theorem notMem_rawPath (dsn : String) : '?' ∉ rawPath dsn := by
  by_cases hquestion : '?' ∈ afterSchemes dsn
  · obtain ⟨path, query, hrest, hpath⟩ := List.eq_append_cons_of_mem hquestion
    rwa [(rawPath_of_append hpath hrest).1]
  · rwa [(rawPath_of_notMem hquestion).1]

theorem rawPath_sublist (dsn : String) : (rawPath dsn).Sublist (afterSchemes dsn) := by
  by_cases hquestion : '?' ∈ afterSchemes dsn
  · obtain ⟨path, query, hrest, hpath⟩ := List.eq_append_cons_of_mem hquestion
    rw [(rawPath_of_append hpath hrest).1, hrest]
    exact List.sublist_append_left _ _
  · rw [(rawPath_of_notMem hquestion).1]

/-! ## Sight -/

/-- A trimmed name has the scheme at its very start. -/
theorem isKnown_trim (dsn : String) :
    isKnown (Blank.trim dsn) = startsWith (Blank.trim dsn) scheme := by
  rw [isKnown, Blank.trimStart, Blank.dropWhile_of_tight (Blank.tight_trim dsn),
    String.ofList_toList]

/-- Schemes hold no other characters, and end with a slash or with the colon behind a letter. -/
structure IsOpening (opening : List Char) : Prop where
  chars : opening ⊆ "sqlite:/".toList
  ends : ∃ before, opening = before ++ ['/'] ∨ opening = before ++ ['e', ':']

/-- No start is left behind. -/
theorem not_prefix_stripStart {start : List Char} (hne : start ≠ []) (cs : List Char) :
    ¬ start <+: stripStart start cs := by
  fun_induction stripStart start cs with
  | case1 cs h ih => exact ih
  | case2 cs h => exact fun hprefix => h ⟨List.isPrefixOf_iff_prefix.2 hprefix, hne⟩

theorem flatten_replicate_subset {start cs : List Char} (h : start ⊆ cs) (n : Nat) :
    (List.replicate n start).flatten ⊆ cs := by
  intro c hc
  obtain ⟨part, hpart, hcpart⟩ := List.mem_flatten.1 hc
  exact h ((List.mem_replicate.1 hpart).2 ▸ hcpart)

theorem flatten_replicate_succ (n : Nat) (start : List Char) :
    (List.replicate (n + 1) start).flatten = (List.replicate n start).flatten ++ start := by
  rw [List.replicate_succ', List.flatten_append, List.flatten_singleton]

/-- A name with the scheme opens with schemes and nothing else. -/
theorem exists_opening {dsn : String} (h : startsWith dsn scheme = true) :
    ∃ opening, IsOpening opening ∧ dsn.toList = opening ++ afterSchemes dsn := by
  obtain ⟨m, hm⟩ := exists_stripStart "sqlite://".toList dsn.toList
  obtain ⟨n, hn⟩ := exists_stripStart scheme.toList (stripStart "sqlite://".toList dsn.toList)
  refine ⟨(List.replicate m "sqlite://".toList).flatten ++
    (List.replicate n scheme.toList).flatten, ⟨?_, ?_⟩, ?_⟩
  · exact List.append_subset.2 ⟨flatten_replicate_subset (by decide) m,
      flatten_replicate_subset (by decide) n⟩
  · cases n with
    | succ n =>
      refine ⟨(List.replicate m "sqlite://".toList).flatten ++
        ((List.replicate n scheme.toList).flatten ++ "sqlit".toList), .inr ?_⟩
      rw [flatten_replicate_succ, List.append_assoc, List.append_assoc]
      rfl
    | zero =>
      cases m with
      | succ m =>
        refine ⟨(List.replicate m "sqlite://".toList).flatten ++ "sqlite:/".toList, .inl ?_⟩
        rw [flatten_replicate_succ, List.replicate_zero, List.flatten_nil, List.append_nil,
          List.append_assoc]
        rfl
      | zero =>
        -- Nothing was taken away, but the scheme is there.
        have hscheme : scheme.toList <+: dsn.toList := List.isPrefixOf_iff_prefix.1 h
        rw [hm, hn] at hscheme
        exact absurd hscheme (not_prefix_stripStart (by decide) _)
  · rw [List.append_assoc, afterSchemes, ← hn, ← hm]

/-- What holds an `m` does not stand in schemes. -/
theorem infix_opening_append_iff {opening part : List Char} (h : IsOpening opening)
    (hpart : 'm' ∈ part) (hslash : '/' ∉ part) (hcolon : ':' ∉ part) (rest : List Char) :
    part <:+: opening ++ rest ↔ part <:+: rest := by
  have hnot : ∀ {before : List Char}, (∀ c ∈ before, c ∈ opening) → ¬ part <:+: before := by
    intro before hbefore hwithin
    exact absurd (h.chars (hbefore 'm' (hwithin.subset hpart))) (by decide)
  obtain ⟨before, hends | hends⟩ := h.ends
  · have hbefore : ¬ part <:+: before := hnot fun c hc => hends ▸ List.mem_append_left _ hc
    rw [hends, List.append_assoc, List.singleton_append, infix_append_cons_iff hslash,
      or_iff_right hbefore]
  · have hbefore : ¬ part <:+: before ++ ['e'] :=
      hnot fun c hc => by rw [hends, List.append_cons]; exact List.mem_append_left _ hc
    rw [hends, List.append_cons, List.append_assoc, List.singleton_append,
      infix_append_cons_iff hcolon, or_iff_right hbefore]

/-- A name looks like one in memory by its end or by what is in it. -/
theorem isMemory_eq (dsn : String) :
    isMemory dsn = true ↔ ":memory:".toList <:+ (Blank.trim dsn).toList ∨
      "mode=memory".toList <:+: (Blank.trim dsn).toList := by
  have hwhole : Blank.trim dsn = "sqlite::memory:" →
      ":memory:".toList <:+ (Blank.trim dsn).toList := by
    intro h
    rw [h]
    exact ⟨"sqlite:".toList, rfl⟩
  simp only [isMemory, endsWith, occursIn, occursInChars_iff, Bool.or_eq_true, beq_iff_eq,
    List.isSuffixOf_iff_suffix]
  constructor
  · rintro ((h | h) | h)
    · exact .inl (hwhole h)
    · exact .inl h
    · exact .inr h
  · rintro (h | h)
    · exact .inl (.inr h)
    · exact .inr h

/-- No colon of the marker stands behind an `e`. -/
theorem getLast?_ne_of_marker {before after : List Char}
    (h : "memory:".toList = before ++ ':' :: after) : before.getLast? ≠ some 'e' := by
  have hall : ∀ part ∈ "memory:".toList.inits, part.getLast? = some 'e' →
      ("memory:".toList.drop part.length).head? ≠ some ':' := by decide
  have hbefore : before ∈ "memory:".toList.inits := by
    rw [List.mem_inits, h]
    exact List.prefix_append _ _
  intro hlast
  refine hall before hbefore hlast ?_
  rw [h, List.drop_left]
  rfl

/-- The marker at the end of schemes and a path stands in the path, or the path is all of it but the
colon. -/
theorem path_of_suffix {opening path : List Char} (h : IsOpening opening)
    (hsuffix : ":memory:".toList <:+ opening ++ path) :
    ":memory:".toList <:+ path ∨ path = "memory:".toList := by
  obtain ⟨before, rfl | rfl⟩ := h.ends
  · rw [List.append_assoc] at hsuffix
    exact .inl ((suffix_append_cons_iff (by decide)).1 hsuffix)
  · obtain ⟨rest, hrest⟩ := hsuffix
    have hcolon : rest ++ ':' :: "memory:".toList = (before ++ ['e']) ++ ':' :: path := by
      rw [List.append_assoc before] at hrest ⊢
      exact hrest
    rcases List.append_eq_append_iff.1 hcolon with ⟨more, hbefore, hmore⟩ | ⟨more, -, hmore⟩
    · rcases more with _ | ⟨c, more⟩
      · exact .inr (List.cons.inj hmore).2.symm
      · refine absurd ?_ (getLast?_ne_of_marker (List.cons.inj hmore).2)
        rcases List.eq_nil_or_concat more with rfl | ⟨init, last, rfl⟩
        · cases (List.cons.inj hmore).2
        · rw [List.concat_eq_append] at hbefore ⊢
          have hlast : before ++ ['e'] = (rest ++ c :: init) ++ [last] := by
            rw [hbefore, List.append_assoc, List.cons_append]
          rw [List.getLast?_concat, ← List.singleton_inj.1 (List.append_inj' hlast rfl).2]
    · rcases more with _ | ⟨c, more⟩
      · exact .inr (List.cons.inj hmore).2
      · exact .inl ⟨more, (List.cons.inj hmore).2.symm⟩

/-- By sight, a name is one of a database in memory just if its path or query ends with one marker,
or its path or query holds the other.  The first marker is also seen if the path is all of it but
the colon. -/
theorem isMemory_iff {dsn : String} (h : startsWith (Blank.trim dsn) scheme = true) :
    isMemory dsn = true ↔
      "mode=memory".toList <:+: rawPath (Blank.trim dsn) ∨
      match rawQuery? (Blank.trim dsn) with
      | none => ":memory:".toList <:+ rawPath (Blank.trim dsn) ∨
          rawPath (Blank.trim dsn) = "memory:".toList ∧
            ":memory:".toList <:+ (Blank.trim dsn).toList
      | some query => ":memory:".toList <:+ query ∨ "mode=memory".toList <:+: query := by
  rw [isMemory_eq]
  generalize Blank.trim dsn = name at h ⊢
  obtain ⟨opening, hopening, hname⟩ := exists_opening h
  have hmode : "mode=memory".toList <:+: opening ++ afterSchemes name ↔
      "mode=memory".toList <:+: afterSchemes name :=
    infix_opening_append_iff hopening (by decide) (by decide) (by decide) _
  rw [hname, hmode]
  -- The marker stands at the end of all, which is the query if there is one.
  by_cases hquestion : '?' ∈ afterSchemes name
  · obtain ⟨path, query, hrest, hpath⟩ := List.eq_append_cons_of_mem hquestion
    obtain ⟨hraw, hquery⟩ := rawPath_of_append hpath hrest
    rw [hraw, hquery, hrest, infix_append_cons_iff (by decide), ← List.append_assoc,
      suffix_append_cons_iff (by decide), or_left_comm]
  · obtain ⟨hraw, hquery⟩ := rawPath_of_notMem hquestion
    rw [hraw, hquery, or_comm]
    refine or_congr_right ⟨fun hsuffix => ?_, ?_⟩
    · rcases path_of_suffix hopening hsuffix with hpath | hpath
      · exact .inl hpath
      · exact .inr ⟨hpath, hsuffix⟩
    · rintro (hpath | ⟨-, hsuffix⟩)
      · exact hpath.trans (List.suffix_append _ _)
      · exact hsuffix

end Dsn
end Espalier
