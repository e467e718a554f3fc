import Espalier.Proofs.Yaml.Nodes
import Espalier.Yaml.Printer

/-!
# Block mappings written and read again

A record is written with one line for each entry and with the lines of a record inside it after the
line of its key, further in.  The reader finds each key in the column of its mapping.  It takes for
its value what is left of the line or the lines further in, and then the next key comes in the same
column.
-/

namespace Espalier
namespace Yaml

/-! ## Texts of one line -/

/-- A text that stands for itself without quotes: nothing in it is a comment or ends a key, nothing
at its start is a mark, and it ends with no blank. -/
structure Line (cs : List Char) : Prop where
  chars : ∀ c ∈ cs, c ≠ '#' ∧ 32 ≤ c.toNat
  colon : hasOpenColon cs = false
  opens : ∃ c rest, cs = c :: rest ∧ isGap c = false ∧
    (isIndicator c = false ∨ c = '-' ∧ ∃ d after, rest = d :: after ∧ isGap d = false)
  last : cs.getLast? ≠ some ' '

theorem isIndicator_iff {c : Char} : isIndicator c = true ↔ c ∈ indicators := by
  have hchars : "-?:,[]\x7b\x7d#&*!|>\x27\x22%@\x60".toList.Perm indicators := by decide
  rw [isIndicator, List.contains_iff_mem, hchars.mem_iff]

theorem isGap_of_le {c : Char} (h : 32 ≤ c.toNat) (hgap : isGap c = true) : c = ' ' := by
  rcases Cursor.isGap_iff.1 hgap with rfl | rfl | rfl
  · rfl
  · exact absurd h (by decide)
  · exact absurd h (by decide)

/-- What is written without quotes is a text of one line. -/
theorem line_of_isPlain {s : String} (h : isPlain s = true) : Line s.toList := by
  rw [isPlain] at h
  split at h
  · cases h
  · rename_i c rest hs
    simp only [Bool.and_eq_true, Bool.not_eq_true', bne_iff_ne, List.all_eq_true,
      decide_eq_true_eq] at h
    obtain ⟨⟨⟨⟨⟨-, hindicator⟩, hblank⟩, hlast⟩, hcolon⟩, hchars⟩ := h
    rw [hs]
    refine ⟨fun d hd => ?_, hcolon, ⟨c, rest, rfl, ?_, .inl ?_⟩, hlast⟩
    · exact ⟨(hchars d hd).1.1.2, (hchars d hd).1.2⟩
    · rw [Bool.eq_false_iff]
      exact fun hgap => hblank (isGap_of_le (hchars c List.mem_cons_self).1.2 hgap)
    · rw [Bool.eq_false_iff, ne_eq, isIndicator_iff, ← List.contains_iff_mem, hindicator]
      exact Bool.false_ne_true

/-- Characters without a colon open no value. -/
theorem hasOpenColon_of_notMem {cs : List Char} (h : ':' ∉ cs) : hasOpenColon cs = false := by
  induction cs with
  | nil => rfl
  | cons c cs ih =>
    rw [List.mem_cons, not_or] at h
    rw [hasOpenColon]
    · exact ih h.2
    · rintro rfl
      exact absurd rfl h.1
    · rintro _ _ rfl
      exact absurd rfl h.1

theorem Cursor.Token.line {cs : List Char} (h : Token cs) : Line cs where
  chars c hc := by
    have hnone : ∀ n < 32, isTokenChar (Char.ofNat n) = false := by decide
    have htoken : isTokenChar (Char.ofNat c.toNat) = true := by
      rw [Char.ofNat_toNat]
      exact h.chars c hc
    refine ⟨ne_of_isTokenChar (h.chars c hc) (by decide), Nat.le_of_not_lt fun hlt => ?_⟩
    rw [hnone c.toNat hlt] at htoken
    cases htoken
  colon := hasOpenColon_of_notMem fun hc => absurd (h.chars _ hc) (by decide)
  opens := by
    rcases h with ⟨hchars, c, rest, rfl, hopens⟩
    rw [List.forall_mem_cons] at hchars
    refine ⟨c, rest, rfl, isGap_of_isTokenChar hchars.1, ?_⟩
    rcases hopens with hc | ⟨rfl, d, after, rfl, -⟩
    · exact .inl (isIndicator_of_isAlphanum hc)
    · exact .inr ⟨rfl, d, after, rfl, isGap_of_isTokenChar (hchars.2 d List.mem_cons_self)⟩
  last hlast := absurd (h.chars _ (List.mem_of_getLast? hlast)) (by decide)

/-- The first character of a line is no mark, but it can be the dash of a number. -/
theorem Line.ne {c : Char} {cs : List Char} (h : Line (c :: cs)) {d : Char}
    (hd : isIndicator d = true) (hdash : d ≠ '-') : c ≠ d := by
  rintro rfl
  rcases h.opens with ⟨_, _, heq, -, hindicator | ⟨rfl, -⟩⟩
  · cases heq
    rw [hd] at hindicator
    cases hindicator
  · cases heq
    exact hdash rfl

namespace Cursor

open Json (StringText)

variable {s : Cursor} {cs rest after : List Char} {k : Nat}

/-! ## Places between lines -/

/-- Blanks before a token are skipped, and they count as columns. -/
theorem skipGaps_replicate (hrest : OpensToken rest) (tabs crossed blankBefore indenting : Bool)
    (column : Nat) :
    skipGaps tabs crossed blankBefore indenting false (List.replicate k ' ' ++ rest) column =
      (crossed, rest, column + k) := by
  induction k generalizing blankBefore column with
  | zero =>
    rcases rest with _ | ⟨c, rest⟩
    · rfl
    · rcases hrest c rfl with ⟨hc, hcomment⟩
      have hne : c ≠ ' ' ∧ c ≠ '\t' ∧ c ≠ '\n' := by
        simpa [isGap_iff, not_or] using Bool.eq_false_iff.1 hc
      simp [skipGaps, hne, hcomment]
  | succ k ih =>
    rw [List.replicate_succ, List.cons_append, skipGaps, if_neg (by decide),
      if_neg Bool.false_ne_true, if_pos rfl, ih]
    exact congrArg (fun n => (crossed, rest, n)) (by omega)

/-- After blanks on its line a token comes next. -/
theorem next_of_blanks (hs : s.rest = List.replicate k ' ' ++ rest) (hrest : OpensToken rest)
    (tabs : Bool) : s.next tabs = (false, s.goto rest (s.column + k)) := by
  rw [next, hs]
  simp only [skipGaps_replicate hrest]

/-- After a break a token comes next in the column that its line is indented by. -/
theorem next_of_break (hs : s.rest = '\n' :: (List.replicate k ' ' ++ rest))
    (hrest : OpensToken rest) (tabs : Bool) : s.next tabs = (true, s.goto rest k) := by
  rw [next, hs]
  simp only [skipGaps, if_true, skipGaps_replicate hrest, Nat.zero_add]

/-- A token comes next in a column, or nothing does. -/
def Before (s : Cursor) (rest : List Char) (k : Nat) : Prop :=
  (s.next false).2 = s.goto rest k

/-! ## Plain scalars of one line -/

/-- A text of one line is read up to the break or the colon after it. -/
theorem plainLine_of_chars (hchars : ∀ c ∈ cs, c ≠ '#' ∧ 32 ≤ c.toNat)
    (hcolon : hasOpenColon cs = false)
    (hrest : ∀ blankBefore, plainLine false blankBefore rest = []) (blankBefore : Bool) :
    plainLine false blankBefore (cs ++ rest) = cs := by
  induction cs generalizing blankBefore with
  | nil => exact hrest blankBefore
  | cons c cs ih =>
    rw [List.forall_mem_cons] at hchars
    have hbreak : c ≠ '\n' := by
      rintro rfl
      exact absurd hchars.1.2 (by decide)
    have htail : hasOpenColon cs = false := by
      cases cs with
      | nil => rfl
      | cons d cs =>
        by_cases hc : c = ':'
        · subst hc
          rw [hasOpenColon, Bool.or_eq_false_iff] at hcolon
          exact hcolon.2
        · rwa [hasOpenColon] at hcolon
          · rintro rfl
            exact absurd rfl hc
          · rintro _ _ rfl
            exact absurd rfl hc
    -- A colon ends the scalar only in front of a gap, and no gap follows an inner one.
    have hkey : c = ':' → startsGap (cs ++ rest) = false := by
      rintro rfl
      cases cs with
      | nil => cases hcolon
      | cons d cs =>
        rw [hasOpenColon, Bool.or_eq_false_iff, beq_eq_false_iff_ne] at hcolon
        rw [List.cons_append, startsGap, Bool.eq_false_iff]
        exact fun hgap => hcolon.1 (isGap_of_le (hchars.2 d List.mem_cons_self).2 hgap)
    have hends : (decide (c = ':') && startsGap (cs ++ rest)) = false := by
      by_cases hc : c = ':'
      · rw [hkey hc, Bool.and_false]
      · rw [decide_eq_false hc, Bool.false_and]
    rw [List.cons_append, plainLine]
    simp only [hbreak, hends, hchars.1.1, decide_false, Bool.false_and, Bool.or_false,
      Bool.false_eq_true, if_false, ih hchars.2 htail]

/-- A plain scalar ends with its line. -/
theorem plainLine_of_break (blankBefore : Bool) : plainLine false blankBefore ('\n' :: rest) = [] :=
  rfl

theorem withoutTail_of_line (h : Line cs) : withoutTail cs = cs := by
  have hlast : ∀ c ∈ cs.reverse.head?, isSpace c = false := by
    intro c hc
    rw [List.head?_reverse] at hc
    rw [Bool.eq_false_iff]
    intro hspace
    have hgap : isGap c = true := by rw [isGap, hspace, Bool.true_or]
    obtain rfl := isGap_of_le (h.chars c (List.mem_of_getLast? hc)).2 hgap
    exact h.last hc
  have hself : cs.reverse.dropWhile isSpace = cs.reverse := by
    cases hreverse : cs.reverse with
    | nil => rfl
    | cons c rest =>
      rw [hreverse] at hlast
      rw [List.dropWhile_cons_of_neg]
      rw [hlast c rfl]
      exact Bool.false_ne_true
  rw [withoutTail, hself, List.reverse_reverse]

/-- A line that is not deeper does not go on with a scalar. -/
theorem plainLines_of_break {parent : Nat} (hs : s.rest = '\n' :: (List.replicate k ' ' ++ rest))
    (hrest : OpensToken rest) (hk : k ≤ parent) (fuel : Nat) :
    plainLines false parent fuel s = ([], s) := by
  cases fuel with
  | zero => rfl
  | succ fuel =>
    -- The next line is indented no deeper than the parent, so the scalar does not go on there.
    have hgap : s.rest.takeWhile isGap = '\n' :: List.replicate k ' ' := by
      have hall : ∀ c ∈ '\n' :: List.replicate k ' ', isGap c = true := by
        rw [List.forall_mem_cons]
        exact ⟨rfl, fun c hc => by rw [List.eq_of_mem_replicate hc]; rfl⟩
      rw [hs, ← List.cons_append, List.takeWhile_append_of_pos hall]
      cases rest with
      | nil => rw [List.takeWhile_nil, List.append_nil]
      | cons c rest =>
        rw [List.takeWhile_cons_of_neg, List.append_nil]
        rw [(hrest c rfl).1]
        exact Bool.false_ne_true
    have hcolumn : (s.rest.takeWhile isGap).reverse.takeWhile (· ≠ '\n') =
        List.replicate k ' ' := by
      rw [hgap, List.reverse_cons, List.reverse_replicate, List.takeWhile_append_of_pos]
      · rw [List.takeWhile_cons_of_neg (by decide), List.append_nil]
      · intro c hc
        rw [List.eq_of_mem_replicate hc]
        decide
    have hdeep : ((k : Int) ≤ (parent : Int)) := Int.ofNat_le.2 hk
    rw [plainLines]
    simp only [hcolumn, List.length_replicate, hdeep, Bool.not_false, decide_true, Bool.and_self,
      Bool.or_true, if_true]

/-- A text of one line is read as a plain scalar, if the next line is not deeper. -/
theorem plain_of_line {parent : Nat} (h : Line cs)
    (hs : s.rest = cs ++ '\n' :: (List.replicate k ' ' ++ rest)) (hrest : OpensToken rest)
    (hk : k ≤ parent) (fuel : Nat) :
    s.plain fuel false parent = (String.ofList cs, s.skip cs.length) := by
  have hline : withoutTail (plainLine false false s.rest) = cs := by
    rw [hs, plainLine_of_chars h.chars h.colon plainLine_of_break, withoutTail_of_line h]
  have hafter : (s.skip cs.length).rest = '\n' :: (List.replicate k ' ' ++ rest) := by
    rw [skip, hs, List.drop_left]
  rw [plain]
  simp only [hline, plainLines_of_break hafter hrest hk, List.append_nil]

/-- What fits a line opens a plain scalar. -/
theorem opensPlain_of_line (h : Line cs) (hs : s.rest = cs ++ after) :
    s.opensPlain false = true := by
  rcases h.opens with ⟨c, more, rfl, hgap, hindicator | ⟨rfl, d, more, rfl, hd⟩⟩
  · have hne : c ≠ '-' ∧ c ≠ '?' ∧ c ≠ ':' := by
      refine ⟨?_, ?_, ?_⟩ <;> rintro rfl <;> cases hindicator
    simp [opensPlain, hs, hne, hindicator, hgap]
  · simp [opensPlain, hs, hd]

theorem opens_of_line (h : Line cs) (hs : s.rest = cs ++ after) {mark : Char}
    (hmark : isIndicator mark = true) : s.opens mark = false := by
  rcases h.opens with ⟨c, more, rfl, -, hindicator | ⟨rfl, d, more, rfl, hd⟩⟩
  · have hne : (c == mark) = false := by
      rw [beq_eq_false_iff_ne]
      rintro rfl
      rw [hmark] at hindicator
      cases hindicator
    rw [opens, hs, List.cons_append]
    simp only [hne, Bool.false_and]
  · rw [opens, hs]
    simp only [List.cons_append, startsGap, hd, Bool.and_false]

theorem isLead_of_line {c : Char} (h : Line (c :: cs)) : isLead c = false := by
  simp [isLead, h.ne (d := '&') (by decide) (by decide), h.ne (d := '!') (by decide) (by decide),
    h.ne (d := '*') (by decide) (by decide), h.ne (d := '|') (by decide) (by decide),
    h.ne (d := '>') (by decide) (by decide)]

theorem closesItself_of_line (h : Line cs) (hs : s.rest = cs ++ after) :
    s.closesItself = false := by
  rcases h.opens with ⟨c, more, rfl, -⟩
  simp [closesItself, hs, h.ne (d := '"') (by decide) (by decide),
    h.ne (d := '\x27') (by decide) (by decide), h.ne (d := '[') (by decide) (by decide),
    h.ne (d := '\x7b') (by decide) (by decide)]

/-! ## Keys -/

/-- What stands on the line is a key just if a colon and a gap come after it. -/
theorem implicitKey?_of_line (h : Line cs) (hs : s.rest = cs ++ after)
    (hline : ∀ blankBefore, plainLine false blankBefore after = [])
    (hafter : after.takeWhile isSpace = []) (fuel : Nat) :
    implicitKey? (fuel + 1) s =
      if (s.skip cs.length).opens ':' then
        some (.scalar .plain (String.ofList cs), s.skip (cs.length + 1))
      else none := by
  obtain ⟨c, more, hcs, -⟩ := h.opens
  have hcons : s.rest = c :: (more ++ after) := by rw [hs, hcs, List.cons_append]
  have hlead : isLead c = false := isLead_of_line (hcs ▸ h)
  have hstar : (s.rest.head? == some '*') = false := by
    rw [hcons, List.head?_cons, beq_eq_false_iff_ne]
    rintro ⟨⟩
    cases hlead
  have hread : plainLine false false s.rest = cs := by
    rw [hs, plainLine_of_chars h.chars h.colon hline]
  have hrest : (s.skip cs.length).rest = after := by rw [skip, hs, List.drop_left]
  have hspaces : (s.skip cs.length).skipSpaces = s.skip cs.length := by
    rw [skipSpaces, hrest, hafter]
    rfl
  -- What the scalar took up is the line itself, which has no break in it.
  have hused : s.rest.length - (s.skip cs.length).rest.length = cs.length := by
    rw [hrest, hs, List.length_append]
    omega
  have htake : s.rest.take cs.length = cs := by rw [hs, List.take_left]
  have hbreak : cs.contains '\n' = false := by
    rw [List.contains_eq_mem, decide_eq_false_iff_not]
    exact fun hmem => absurd (h.chars _ hmem).2 (by decide)
  rw [implicitKey?, properties?_of_opens hcons hlead]
  simp only [Option.bind_eq_bind, Option.bind_some, closesItself_of_line h hs, hstar,
    opensPlain_of_line h hs, hread, withoutTail_of_line h, hspaces, hused, htake, hbreak,
    Bool.false_eq_true, if_false, if_true, Bool.not_false, Bool.and_true]
  rfl

/-- A line with a colon behind it is a key. -/
theorem implicitKey?_of_key (h : Line cs) (hs : s.rest = cs ++ ':' :: after)
    (hafter : startsGap after = true) (fuel : Nat) :
    implicitKey? (fuel + 1) s =
      some (.scalar .plain (String.ofList cs), s.skip (cs.length + 1)) := by
  have hopens : (s.skip cs.length).opens ':' = true := by
    rw [opens, skip, hs, List.drop_left]
    exact hafter
  have hline : ∀ blankBefore, plainLine false blankBefore (':' :: after) = [] := by
    intro blankBefore
    rw [plainLine]
    simp only [hafter, decide_true, Bool.true_or, Bool.and_self, Bool.or_true, if_true]
  rw [implicitKey?_of_line h hs hline rfl, hopens, if_pos rfl]

/-- A line without a colon is no key. -/
theorem implicitKey?_of_break (h : Line cs) (hs : s.rest = cs ++ '\n' :: after) (fuel : Nat) :
    implicitKey? (fuel + 1) s = none := by
  have hopens : (s.skip cs.length).opens ':' = false := by
    rw [opens, skip, hs, List.drop_left]
    rfl
  rw [implicitKey?_of_line h hs plainLine_of_break rfl, hopens, if_neg Bool.false_ne_true]

/-! ## Values of one line -/

theorem endLine?_of_break (hs : s.rest = '\n' :: after) : s.endLine? = some s := by
  simp only [endLine?, hs]

/-- A value of one line is read up to the break, if the next line is not deeper. -/
theorem blockContent?_of_line {parent : Nat} (h : Line cs)
    (hs : s.rest = cs ++ '\n' :: (List.replicate k ' ' ++ rest)) (hrest : OpensToken rest)
    (hk : k ≤ parent) (level collections : Bool) (fuel : Nat) :
    blockContent? (fuel + 2) parent level collections s =
      some (.scalar .plain (String.ofList cs), s.skip cs.length) := by
  obtain ⟨c, more, hcs, -⟩ := h.opens
  have hcons : s.rest = c :: (more ++ '\n' :: (List.replicate k ' ' ++ rest)) := by
    rw [hs, hcs, List.cons_append]
  have hend : (s.skip cs.length).endLine? = some (s.skip cs.length) :=
    endLine?_of_break (by rw [skip, hs, List.drop_left])
  rw [blockContent?_of_opens hcons (isLead_of_line (hcs ▸ h)) (opens_of_line h hs (by decide))
    (opens_of_line h hs (by decide)) (implicitKey?_of_break h hs fuel), closesItself_of_line h hs,
    if_neg Bool.false_ne_true, opensPlain_of_line h hs, if_pos rfl, plain_of_line h hs hrest hk,
    hend]
  rfl

/-- Quoted characters are a scalar in flow. -/
theorem flowNode?_of_quoted {fuel : Nat} {str : String} (hs : s.rest = '"' :: cs)
    (h : StringText str.toList cs rest) (hfuel : cs.length + 2 ≤ fuel) :
    ∃ t, flowNode? fuel s = some (.scalar .quoted str, t) ∧ t.rest = rest := by
  obtain ⟨fuel, rfl⟩ : ∃ n, fuel = n + 2 := ⟨fuel - 2, by omega⟩
  rcases quoted?_of_stringText hs h (show cs.length ≤ fuel + 1 by omega) with ⟨t, ht, hrest⟩
  refine ⟨t, ?_, hrest⟩
  rw [flowNode?_quote hs, ht]
  rfl

/-- A quoted text before a break is a value and no key. -/
theorem blockContent?_of_quoted {fuel : Nat} {str : String} (hs : s.rest = '"' :: cs)
    (h : StringText str.toList cs ('\n' :: after)) (hfuel : cs.length + 3 ≤ fuel) (parent : Int)
    (level collections : Bool) :
    ∃ t, blockContent? fuel parent level collections s = some (.scalar .quoted str, t) ∧
      t.rest = '\n' :: after := by
  obtain ⟨fuel, rfl⟩ : ∃ n, fuel = n + 2 := ⟨fuel - 2, by omega⟩
  rcases flowNode?_of_quoted hs h (show cs.length + 2 ≤ fuel + 1 by omega) with ⟨t, ht, hrest⟩
  have hcloses : s.closesItself = true := closesItself_of_cons hs (.inl rfl)
  have hopens : ∀ {mark}, mark ≠ '"' → s.opens mark = false := by
    intro mark hmark
    rw [opens, hs]
    simp only [beq_eq_false_iff_ne.2 (Ne.symm hmark), Bool.false_and]
  have hspaces : t.skipSpaces.opens ':' = false := by
    rw [skipSpaces, opens, skip, hrest]
    rfl
  have hkey : implicitKey? (fuel + 1) s = none := by
    rw [implicitKey?, properties?_of_opens hs (by decide)]
    simp only [Option.bind_eq_bind, Option.bind_some, hcloses, if_true, ht, hspaces,
      Bool.false_and, Bool.false_eq_true, if_false]
  refine ⟨t, ?_, hrest⟩
  rw [blockContent?_of_opens hs (by decide) (hopens (by decide)) (hopens (by decide)) hkey, hcloses,
    if_pos rfl, ht, Option.bind_some, endLine?_of_break hrest]
  rfl

/-! ## Values and entries -/

/-- What comes next is the value, if it stands on the line or on a deeper one. -/
theorem blockNode?_of_next {parent : Int} {crossed level inline : Bool} {t : Cursor}
    (hnext : s.next (parent < 0) = (crossed, t)) (hend : t.atEnd = false)
    (hmarker : t.atMarker = false) (hdeep : crossed = true → parent < t.column) (fuel : Nat) :
    blockNode? (fuel + 1) parent level inline s =
      blockContent? fuel parent level (inline || crossed) t := by
  have hcolumn : (crossed && decide ((t.column : Int) ≤ parent)) = false := by
    cases crossed with
    | false => rfl
    | true => rw [decide_eq_false (Int.not_le.2 (hdeep rfl)), Bool.and_false]
  rw [blockNode?]
  simp only [hnext, hend, hmarker, hcolumn, Bool.or_self, Bool.false_eq_true, if_false]

/-- A value on the line of its key. -/
theorem blockNode?_of_blank {column : Nat} (hs : s.rest = ' ' :: cs) (hne : cs ≠ [])
    (hopens : OpensToken cs) (fuel : Nat) :
    blockNode? (fuel + 1) column true false s =
      blockContent? fuel column true false (s.goto cs (s.column + 1)) := by
  have hnext : s.next (decide ((column : Int) < 0)) = (false, s.goto cs (s.column + 1)) :=
    next_of_blanks (k := 1) hs hopens _
  have hend : (s.goto cs (s.column + 1)).atEnd = false := List.isEmpty_eq_false_iff.2 hne
  have hmarker : (s.goto cs (s.column + 1)).atMarker = false := by
    have hcolumn : (s.column + 1 == 0) = false := rfl
    rw [atMarker, goto, hcolumn, Bool.false_and]
  exact blockNode?_of_next hnext hend hmarker (fun h => (Bool.false_ne_true h).elim) fuel

/-- Behind a line break the next token stands at its indentation. -/
theorem before_of_break (hs : s.rest = '\n' :: (List.replicate k ' ' ++ rest))
    (hrest : OpensToken rest) : s.Before rest k := by
  rw [Before, next_of_break hs hrest]

theorem before_of_rest (hs : s.rest = rest) (hcolumn : s.column = k) (hrest : OpensToken rest) :
    s.Before rest k := by
  rw [Before, next_of_blanks (k := 0) hs hrest, Nat.add_zero, hcolumn]

/-- What fits a line opens a token. -/
theorem OpensToken.of_line (h : Line cs) (after : List Char) : OpensToken (cs ++ after) := by
  obtain ⟨c, more, rfl, hgap, -⟩ := h.opens
  exact opensToken_cons ⟨hgap, (h.chars c List.mem_cons_self).1⟩ _

section

variable {fuel column : Nat} {key value : Node} {t u v w : Cursor}

/-- The last entry of a mapping: nothing comes next, or something less deep. -/
theorem blockMap?_of_last (hmark : s.opens '?' = false)
    (hkey : implicitKey? fuel s = some (key, t))
    (hvalue : blockNode? fuel column true false t = some (value, u)) (hnext : (u.next false).2 = v)
    (hlast : v.atEnd = true ∨ v.column < column) :
    blockMap? (fuel + 1) column s = some (.map [(key, value)], v) := by
  have hends : (v.atEnd || v.atMarker || decide (v.column < column)) = true := by
    rcases hlast with hend | hcolumn
    · rw [hend, Bool.true_or, Bool.true_or]
    · rw [decide_eq_true hcolumn, Bool.or_true]
  rw [blockMap?]
  simp only [hmark, hkey, hvalue, hnext, hends, Bool.false_eq_true, if_false, if_true,
    Option.bind_eq_bind, Option.bind_some, Option.pure_def]

/-- An entry of a mapping before others in its column. -/
theorem blockMap?_of_more {entries : List (Node × Node)} (hmark : s.opens '?' = false)
    (hkey : implicitKey? fuel s = some (key, t))
    (hvalue : blockNode? fuel column true false t = some (value, u)) (hnext : (u.next false).2 = v)
    (hend : v.atEnd = false) (hmarker : v.atMarker = false) (hcolumn : v.column = column)
    (hmore : blockMap? fuel column v = some (.map entries, w)) :
    blockMap? (fuel + 1) column s = some (.map ((key, value) :: entries), w) := by
  have hirrefl : decide (column < column) = false := decide_eq_false (Nat.lt_irrefl column)
  rw [blockMap?]
  simp only [hmark, hkey, hvalue, hnext, hend, hmarker, hcolumn, hirrefl, hmore, Bool.or_self,
    Bool.false_eq_true, if_false, if_true, Option.bind_eq_bind, Option.bind_some, Option.pure_def]

end

/-- A mapping starts with a key, further in than the entry that it is the value of. -/
theorem blockContent?_of_key {parent : Int} {fuel : Nat} (h : Line cs)
    (hs : s.rest = cs ++ ':' :: after) (hafter : startsGap after = true) (level : Bool) :
    blockContent? (fuel + 2) parent level true s = blockMap? (fuel + 1) s.column s := by
  rw [blockContent?]
  simp only [opens_of_line h hs (show isIndicator '-' = true by decide),
    opens_of_line h hs (show isIndicator '?' = true by decide),
    implicitKey?_of_key h hs hafter, Option.isSome_some, Bool.or_true, Bool.false_eq_true, if_true,
    if_false]

end Cursor
end Yaml
end Espalier
