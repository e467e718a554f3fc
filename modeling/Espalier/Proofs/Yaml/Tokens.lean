import Espalier.Proofs.Json.Source
import Espalier.Yaml.Reader

/-!
# JSON tokens in YAML text

Blanks between tokens are skipped, tabs included.  A JSON string is a double quoted scalar with the
same characters: it has no line break and no tab of its own, so nothing in it is folded, and its
escapes are escapes here too.  A number or a word is a plain scalar that ends with its last
character.
-/

namespace Espalier
namespace Yaml
namespace Cursor

open Json (Gap CharText StringText)

/-! ## Blanks -/

/-- No blank and no comment comes next. -/
def OpensToken (rest : List Char) : Prop :=
  ∀ c ∈ rest.head?, isGap c = false ∧ c ≠ '#'

theorem opensToken_nil : OpensToken [] := nofun

theorem opensToken_cons {c : Char} (h : isGap c = false ∧ c ≠ '#') (rest : List Char) :
    OpensToken (c :: rest) := by
  rintro _ ⟨⟩
  exact h

theorem isGap_iff {c : Char} : isGap c = true ↔ c = ' ' ∨ c = '\t' ∨ c = '\n' := by
  simp [isGap, isSpace, or_assoc]

/-- A gap is skipped up to the token behind it. -/
theorem skipGaps_append {gap rest : List Char} (hgap : ∀ c ∈ gap, isGap c = true)
    (hrest : OpensToken rest) (crossed blankBefore indenting : Bool) (column : Nat) :
    (skipGaps true crossed blankBefore indenting false (gap ++ rest) column).2.1 = rest := by
  induction gap generalizing crossed blankBefore indenting column with
  | nil =>
    rcases rest with _ | ⟨c, rest⟩
    · rfl
    · rcases hrest c rfl with ⟨hc, hcomment⟩
      have hne : c ≠ ' ' ∧ c ≠ '\t' ∧ c ≠ '\n' := by
        simpa [isGap_iff, not_or] using (Bool.eq_false_iff.1 hc)
      simp [skipGaps, hne, hcomment]
  | cons c gap ih =>
    rw [List.forall_mem_cons] at hgap
    rcases isGap_iff.1 hgap.1 with rfl | rfl | rfl <;>
      simp [skipGaps, ih hgap.2]

variable {s : Cursor} {rest : List Char}

/-- The next token is what stands behind a gap. -/
theorem rest_next (hs : Gap isGap s.rest rest) (hrest : OpensToken rest) :
    (s.next true).2.rest = rest := by
  rcases hs with ⟨gap, hgap, hs⟩
  rw [next, hs]
  exact skipGaps_append hgap hrest _ _ _ _

/-- The next token in flow is what stands behind a gap. -/
theorem rest_nextInFlow (hs : Gap isGap s.rest rest) (hrest : OpensToken rest) :
    s.nextInFlow.rest = rest :=
  rest_next hs hrest

/-! ## Strings -/

/-- The blanks that a string opens with are its first characters. -/
theorem exists_of_stringText {xs cs rest : List Char} (h : StringText xs cs rest) :
    ∃ ys, xs = cs.takeWhile isGap ++ ys ∧ StringText ys (cs.dropWhile isGap) rest ∧
      '\n' ∉ cs.takeWhile isGap := by
  induction h with
  | close rest => exact ⟨[], rfl, .close rest, by simp [isGap, isSpace]⟩
  | @char c xs cs mid rest hc hs ih =>
    rcases ih with ⟨ys, hxs, hys, hbreak⟩
    cases hc with
    | plain hquote hbackslash hcontrol =>
      by_cases hgap : isGap c = true
      · have hne : c ≠ '\n' := by
          rintro rfl
          exact absurd hcontrol (by decide)
        rw [List.takeWhile_cons_of_pos hgap, List.dropWhile_cons_of_pos hgap]
        exact ⟨ys, by rw [hxs, List.cons_append], hys, by simp [hbreak, Ne.symm hne]⟩
      · rw [List.takeWhile_cons_of_neg hgap, List.dropWhile_cons_of_neg hgap]
        exact ⟨_, rfl, .char (.plain hquote hbackslash hcontrol _) hs, List.not_mem_nil⟩
    | short he =>
      exact ⟨_, rfl, .char (.short he _) hs, List.not_mem_nil⟩
    | unit hu hhigh hlow =>
      exact ⟨_, rfl, .char (.unit hu hhigh hlow _) hs, List.not_mem_nil⟩
    | pair hu hhigh hv hlow =>
      exact ⟨_, rfl, .char (.pair hu hhigh hv hlow _) hs, List.not_mem_nil⟩

/-- Four digits have one value to both readers. -/
theorem hexValue?_eq {a b c d : Char} {u : Nat} (h : Json.hexUnit? a b c d = some u) :
    hexValue? [a, b, c, d] = some u := by
  rcases Json.hexUnit?_eq_some h with ⟨i, j, k, l, hi, hj, hk, hl, rfl⟩
  simp [hexValue?, hi, hj, hk, hl]

theorem lt_of_hexUnit? {a b c d : Char} {u : Nat} (h : Json.hexUnit? a b c d = some u) :
    u < 0x10000 := by
  have hdigit : ∀ {c i}, Ascii.digitValue? 16 c = some i → i < 16 := by
    intro c i h
    simpa using (Option.filter_eq_some_iff.1 h).2
  rcases Json.hexUnit?_eq_some h with ⟨i, j, k, l, hi, hj, hk, hl, rfl⟩
  have hi := hdigit hi
  have hj := hdigit hj
  have hk := hdigit hk
  have hl := hdigit hl
  omega

/-- Four digits are a character unless they are half of a pair. -/
theorem hexChar?_of_hexUnit? {a b c d : Char} {u : Nat} (h : Json.hexUnit? a b c d = some u) :
    hexChar? [a, b, c, d] =
      if Json.isHighUnit u || Json.isLowUnit u then none else some (Char.ofNat u) := by
  have hlt := lt_of_hexUnit? h
  have hcode : (decide (u < 0xD800) || decide (0xE000 ≤ u) && decide (u < 0x110000)) =
      !(Json.isHighUnit u || Json.isLowUnit u) := by
    rw [Bool.eq_iff_iff]
    simp only [Json.isHighUnit, Json.isLowUnit, Bool.or_eq_true, Bool.and_eq_true,
      Bool.not_eq_true', Bool.or_eq_false_iff, Bool.and_eq_false_iff, decide_eq_true_eq,
      decide_eq_false_iff_not]
    omega
  rw [hexChar?, hexValue?_eq h]
  simp only [Option.bind_eq_bind, Option.bind_some, hcode]
  cases Json.isHighUnit u || Json.isLowUnit u <;> rfl

/-- An escape of JSON is one of YAML. -/
theorem escape?_of_charText {c : Char} {cs mid : List Char} (h : CharText c ('\\' :: cs) mid) :
    ∃ used, escape? cs = some (c, used) ∧ cs.drop used = mid ∧ cs.head? ≠ some '\n' := by
  cases h with
  | plain hquote hbackslash => exact absurd rfl hbackslash
  | @short e c he rest =>
    have hall : ∀ p ∈ Json.shortEscapes,
        escape? (p.1 :: mid) = some (p.2, 1) ∧ p.1 ≠ '\n' := by
      simp [Json.shortEscapes, escape?]
    exact ⟨1, (hall _ he).1, rfl, by simp [(hall _ he).2]⟩
  | @unit a b c d u hu hhigh hlow rest =>
    refine ⟨5, ?_, rfl, by simp⟩
    simp [escape?, hexChar?_of_hexUnit? hu, hhigh, hlow]
  | @pair a b c d e f g h u v hu hhigh hv hlow rest =>
    -- The four digits alone are no character, so both codes are read.
    refine ⟨11, ?_, rfl, by simp⟩
    simp only [Json.isHighUnit, Json.isLowUnit, Bool.and_eq_true, decide_eq_true_eq] at hhigh hlow
    simp [escape?, hexChar?_of_hexUnit? hu, Json.isHighUnit, hhigh, pairedChar?, hexValue?_eq hu,
      hexValue?_eq hv, hlow]

/-- A backslash escapes what follows it. -/
theorem doubleQuoted?_backslash {s : Cursor} {cs : List Char} (hs : s.rest = '\\' :: cs)
    (hline : cs.head? ≠ some '\n') (fuel : Nat) :
    doubleQuoted? (fuel + 1) s = (escape? cs).bind fun p =>
      (doubleQuoted? fuel (s.skip (p.2 + 1))).bind fun q => some (p.1 :: q.1, q.2) := by
  rw [doubleQuoted?, hs]
  split
  · rename_i h
    cases h
  · rename_i h
    cases h
  · rename_i h
    cases h
    exact absurd rfl hline
  · rename_i h
    cases h
    rfl
  · rename_i hescape h
    cases h
    exact (hescape rfl).elim

/-- Any other character stands for itself, and gaps are folded. -/
theorem doubleQuoted?_cons {s : Cursor} {c : Char} {cs : List Char} (hs : s.rest = c :: cs)
    (hquote : c ≠ '"') (hbackslash : c ≠ '\\') (fuel : Nat) :
    doubleQuoted? (fuel + 1) s =
      if isGap c then (s.afterRun? (s.rest.takeWhile isGap)).bind fun t =>
        (doubleQuoted? fuel t).bind fun q => some (foldRun (s.rest.takeWhile isGap) ++ q.1, q.2)
      else (doubleQuoted? fuel (s.skip 1)).bind fun q => some (c :: q.1, q.2) := by
  rw [doubleQuoted?, hs]
  split
  · rename_i h
    cases h
  · rename_i h
    cases h
    exact absurd rfl hquote
  · rename_i h
    cases h
    exact absurd rfl hbackslash
  · rename_i h
    cases h
    exact absurd rfl hbackslash
  · rename_i h
    cases h
    rfl

theorem drop_length_takeWhile (p : Char → Bool) (cs : List Char) :
    cs.drop (cs.takeWhile p).length = cs.dropWhile p := by
  induction cs with
  | nil => rfl
  | cons c cs ih =>
    rw [List.takeWhile_cons, List.dropWhile_cons]
    split
    · exact ih
    · rfl

/-- Blanks inside quotes are kept as long as there is no break among them. -/
theorem afterRun?_eq {s : Cursor} {run : List Char} (hbreak : '\n' ∉ run)
    (hcolumn : 0 < s.column) :
    s.afterRun? run = some (s.goto (s.rest.drop run.length) (s.column + run.length)) := by
  have hcontains : run.contains '\n' = false := by simpa using hbreak
  have hzero : (s.column + run.length == 0) = false := by
    rw [beq_eq_false_iff_ne]
    omega
  have hmarker : (s.goto (s.rest.drop run.length) (s.column + run.length)).atMarker = false := by
    rw [atMarker, goto, hzero, Bool.false_and]
  have hafter : columnAfter s.column run = s.column + run.length := by
    rw [columnAfter, hcontains]
    rfl
  simp only [afterRun?, hafter, hmarker]
  rfl

theorem foldRun_eq {run : List Char} (hbreak : '\n' ∉ run) : foldRun run = run := by
  have hnone : run.filter (· = '\n') = [] := by
    rw [List.filter_eq_nil_iff]
    intro c hc
    rw [decide_eq_true_eq]
    rintro rfl
    exact hbreak hc
  rw [foldRun, hnone]
  rfl

/-- A JSON string is read as a double quoted scalar, whatever follows it. -/
theorem doubleQuoted?_of_stringText {fuel : Nat} {s : Cursor} {xs rest : List Char}
    (h : StringText xs s.rest rest) (hcolumn : 0 < s.column) (hfuel : s.rest.length ≤ fuel) :
    ∃ t, doubleQuoted? fuel s = some (xs, t) ∧ t.rest = rest := by
  induction fuel generalizing s xs with
  | zero =>
    have hlt := h.length_lt
    omega
  | succ fuel ih =>
    rcases exists_of_stringText h with ⟨ys, hxs, hys, hbreak⟩
    generalize hcs : s.rest = cs at h
    cases h with
    | close rest =>
      refine ⟨s.skip 1, ?_, by rw [skip, hcs]; rfl⟩
      rw [doubleQuoted?, hcs]
      rfl
    | @char c xs cs mid rest hc hs =>
      have hlt := hc.length_lt
      have hafter : mid.length ≤ fuel := by
        rw [hcs] at hfuel
        omega
      have hescaped : ∀ {after}, cs = '\\' :: after →
          ∃ t, doubleQuoted? (fuel + 1) s = some (c :: xs, t) ∧ t.rest = rest := by
        rintro after rfl
        rcases escape?_of_charText hc with ⟨used, hescape, hmid, hline⟩
        have hskip : (s.skip (used + 1)).rest = mid := by rw [skip, hcs, ← hmid]; rfl
        rcases ih (hskip.symm ▸ hs) (Nat.add_pos_left hcolumn _) (hskip.symm ▸ hafter) with
          ⟨t, ht, hrest⟩
        refine ⟨t, ?_, hrest⟩
        rw [doubleQuoted?_backslash hcs hline, hescape, Option.bind_some, ht]
        rfl
      cases hc with
      | short => exact hescaped rfl
      | unit => exact hescaped rfl
      | pair => exact hescaped rfl
      | plain hquote hbackslash hcontrol =>
        rw [doubleQuoted?_cons hcs hquote hbackslash]
        by_cases hgap : isGap c = true
        · -- All blanks that come next are read at once.
          have hlength : 0 < (s.rest.takeWhile isGap).length := by
            rw [hcs, List.takeWhile_cons_of_pos hgap]
            exact Nat.succ_pos _
          have hshorter : (s.rest.dropWhile isGap).length ≤ fuel := by
            rw [← drop_length_takeWhile, List.length_drop]
            omega
          rcases ih (s := s.goto (s.rest.dropWhile isGap)
              (s.column + (s.rest.takeWhile isGap).length)) hys (Nat.add_pos_left hcolumn _)
              hshorter with ⟨t, ht, hrest⟩
          rw [if_pos hgap, afterRun?_eq hbreak hcolumn, drop_length_takeWhile, Option.bind_some, ht,
            Option.bind_some, foldRun_eq hbreak, hxs]
          exact ⟨t, rfl, hrest⟩
        · have hskip : (s.skip 1).rest = mid := by rw [skip, hcs]; rfl
          rcases ih (hskip.symm ▸ hs) (Nat.add_pos_left hcolumn _) (hskip.symm ▸ hafter) with
            ⟨t, ht, hrest⟩
          rw [if_neg hgap, ht]
          exact ⟨t, rfl, hrest⟩

/-- The text of a string is read as the string. -/
theorem quoted?_of_stringText {fuel : Nat} {s : Cursor} {str : String} {cs rest : List Char}
    (hs : s.rest = '"' :: cs) (h : StringText str.toList cs rest) (hfuel : cs.length ≤ fuel) :
    ∃ t, quoted? fuel s = some (str, t) ∧ t.rest = rest := by
  have hskip : (s.skip 1).rest = cs := by rw [skip, hs]; rfl
  have hlength : (s.skip 1).rest.length ≤ fuel := by rwa [hskip]
  rcases doubleQuoted?_of_stringText (hskip.symm ▸ h) (Nat.succ_pos _) hlength with ⟨t, ht, hrest⟩
  refine ⟨t, ?_, hrest⟩
  rw [quoted?, hs]
  simp only [ht, Option.bind_eq_bind, Option.bind_some, String.ofList_toList]
  rfl

/-! ## Numbers and words -/

def isTokenChar (c : Char) : Bool :=
  c.isAlphanum || c == '-' || c == '+' || c == '.'

theorem ne_of_isTokenChar {c d : Char} (hc : isTokenChar c = true) (hd : isTokenChar d = false) :
    c ≠ d := by
  rintro rfl
  rw [hc] at hd
  cases hd

theorem isGap_of_isTokenChar {c : Char} (h : isTokenChar c = true) : isGap c = false := by
  rw [Bool.eq_false_iff, ne_eq, isGap_iff]
  rintro (rfl | rfl | rfl) <;> cases h

theorem isFlowMark_of_isTokenChar {c : Char} (h : isTokenChar c = true) : isFlowMark c = false := by
  simp [isFlowMark, ne_of_isTokenChar h (show isTokenChar ',' = false by decide),
    ne_of_isTokenChar h (show isTokenChar '[' = false by decide),
    ne_of_isTokenChar h (show isTokenChar ']' = false by decide),
    ne_of_isTokenChar h (show isTokenChar '\x7b' = false by decide),
    ne_of_isTokenChar h (show isTokenChar '\x7d' = false by decide)]

/-- A number or a word: it opens with a letter or a digit, or with a minus and one of these. -/
structure Token (cs : List Char) : Prop where
  chars : ∀ c ∈ cs, isTokenChar c = true
  opens : ∃ c rest, cs = c :: rest ∧
    (c.isAlphanum = true ∨ c = '-' ∧ ∃ d after, rest = d :: after ∧ d.isAlphanum = true)

/-- A number or a word ends here: blanks come next, and then nothing or, inside a flow collection, a
mark of it. -/
def Ends (flow : Bool) (rest : List Char) : Prop :=
  ∃ stop, Gap isGap rest stop ∧
    (stop = [] ∨ flow = true ∧ ∃ c after, stop = c :: after ∧ isFlowMark c = true)

/-- A plain scalar takes all characters of a token. -/
theorem plainLine_append {tok : List Char} (htok : ∀ c ∈ tok, isTokenChar c = true)
    (flow blankBefore : Bool) (rest : List Char) :
    ∃ blankBefore', plainLine flow blankBefore (tok ++ rest) =
      tok ++ plainLine flow blankBefore' rest := by
  induction tok generalizing blankBefore with
  | nil => exact ⟨blankBefore, rfl⟩
  | cons c tok ih =>
    rw [List.forall_mem_cons] at htok
    rcases htok with ⟨hc, htok⟩
    rcases ih htok (isSpace c) with ⟨b, hb⟩
    refine ⟨b, ?_⟩
    simp [plainLine, ne_of_isTokenChar hc (show isTokenChar ':' = false by decide),
      ne_of_isTokenChar hc (show isTokenChar '\n' = false by decide),
      ne_of_isTokenChar hc (show isTokenChar '#' = false by decide),
      isFlowMark_of_isTokenChar hc, hb]

/-- What is left of the line is blanks. -/
theorem plainLine_of_gap {gap stop : List Char} (hgap : ∀ c ∈ gap, isGap c = true) {flow : Bool}
    (hstop : stop = [] ∨ flow = true ∧ ∃ c after, stop = c :: after ∧ isFlowMark c = true)
    (blankBefore : Bool) : plainLine flow blankBefore (gap ++ stop) = gap.takeWhile isSpace := by
  induction gap generalizing blankBefore with
  | nil =>
    rcases hstop with rfl | ⟨rfl, c, after, rfl, hc⟩
    · rfl
    · simp [plainLine, hc]
  | cons c gap ih =>
    rw [List.forall_mem_cons] at hgap
    rcases isGap_iff.1 hgap.1 with rfl | rfl | rfl
    · simp [plainLine, ih hgap.2, isSpace, isFlowMark]
    · simp [plainLine, ih hgap.2, isSpace, isFlowMark]
    · rw [List.takeWhile_cons_of_neg (by decide)]
      simp [plainLine]

/-- Blanks behind a token belong to no scalar. -/
theorem withoutTail_append {tok blanks : List Char} (htok : Token tok)
    (hblanks : ∀ c ∈ blanks, isSpace c = true) : withoutTail (tok ++ blanks) = tok := by
  have hspace : ∀ c ∈ tok, isSpace c = false := fun c hc =>
    (Bool.or_eq_false_iff.1 (isGap_of_isTokenChar (htok.chars c hc))).1
  have hself : tok.reverse.dropWhile isSpace = tok.reverse := by
    cases hreverse : tok.reverse with
    | nil => rfl
    | cons c cs =>
      rw [List.dropWhile_cons_of_neg]
      have hc : c ∈ tok := List.mem_reverse.1 (hreverse ▸ List.mem_cons_self)
      simp [hspace c hc]
  rw [withoutTail, List.reverse_append,
    List.dropWhile_append_of_pos fun c hc => hblanks c (List.mem_reverse.1 hc), hself,
    List.reverse_reverse]

/-- No later line goes on with the scalar. -/
theorem plainLines_of_ends {s : Cursor} {flow : Bool} (hs : Ends flow s.rest) (parent : Int)
    (fuel : Nat) : plainLines flow parent fuel s = ([], s) := by
  rcases hs with ⟨stop, ⟨gap, hgap, hs⟩, hstop⟩
  have hopens : ∀ c ∈ stop.head?, isGap c = false := by
    rcases hstop with rfl | ⟨-, c, after, rfl, hc⟩
    · exact nofun
    · rintro _ ⟨⟩
      rw [Bool.eq_false_iff, ne_eq, isGap_iff]
      rintro (rfl | rfl | rfl) <;> cases hc
  cases fuel with
  | zero => rfl
  | succ fuel =>
    have htake : s.rest.takeWhile isGap = gap := by
      rw [hs, List.takeWhile_append_of_pos hgap]
      rcases stop with _ | ⟨c, stop⟩
      · simp
      · simp [hopens c rfl]
    have hdrop : s.rest.drop gap.length = stop := by rw [hs, List.drop_left]
    have hnone : ∀ c ∈ ([] : List Char), isGap c = true := nofun
    have hline : plainLine flow true ([] ++ stop) = [] := plainLine_of_gap hnone hstop true
    rw [List.nil_append] at hline
    rw [plainLines]
    simp only [htake, hdrop, goto, hline, List.isEmpty_nil, if_true, ite_self]

/-- A number or a word is read as a plain scalar. -/
theorem plain_of_token {s : Cursor} {tok rest : List Char} {flow : Bool} (htok : Token tok)
    (hs : s.rest = tok ++ rest) (hrest : Ends flow rest) (fuel : Nat) (parent : Int) :
    s.plain fuel flow parent = (String.ofList tok, s.skip tok.length) := by
  have hafter : (s.skip tok.length).rest = rest := by rw [skip, hs, List.drop_left]
  have hline : withoutTail (plainLine flow false s.rest) = tok := by
    rcases plainLine_append htok.chars flow false rest with ⟨blankBefore, hline⟩
    rcases hrest with ⟨stop, ⟨gap, hgap, rfl⟩, hstop⟩
    rw [hs, hline, plainLine_of_gap hgap hstop,
      withoutTail_append htok fun c hc => List.mem_takeWhile_imp hc]
  rw [plain]
  simp only [hline, plainLines_of_ends (hafter.symm ▸ hrest), List.append_nil]

theorem isIndicator_of_isAlphanum {c : Char} (hc : c.isAlphanum = true) :
    isIndicator c = false := by
  have hall : "-?:,[]\x7b\x7d#&*!|>\x27\x22%@\x60".toList.all
      (fun d => !d.isAlphanum) = true := by decide
  rw [isIndicator, List.contains_eq_mem, decide_eq_false_iff_not]
  intro hmem
  have hother := List.all_eq_true.1 hall c hmem
  rw [hc] at hother
  cases hother

/-- A plain scalar can start with a number or a word. -/
theorem opensPlain_of_token {s : Cursor} {tok rest : List Char} (htok : Token tok)
    (hs : s.rest = tok ++ rest) (flow : Bool) : s.opensPlain flow = true := by
  rcases htok with ⟨hchars, c, cs, rfl, hopens⟩
  rw [List.forall_mem_cons] at hchars
  rw [opensPlain, hs]
  rcases hopens with hc | ⟨rfl, d, cs, rfl, -⟩
  · have hindicator := isIndicator_of_isAlphanum hc
    have hne : c ≠ '-' ∧ c ≠ '?' ∧ c ≠ ':' := by
      refine ⟨?_, ?_, ?_⟩ <;> rintro rfl <;> cases hc
    simp [hne, hindicator, isGap_of_isTokenChar hchars.1]
  · have hd := hchars.2 d List.mem_cons_self
    simp [isGap_of_isTokenChar hd, isFlowMark_of_isTokenChar hd]

/-- The dash of a number is no indicator: no blank follows it. -/
theorem opens_of_token {s : Cursor} {tok rest : List Char} (htok : Token tok)
    (hs : s.rest = tok ++ rest) {indicator : Char} (h : indicator.isAlphanum = false) :
    s.opens indicator = false := by
  rcases htok with ⟨hchars, c, cs, rfl, hopens⟩
  rw [List.forall_mem_cons] at hchars
  rw [opens, hs, List.cons_append]
  rcases hopens with hc | ⟨rfl, d, cs, rfl, -⟩
  · have hne : (c == indicator) = false := by
      rw [beq_eq_false_iff_ne]
      rintro rfl
      rw [hc] at h
      cases h
    simp [hne]
  · simp [startsGap, isGap_of_isTokenChar (hchars.2 d List.mem_cons_self)]

/-- A number or a word is no marker of a document. -/
theorem atMarker_of_token {s : Cursor} {tok rest : List Char} (htok : Token tok)
    (hs : s.rest = tok ++ rest) : s.atMarker = false := by
  rcases htok with ⟨-, c, cs, rfl, hopens⟩
  have hmarks : ∀ {d : Char}, d.isAlphanum = true → d ≠ '-' ∧ d ≠ '.' := by
    intro d hd
    constructor <;> rintro rfl <;> cases hd
  rw [atMarker, hs, List.cons_append]
  rcases hopens with hc | ⟨rfl, d, after, rfl, hd⟩
  · simp [hmarks hc]
  · simp [hmarks hd]

end Cursor
end Yaml
end Espalier
