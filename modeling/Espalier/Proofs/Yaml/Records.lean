import Espalier.Proofs.Yaml.Blocks
import Espalier.Proofs.Yaml.Numbers
import Espalier.Yaml.Tree

/-!
# Records written as YAML and read again

A record is a mapping from names to texts, truth values, integers, nothing, and further records.
What is written of it is read as a node that tells the same: every value is the text that was
written, and only a text that could be taken for something else is in quotes.
-/

namespace Espalier
namespace Yaml

open Cursor

/-! ## Records -/

/-- A key that is written without quotes and in which there are no marks. -/
def IsName (key : String) : Prop :=
  isPlain key = true ∧ (key.toList.all fun c => c.isAlpha || c == '_') = true

instance (key : String) : Decidable (IsName key) :=
  inferInstanceAs (Decidable (_ ∧ _))

mutual

/-- A tree of records: no sequence and no double is in it, and every mapping has entries. -/
def IsRecord : Tree → Prop
  | .seq _ => False
  | .float _ => False
  | .map entries => entries ≠ [] ∧ AreRecords entries
  | _ => True

def AreRecords : List (String × Tree) → Prop
  | [] => True
  | (key, t) :: rest => IsName key ∧ IsRecord t ∧ AreRecords rest

end

mutual

def recordNode : Tree → Node
  | .text s => .scalar (if isPlain s then .plain else .quoted) s
  | .map entries => .map (recordEntries entries)
  | t => .scalar .plain t.jsonText

def recordEntries : List (String × Tree) → List (Node × Node)
  | [] => []
  | (key, t) :: rest => (.scalar .plain key, recordNode t) :: recordEntries rest

end

/-! ## Names -/

variable {key : String}

theorem IsName.line (h : IsName key) : Line key.toList :=
  line_of_isPlain h.1

theorem IsName.stringText (h : IsName key) : stringText key = key :=
  if_pos h.1

theorem IsName.letters (h : IsName key) : ∀ c ∈ key.toList, c.isAlpha = true ∨ c = '_' := by
  intro c hc
  simpa using List.all_eq_true.1 h.2 c hc

theorem IsName.ne_mergeKey (h : IsName key) : key ≠ "<<" := by
  rintro rfl
  exact absurd h.2 (by decide)

/-- A name is no mark of a document, no directive and no byte order mark. -/
theorem IsName.exists_cons (h : IsName key) :
    ∃ c cs, key.toList = c :: cs ∧ c ∉ ['-', '.', '%', '\ufeff'] := by
  obtain ⟨c, cs, hcs, -⟩ := h.line.opens
  refine ⟨c, cs, hcs, fun hmem => ?_⟩
  have hc := h.letters c (hcs ▸ List.mem_cons_self)
  simp only [List.mem_cons, List.not_mem_nil, or_false] at hmem
  rcases hmem with rfl | rfl | rfl | rfl <;> exact absurd hc (by decide)

/-- A name is not the end of a document. -/
theorem IsName.atMarker (h : IsName key) {s : Cursor} {after : List Char}
    (hs : s.rest = key.toList ++ after) : s.atMarker = false := by
  obtain ⟨c, cs, hcs, hc⟩ := h.exists_cons
  simp only [List.mem_cons, not_or] at hc
  rw [Cursor.atMarker, hs, hcs, List.cons_append]
  simp [hc.1, hc.2.1]

/-! ## Values on the line of their key -/

/-- Words and integers are written without blanks and marks. -/
theorem token_jsonText {t : Tree} (h : IsRecord t) (htext : ∀ s, t ≠ .text s)
    (hmap : ∀ entries, t ≠ .map entries) : Token t.jsonText.toList := by
  have hchars : t.jsonText.toList = (Json.ofTree t).compactChars := String.toList_ofList
  rw [hchars]
  cases t with
  | null => exact (token_of_word (.head _)).1
  | bool b =>
    cases b with
    | true => exact (token_of_word (.tail _ (.head _))).1
    | false => exact (token_of_word (.tail _ (.tail _ (.head _)))).1
  | int n =>
    have hnumeral := Json.Numeral.text_chars (Json.Numeral.wellFormed_ofInt n.toInt) []
    rw [List.append_nil, Json.Numeral.chars_ofInt] at hnumeral
    exact token_of_numeral hnumeral
  | text s => exact absurd rfl (htext s)
  | map entries => exact absurd rfl (hmap entries)
  | seq items => exact h.elim
  | float x => exact h.elim

section

variable {s : Cursor} {rest : List Char} {k column fuel : Nat}

/-- A line behind a colon is a plain scalar. -/
theorem blockNode?_of_line {cs : List Char} (h : Line cs)
    (hs : s.rest = ' ' :: (cs ++ '\n' :: (List.replicate k ' ' ++ rest)))
    (hrest : OpensToken rest) (hk : k ≤ column) (fuel : Nat) :
    ∃ t, blockNode? (fuel + 3) column true false s = some (.scalar .plain (String.ofList cs), t) ∧
      t.Before rest k := by
  obtain ⟨c, more, hcs, -⟩ := h.opens
  have hne : cs ++ '\n' :: (List.replicate k ' ' ++ rest) ≠ [] := by
    rw [hcs]
    exact List.cons_ne_nil _ _
  have hread := blockContent?_of_line (s := s.goto _ (s.column + 1)) h rfl hrest hk true false fuel
  rw [blockNode?_of_blank hs hne (.of_line h _)]
  refine ⟨_, hread, before_of_break ?_ hrest⟩
  rw [skip, goto, List.drop_left]

/-- Quoted characters behind a colon are a quoted scalar. -/
theorem blockNode?_of_quotedChars {str : String}
    (hs : s.rest = ' ' :: (Json.quotedChars str ++ '\n' :: (List.replicate k ' ' ++ rest)))
    (hrest : OpensToken rest) (hfuel : s.rest.length + 3 ≤ fuel) :
    ∃ t, blockNode? fuel column true false s = some (.scalar .quoted str, t) ∧
      t.Before rest k := by
  rw [Json.quotedChars_append] at hs
  rw [hs, List.length_cons, List.length_cons] at hfuel
  obtain ⟨fuel, rfl⟩ : ∃ n, fuel = n + 1 := ⟨fuel - 1, by omega⟩
  rw [blockNode?_of_blank hs (List.cons_ne_nil _ _) (opensToken_cons (by decide) _)]
  have htext := Json.stringText_flatMap str.toList ('\n' :: (List.replicate k ' ' ++ rest))
  obtain ⟨t, ht, hafter⟩ := blockContent?_of_quoted (s := s.goto _ (s.column + 1)) rfl htext
    (show _ ≤ fuel by omega) column true false
  exact ⟨t, ht, before_of_break hafter hrest⟩

end

/-! ## What is written -/

/-- The text of a value starts with a gap. -/
theorem startsGap_valueText (level : Nat) (t : Tree) (rest : List Char) :
    startsGap ((valueText level t).toList ++ rest) = true := by
  cases t with
  | seq items => cases items <;> simp [valueText, startsGap, isGap, isSpace]
  | map entries => cases entries <;> simp [valueText, startsGap, isGap, isSpace]
  | _ => simp [valueText, startsGap, isGap, isSpace]

theorem toList_margin (level : Nat) : (margin level).toList = List.replicate (2 * level) ' ' :=
  String.toList_ofList

/-- The lines of a mapping: the key of its first entry in its column, the value, and the rest. -/
theorem toList_entriesText (h : IsName key) (level : Nat) (t : Tree) (more : List (String × Tree)) :
    (entriesText level ((key, t) :: more)).toList =
      List.replicate (2 * level) ' ' ++ (key.toList ++
        ':' :: ((valueText (level + 1) t).toList ++ (entriesText level more).toList)) := by
  have hcolon : ":".toList = [':'] := rfl
  rw [entriesText, h.stringText]
  simp only [String.toList_append, toList_margin, hcolon, List.append_assoc, List.cons_append,
    List.nil_append]

/-- The lines of a mapping that has entries start with a key in its column. -/
theorem exists_entriesText {entries : List (String × Tree)} (hne : entries ≠ [])
    (h : AreRecords entries) (level : Nat) (rest : List Char) :
    ∃ chars, (entriesText level entries).toList ++ rest = List.replicate (2 * level) ' ' ++ chars ∧
      ∃ key after, IsName key ∧ chars = key.toList ++ ':' :: after ∧ startsGap after = true := by
  rcases entries with _ | ⟨⟨key, t⟩, more⟩
  · exact absurd rfl hne
  · refine ⟨_, ?_, key,
      (valueText (level + 1) t).toList ++ ((entriesText level more).toList ++ rest), h.1, rfl,
      startsGap_valueText _ _ _⟩
    rw [toList_entriesText h.1]
    simp only [List.append_assoc, List.cons_append]

/-- The text of a mapping starts on a line of its own. -/
theorem toList_valueText_map {entries : List (String × Tree)} (hne : entries ≠ []) (level : Nat)
    (rest : List Char) :
    (valueText level (.map entries)).toList ++ rest =
      '\n' :: ((entriesText level entries).toList ++ rest) := by
  have hbreak : "\n".toList = ['\n'] := rfl
  rw [valueText, String.toList_append, hbreak, List.append_assoc]
  · rfl
  · exact hne

theorem toList_oneLine (s : String) (rest : List Char) :
    (" " ++ s ++ "\n").toList ++ rest = ' ' :: (s.toList ++ '\n' :: rest) := by
  have hblank : " ".toList = [' '] := rfl
  have hbreak : "\n".toList = ['\n'] := rfl
  simp only [String.toList_append, hblank, hbreak, List.append_assoc, List.cons_append,
    List.nil_append]

/-! ## Records are read as their nodes -/

/-- A value that is written on the line of its key. -/
theorem blockNode?_of_oneLine {s : Cursor} {rest : List Char} {k column fuel level : Nat} {t : Tree}
    (h : IsRecord t) (hmap : ∀ entries, t ≠ .map entries)
    (hs : s.rest = (valueText level t).toList ++ (List.replicate k ' ' ++ rest))
    (hrest : OpensToken rest) (hk : k ≤ column) (hfuel : s.rest.length + 3 ≤ fuel) :
    ∃ u, blockNode? fuel column true false s = some (recordNode t, u) ∧ u.Before rest k := by
  have hplain : ∀ str : String, Line str.toList → s.rest =
      ' ' :: (str.toList ++ '\n' :: (List.replicate k ' ' ++ rest)) →
      ∃ u, blockNode? fuel column true false s = some (.scalar .plain str, u) ∧
        u.Before rest k := by
    intro str hline hs
    obtain ⟨fuel, rfl⟩ : ∃ n, fuel = n + 3 := ⟨fuel - 3, by omega⟩
    obtain ⟨u, hu, hbefore⟩ := blockNode?_of_line hline hs hrest hk fuel
    rw [String.ofList_toList] at hu
    exact ⟨u, hu, hbefore⟩
  -- Texts may need quotes; what is not a text is printed as in JSON, which is a plain scalar here.
  by_cases htext : ∃ str, t = .text str
  · obtain ⟨str, rfl⟩ := htext
    rw [valueText, toList_oneLine, stringText] at hs
    rw [recordNode]
    cases hquotes : isPlain str with
    | true =>
      rw [hquotes, if_pos rfl] at hs
      exact hplain str (line_of_isPlain hquotes) hs
    | false =>
      rw [hquotes, if_neg Bool.false_ne_true, String.toList_ofList] at hs
      exact blockNode?_of_quotedChars hs hrest hfuel
  · have htoken := token_jsonText h (fun str ht => htext ⟨str, ht⟩) hmap
    have hvalue : valueText level t = " " ++ t.jsonText ++ "\n" ∧
        recordNode t = .scalar .plain t.jsonText := by
      cases t with
      | text str => exact absurd ⟨str, rfl⟩ htext
      | map entries => exact absurd rfl (hmap entries)
      | seq items => exact h.elim
      | float x => exact h.elim
      | _ => exact ⟨rfl, rfl⟩
    rw [hvalue.1, toList_oneLine] at hs
    rw [hvalue.2]
    exact hplain t.jsonText htoken.line hs

mutual

/-- The value of an entry is read as its node, and what comes after it stands in its column.  The
induction is on the tree; two units of fuel a character are enough. -/
theorem blockNode?_of_record (t : Tree) (h : IsRecord t) {level k fuel : Nat} {s : Cursor}
    {rest : List Char}
    (hs : s.rest = (valueText (level + 1) t).toList ++ (List.replicate k ' ' ++ rest))
    (hrest : OpensToken rest) (hk : k ≤ 2 * level) (hfuel : 2 * s.rest.length + 3 ≤ fuel) :
    ∃ u, blockNode? fuel (2 * level : Nat) true false s = some (recordNode t, u) ∧
      u.Before rest k := by
  cases t with
  | map entries =>
    obtain ⟨chars, hchars, key, after, hkey, rfl, hafter⟩ :=
      exists_entriesText h.1 h.2 (level + 1) (List.replicate k ' ' ++ rest)
    have hs : s.rest = '\n' :: (List.replicate (2 * (level + 1)) ' ' ++
        (key.toList ++ ':' :: after)) := by
      rw [hs, ← hchars]
      exact toList_valueText_map h.1 (level + 1) _
    have hopens := OpensToken.of_line hkey.line (':' :: after)
    rw [hs, List.length_cons, List.length_append] at hfuel
    obtain ⟨fuel, rfl⟩ : ∃ n, fuel = n + 3 := ⟨fuel - 3, by omega⟩
    have hnext := next_of_break hs hopens (decide (((2 * level : Nat) : Int) < 0))
    have hend : (s.goto (key.toList ++ ':' :: after) (2 * (level + 1))).atEnd = false :=
      List.isEmpty_eq_false_iff.2 (List.append_ne_nil_of_right_ne_nil _ (List.cons_ne_nil _ _))
    rw [blockNode?_of_next hnext hend (hkey.atMarker rfl) fun _ => Int.ofNat_lt.2 (by simp [goto]),
      Bool.false_or, blockContent?_of_key hkey.line rfl hafter]
    have hlines : List.replicate (2 * (level + 1)) ' ' ++
        (s.goto (key.toList ++ ':' :: after) (2 * (level + 1))).rest =
        (entriesText (level + 1) entries).toList ++ (List.replicate k ' ' ++ rest) := hchars.symm
    obtain ⟨u, hu, hurest, hucolumn⟩ := blockMap?_of_records entries h.1 h.2 hlines hrest (by omega)
      (.inr (by omega)) (show 2 * (key.toList ++ ':' :: after).length + 3 ≤ fuel + 1 by omega)
    exact ⟨u, hu, before_of_rest hurest hucolumn hrest⟩
  | _ => exact blockNode?_of_oneLine h nofun hs hrest hk (by omega)

/-- The entries of a mapping are read in its column, up to what is less deep. -/
theorem blockMap?_of_records (entries : List (String × Tree)) (hne : entries ≠ [])
    (h : AreRecords entries) {level k fuel : Nat} {s : Cursor} {rest : List Char}
    (hs : List.replicate (2 * level) ' ' ++ s.rest =
      (entriesText level entries).toList ++ (List.replicate k ' ' ++ rest))
    (hrest : OpensToken rest) (hk : k ≤ 2 * level)
    (hend : rest = [] ∨ k < 2 * level) (hfuel : 2 * s.rest.length + 3 ≤ fuel) :
    ∃ u, blockMap? fuel (2 * level) s = some (.map (recordEntries entries), u) ∧
      u.rest = rest ∧ u.column = k := by
  rcases entries with _ | ⟨⟨key, t⟩, more⟩
  · exact absurd rfl hne
  obtain ⟨hkey, ht, hmore⟩ := h
  rw [toList_entriesText hkey, List.append_assoc, List.append_cancel_left_eq, List.append_assoc,
    List.cons_append, List.append_assoc] at hs
  -- Behind the key and its colon stands the text of the value, and that is shorter than the whole.
  have hvalue : (s.skip (key.toList.length + 1)).rest = (valueText (level + 1) t).toList ++
      ((entriesText level more).toList ++ (List.replicate k ' ' ++ rest)) := by
    rw [skip, hs, ← List.drop_drop, List.drop_left]
    rfl
  have hshort : (s.skip (key.toList.length + 1)).rest.length < s.rest.length := by
    have hdrop : (s.skip (key.toList.length + 1)).rest.length =
        s.rest.length - (key.toList.length + 1) := List.length_drop
    have hpos : 0 < s.rest.length := by
      rw [hs, List.length_append, List.length_cons]
      omega
    omega
  obtain ⟨fuel, rfl⟩ : ∃ n, fuel = n + 2 := ⟨fuel - 2, by omega⟩
  have hmark := opens_of_line hkey.line hs (show isIndicator '?' = true by decide)
  have hread := implicitKey?_of_key hkey.line hs (startsGap_valueText _ _ _) fuel
  rw [String.ofList_toList] at hread
  rcases more with _ | ⟨e, more⟩
  · rw [entriesText, String.toList_empty, List.nil_append] at hvalue
    obtain ⟨u, hu, hbefore⟩ := blockNode?_of_record t ht hvalue hrest hk
      (show _ ≤ fuel + 1 by omega)
    refine ⟨_, blockMap?_of_last hmark hread hu hbefore ?_, rfl, rfl⟩
    rcases hend with rfl | hk
    · exact .inl rfl
    · exact .inr hk
  · obtain ⟨chars, hchars, key', after, hkey', rfl, hafter⟩ :=
      exists_entriesText (List.cons_ne_nil e more) hmore level (List.replicate k ' ' ++ rest)
    rw [hchars] at hvalue
    have hshorter : (key'.toList ++ ':' :: after).length ≤
        (s.skip (key.toList.length + 1)).rest.length := by
      rw [hvalue, ← List.append_assoc]
      exact (List.suffix_append _ _).length_le
    obtain ⟨u, hu, hbefore⟩ := blockNode?_of_record t ht hvalue (.of_line hkey'.line _)
      (Nat.le_refl _) (show _ ≤ fuel + 1 by omega)
    have hend' : (u.goto (key'.toList ++ ':' :: after) (2 * level)).atEnd = false :=
      List.isEmpty_eq_false_iff.2 (List.append_ne_nil_of_right_ne_nil _ (List.cons_ne_nil _ _))
    obtain ⟨v, hv, hvrest, hvcolumn⟩ := blockMap?_of_records (e :: more) (List.cons_ne_nil e more)
      hmore (s := u.goto (key'.toList ++ ':' :: after) (2 * level)) hchars.symm hrest hk hend
      (show 2 * (key'.toList ++ ':' :: after).length + 3 ≤ fuel + 1 by omega)
    exact ⟨v, blockMap?_of_more hmark hread hu hbefore hend' (hkey'.atMarker rfl) rfl hv, hvrest,
      hvcolumn⟩

end

/-! ## Whole texts -/

theorem notMem_stringText (s : String) : '\r' ∉ (stringText s).toList := by
  rw [stringText]
  cases hquotes : isPlain s with
  | true =>
    rw [if_pos rfl]
    exact fun hmem => absurd ((line_of_isPlain hquotes).chars _ hmem).2 (by decide)
  | false =>
    rw [if_neg Bool.false_ne_true, String.toList_ofList]
    exact Json.notMem_quotedChars s

theorem notMem_oneLine {s : String} (h : '\r' ∉ s.toList) : '\r' ∉ (" " ++ s ++ "\n").toList := by
  rw [← List.append_nil (" " ++ s ++ "\n").toList, toList_oneLine, List.mem_cons, List.mem_append]
  rintro (hblank | hmem | hbreak)
  · cases hblank
  · exact h hmem
  · exact absurd hbreak (by decide)

mutual

/-- There is no carriage return in what is written, so line breaks stay as they are. -/
theorem notMem_valueText (t : Tree) (h : IsRecord t) (level : Nat) :
    '\r' ∉ (valueText level t).toList := by
  have hword : ∀ t : Tree, Token t.jsonText.toList → '\r' ∉ (" " ++ t.jsonText ++ "\n").toList :=
    fun t ht => notMem_oneLine fun hmem => absurd (ht.chars _ hmem) (by decide)
  cases t with
  | text s => exact notMem_oneLine (notMem_stringText s)
  | map entries =>
    rw [← List.append_nil (valueText level _).toList, toList_valueText_map h.1, List.append_nil,
      List.mem_cons, not_or]
    exact ⟨by decide, notMem_entriesText entries h.2 level⟩
  | seq items => exact h.elim
  | float x => exact h.elim
  | _ => exact hword _ (token_jsonText h nofun nofun)

/-- Records are printed without a carriage return. -/
theorem notMem_entriesText (entries : List (String × Tree)) (h : AreRecords entries) (level : Nat) :
    '\r' ∉ (entriesText level entries).toList := by
  rcases entries with _ | ⟨⟨key, t⟩, more⟩
  · rw [entriesText, String.toList_empty]
    exact List.not_mem_nil
  · obtain ⟨hkey, ht, hmore⟩ := h
    rw [toList_entriesText hkey, List.mem_append, List.mem_append, List.mem_cons, List.mem_append]
    rintro (hmargin | hname | hcolon | hvalue | hmem)
    · exact absurd (List.eq_of_mem_replicate hmargin) (by decide)
    · exact absurd (hkey.line.chars _ hname).2 (by decide)
    · cases hcolon
    · exact notMem_valueText t ht _ hvalue
    · exact notMem_entriesText more hmore _ hmem

end

/-- A text is read as the node at its start, if it starts with no mark and no directive. -/
theorem Node.read?_of_blockNode {text : String} {c : Char} {cs : List Char} {node : Node}
    {u : Cursor} (htext : normalized text.toList = c :: cs) (hopens : OpensToken (c :: cs))
    (hc : c ∉ ['-', '.', '%', '\ufeff'])
    (hread : blockNode? (4 * (c :: cs).length + 16) (-1) false true ⟨c :: cs, 0, []⟩ =
      some (node, u)) (hcloses : u.closes = true) : Node.read? text = some node := by
  simp only [List.mem_cons, List.not_mem_nil, or_false, not_or] at hc
  obtain ⟨hdash, hpoint, hpercent, hmark⟩ := hc
  have hbom : ((c :: cs).head? == some '\ufeff') = false := by
    rw [List.head?_cons, beq_eq_false_iff_ne]
    rintro ⟨⟩
    exact hmark rfl
  have hnext : next ⟨c :: cs, 0, []⟩ true = (false, ⟨c :: cs, 0, []⟩) :=
    next_of_blanks (k := 0) rfl hopens true
  have hdirectives : skipDirectives false (4 * (c :: cs).length + 16) ⟨c :: cs, 0, []⟩ =
      (false, ⟨c :: cs, 0, []⟩) := by
    rw [skipDirectives_of_opens ⟨[], nofun, rfl⟩ hopens hpercent, hnext]
  have hdocument : atDocumentStart ⟨c :: cs, 0, []⟩ = false := by
    simp [atDocumentStart, atMarker, hdash, hpoint]
  rw [Node.read?]
  simp only [htext, hbom, hdirectives, hdocument, hread, hcloses, Bool.false_eq_true, if_false,
    if_true, Option.bind_eq_bind, Option.bind_some]

/-- What is written of a record is read as its node. -/
theorem Node.read?_yamlText {entries : Entries Tree} (h : IsRecord (.map entries)) :
    Node.read? entries.yamlText = some (recordNode (.map entries)) := by
  obtain ⟨chars, hchars, key, after, hkey, rfl, hafter⟩ := exists_entriesText h.1 h.2 0 []
  have hmargin := hchars.symm
  rw [List.append_nil, Nat.mul_zero, List.replicate_zero, List.nil_append] at hchars
  have htext : normalized entries.yamlText.toList = key.toList ++ ':' :: after := by
    have hreturns := Json.normalized_append (notMem_entriesText entries h.2 0) []
    rw [List.append_nil] at hreturns
    rw [Entries.yamlText, hreturns, ← hchars]
    exact List.append_nil _
  have hopens := OpensToken.of_line hkey.line (':' :: after)
  obtain ⟨c, cs, hcs, hc⟩ := hkey.exists_cons
  rw [hcs, List.cons_append] at htext hopens
  -- The mapping stands at the root, in the first column.
  generalize hstart : (⟨c :: (cs ++ ':' :: after), 0, []⟩ : Cursor) = start
  have hrest : start.rest = key.toList ++ ':' :: after := by
    rw [← hstart, hcs, List.cons_append]
  have hnext : start.next (decide ((-1 : Int) < 0)) = (false, start) := by
    rw [← hstart]
    exact next_of_blanks (k := 0) rfl hopens true
  have hend : start.atEnd = false := by
    rw [← hstart]
    rfl
  have hlines : List.replicate (2 * 0) ' ' ++ start.rest =
      (entriesText 0 entries).toList ++ (List.replicate 0 ' ' ++ []) := by
    rw [hrest]
    exact hmargin
  obtain ⟨u, hu, hurest, -⟩ := blockMap?_of_records entries h.1 h.2 hlines opensToken_nil
    (Nat.zero_le _) (.inl rfl)
    (show 2 * start.rest.length + 3 ≤ 4 * start.rest.length + 14 by omega)
  refine Node.read?_of_blockNode htext hopens hc ?_ (closes_of_gap ⟨[], nofun, hurest⟩)
  rw [hstart, recordNode, ← hu, blockNode?_of_next hnext hend (hkey.atMarker hrest)
    nofun, Bool.or_false, blockContent?_of_key hkey.line hrest hafter, ← hstart]

/-! ## Trees of records -/

/-- A string that is printed plain is read as text. -/
theorem plainTree_of_isPlain {s : String} (h : isPlain s = true) : plainTree s = .text s := by
  rw [isPlain] at h
  split at h
  · cases h
  · simp only [Bool.and_eq_true] at h
    have hself := h.1.1.1.1.1
    rw [isUnambiguous] at hself
    split at hself
    · rename_i t ht
      rw [Bool.and_eq_true, beq_iff_eq] at hself
      rw [ht, hself.1]
    · cases hself

/-- A string that is printed plain is not null. -/
theorem isNullWord_of_isPlain {s : String} (h : isPlain s = true) : isNullWord s = false := by
  have hself := plainTree_of_isPlain h
  rw [plainTree] at hself
  rw [Bool.eq_false_iff]
  intro hnull
  rw [hnull, if_pos rfl] at hself
  cases hself

theorem integer_ofInt (n : Int) :
    (Json.Numeral.ofInt n).isWhole = true ∧ (Json.Numeral.ofInt n).integer = n := by
  refine ⟨rfl, ?_⟩
  rw [Json.Numeral.integer, Json.Numeral.ofInt]
  dsimp only
  rw [Ascii.decimalValue_toDigits]
  by_cases hn : n < 0
  · rw [if_pos (decide_eq_true hn)]
    omega
  · rw [if_neg (by simpa using hn)]
    omega

mutual

/-- A record stands for itself when it is read as a tree. -/
theorem Node.tree?_recordNode (t : Tree) (h : IsRecord t) : (recordNode t).tree? = some t := by
  cases t with
  | null => rfl
  | bool b => cases b <;> rfl
  | int n =>
    have htext := Json.Numeral.text_chars (Json.Numeral.wellFormed_ofInt n.toInt) []
    rw [List.append_nil, Json.Numeral.chars_ofInt] at htext
    have hplain := Json.Numeral.plainTree_of_text htext
    rw [Json.Numeral.lenientTree, (integer_ofInt _).1, (integer_ofInt _).2, int64?_toInt] at hplain
    exact congrArg some hplain
  | text s =>
    rw [recordNode, tree?]
    cases hquotes : isPlain s with
    | true =>
      rw [if_pos rfl, scalarTree, plainTree_of_isPlain hquotes]
    | false => rfl
  | map entries =>
    rw [recordNode, tree?, treeEntries?_recordEntries entries h.2]
    rfl
  | seq items => exact h.elim
  | float x => exact h.elim

/-- The entries of a record are read back one by one. -/
theorem Node.treeEntries?_recordEntries (entries : List (String × Tree)) (h : AreRecords entries) :
    Node.treeEntries? (recordEntries entries) = some entries := by
  rcases entries with _ | ⟨⟨key, t⟩, more⟩
  · rfl
  · obtain ⟨hkey, ht, hmore⟩ := h
    rw [recordEntries, treeEntries?, scalarTree, plainTree_of_isPlain hkey.1,
      Node.tree?_recordNode t ht, Node.treeEntries?_recordEntries more hmore]
    rfl

end

theorem Node.mapM_text?_recordEntries (entries : Entries Tree) :
    (recordEntries entries).mapM (fun e => e.1.text?) = some (Entries.keys entries) := by
  induction entries with
  | nil => rfl
  | cons e rest ih =>
    rw [recordEntries, List.mapM_cons, ih]
    rfl

mutual

/-- No key of a record asks for a merge, and none is repeated. -/
theorem Node.flattened?_recordNode (t : Tree) (h : IsRecord t) (hdistinct : t.Distinct) :
    (recordNode t).flattened? = some (recordNode t) := by
  cases t with
  | map entries =>
    have hkeys : distinctKeys? (recordEntries entries) = some (Entries.keys entries) := by
      rw [distinctKeys?, mapM_text?_recordEntries]
      exact if_pos hdistinct.1
    rw [recordNode, flattened?, flattenedEntries?_recordEntries entries h.2 hdistinct.2]
    simp only [Option.bind_eq_bind, Option.bind_some, hkeys]
    rfl
  | seq items => exact h.elim
  | _ => rfl

/-- No entry of a record is a merge. -/
theorem Node.flattenedEntries?_recordEntries (entries : List (String × Tree))
    (h : AreRecords entries) (hdistinct : Tree.EntriesDistinct entries) :
    Node.flattenedEntries? (recordEntries entries) = some (recordEntries entries, []) := by
  rcases entries with _ | ⟨⟨key, t⟩, more⟩
  · rfl
  · obtain ⟨hkey, ht, hmore⟩ := h
    have hmerge : Node.isMergeKey (.scalar .plain key) = false :=
      beq_eq_false_iff_ne.2 hkey.ne_mergeKey
    rw [recordEntries, flattenedEntries?, Node.flattened?_recordNode t ht hdistinct.1,
      Node.flattenedEntries?_recordEntries more hmore hdistinct.2]
    simp only [Option.bind_eq_bind, Option.bind_some, hmerge, Bool.false_eq_true, if_false]
    rfl

end

end Yaml

/-- A record is written as YAML from which it is read again. -/
theorem Tree.ofYamlText?_yamlText {entries : Entries Tree} (h : Yaml.IsRecord (.map entries))
    (hdistinct : (Tree.map entries).Distinct) :
    Tree.ofYamlText? entries.yamlText = some (.map entries) := by
  rw [ofYamlText?, Yaml.Node.read?_yamlText h]
  simp only [Option.bind_eq_bind, Option.bind_some, Yaml.Node.flattened?_recordNode _ h hdistinct,
    Yaml.Node.tree?_recordNode _ h]

end Espalier
