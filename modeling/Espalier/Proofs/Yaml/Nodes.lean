import Espalier.Proofs.Yaml.Tokens

/-!
# JSON documents in YAML text

A JSON document is read as one node: its arrays and objects as flow collections, its strings as
quoted scalars, its numbers and words as plain ones.  The reader of flow collections takes exactly
the text of the document, and around it, at the root, it finds neither a key nor anything else.
-/

namespace Espalier

namespace Json.Source

mutual

def node : Source → Yaml.Node
  | null => .scalar .plain "null"
  | bool b => .scalar .plain (if b then "true" else "false")
  | number _ chars _ => .scalar .plain (String.ofList chars)
  | text s => .scalar .quoted s
  | array items => .seq (itemNodes items)
  | object members => .map (memberNodes members)

def itemNodes : List Source → List Yaml.Node
  | [] => []
  | w :: rest => node w :: itemNodes rest

def memberNodes : List (String × Source) → List (Yaml.Node × Yaml.Node)
  | [] => []
  | (key, w) :: rest => (.scalar .quoted key, node w) :: memberNodes rest

end

end Json.Source

namespace Yaml
namespace Cursor

open Json (Gap Source StringText)

/-! ## What a document opens with -/

def isOpening (c : Char) : Bool :=
  isTokenChar c || c == '"' || c == '[' || c == '\x7b'

theorem ne_of_isOpening {c d : Char} (hc : isOpening c = true) (hd : isOpening d = false) :
    c ≠ d := by
  rintro rfl
  rw [hc] at hd
  cases hd

theorem opensToken_of_isOpening {c : Char} (h : isOpening c = true) (rest : List Char) :
    OpensToken (c :: rest) := by
  refine opensToken_cons ⟨?_, ne_of_isOpening h (by decide)⟩ rest
  rw [Bool.eq_false_iff, ne_eq, isGap_iff]
  rintro (rfl | rfl | rfl) <;> cases h

/-- The marks in front of what is no text of its own line: properties, aliases and block scalars. -/
def isLead (c : Char) : Bool :=
  c == '&' || c == '!' || c == '*' || c == '|' || c == '>'

theorem isLead_of_isOpening {c : Char} (h : isOpening c = true) : isLead c = false := by
  simp [isLead, ne_of_isOpening h (show isOpening '&' = false by decide),
    ne_of_isOpening h (show isOpening '!' = false by decide),
    ne_of_isOpening h (show isOpening '*' = false by decide),
    ne_of_isOpening h (show isOpening '|' = false by decide),
    ne_of_isOpening h (show isOpening '>' = false by decide)]

/-- The text of a numeral is a token. -/
theorem token_of_numeral {n : Json.Numeral} {chars : List Char} (h : n.Text chars []) :
    Token chars where
  chars c hc := by
    rcases h.forall_mem c hc with hdigit | hmark
    · simp [isTokenChar, Char.isAlphanum, hdigit]
    · simp only [List.contains_cons, List.contains_nil, Bool.or_false, Bool.or_eq_true,
        beq_iff_eq] at hmark
      rcases hmark with rfl | rfl | rfl | rfl | rfl <;> rfl
  opens := by
    rcases h with ⟨hn, text, -, rfl⟩
    obtain ⟨d, ds, hwhole⟩ := List.exists_cons_of_ne_nil hn.whole_ne_nil
    rw [hwhole]
    have hd : d.isDigit = true := hn.whole d (hwhole ▸ List.mem_cons_self)
    have hd : d.isAlphanum = true := by simp [Char.isAlphanum, hd]
    cases n.negative with
    | true => exact ⟨'-', _, rfl, .inr ⟨rfl, d, _, rfl, hd⟩⟩
    | false => exact ⟨d, _, rfl, .inl hd⟩

/-- The words of literals are tokens. -/
theorem token_of_word {w : Source} {cs : List Char} (h : (w, cs) ∈ Source.words) :
    Token cs ∧ w.node = .scalar .plain (String.ofList cs) := by
  simp only [Source.words, List.mem_cons, Prod.mk.injEq, List.not_mem_nil, or_false] at h
  rcases h with ⟨rfl, rfl⟩ | ⟨rfl, rfl⟩ | ⟨rfl, rfl⟩ <;>
    exact ⟨⟨List.all_eq_true.1 (by decide), _, _, rfl, .inl rfl⟩, by simp [Source.node]⟩

theorem Token.exists_cons {tok : List Char} (h : Token tok) (rest : List Char) :
    ∃ c after, tok ++ rest = c :: after ∧ isTokenChar c = true := by
  rcases h with ⟨hchars, c, cs, rfl, -⟩
  exact ⟨c, _, rfl, hchars c List.mem_cons_self⟩

/-- A document is a number or a word, or it closes itself. -/
theorem text_cases {w : Source} {cs rest : List Char} (h : w.Text isGap cs rest) :
    (∃ tok, Token tok ∧ cs = tok ++ rest ∧ w.node = .scalar .plain (String.ofList tok)) ∨
      ∃ c after, cs = c :: after ∧ (c = '"' ∨ c = '[' ∨ c = '\x7b') := by
  cases h with
  | word hword => exact .inl ⟨_, (token_of_word hword).1, rfl, (token_of_word hword).2⟩
  | number hn => exact .inl ⟨_, token_of_numeral hn, rfl, rfl⟩
  | _ => exact .inr ⟨_, _, rfl, by decide⟩

/-- Every value opens with a character of its own. -/
theorem text_opens {w : Source} {cs rest : List Char} (h : w.Text isGap cs rest) :
    ∃ c after, cs = c :: after ∧ isOpening c = true := by
  rcases text_cases h with ⟨tok, htok, rfl, -⟩ | ⟨c, after, rfl, hc⟩
  · rcases htok.exists_cons rest with ⟨c, after, heq, hc⟩
    exact ⟨c, after, heq, by simp [isOpening, hc]⟩
  · refine ⟨c, after, rfl, ?_⟩
    rcases hc with rfl | rfl | rfl <;> rfl

/-! ## Flow nodes -/

variable {s : Cursor} {c : Char} {cs : List Char}

theorem rest_skip_one (hs : s.rest = c :: cs) : (s.skip 1).rest = cs := by
  rw [skip, hs]
  rfl

theorem properties?_of_opens (hs : s.rest = c :: cs) (hc : isLead c = false) (fuel : Nat) :
    properties? (fuel + 1) s = some ([], s) := by
  rw [properties?, hs]
  split
  · rename_i h
    cases h
    cases hc
  · rename_i h
    cases h
    cases hc
  · rfl

theorem atProperty_of_opens (hs : s.rest = c :: cs) (hc : isLead c = false) :
    s.atProperty = false := by
  rw [atProperty, hs]
  split
  · rename_i h
    cases h
    cases hc
  · rename_i h
    cases h
    cases hc
  · rfl

/-- A bracket opens the items of a sequence. -/
theorem flowNode?_bracket (hs : s.rest = '[' :: cs) (fuel : Nat) :
    flowNode? (fuel + 2) s =
      (flowItems? (fuel + 1) (s.skip 1).nextInFlow).map fun p => (.seq p.1, p.2) := by
  rw [flowNode?, properties?_of_opens hs (by decide)]
  simp only [Option.bind_eq_bind, Option.bind_some, atProperty_of_opens hs (by decide),
    List.isEmpty_nil, Bool.not_false, Bool.and_self, if_true, hs]
  cases flowItems? (fuel + 1) (s.skip 1).nextInFlow <;> rfl

/-- A brace opens the entries of a mapping. -/
theorem flowNode?_brace (hs : s.rest = '\x7b' :: cs) (fuel : Nat) :
    flowNode? (fuel + 2) s =
      (flowEntries? (fuel + 1) (s.skip 1).nextInFlow).map fun p => (.map p.1, p.2) := by
  rw [flowNode?, properties?_of_opens hs (by decide)]
  simp only [Option.bind_eq_bind, Option.bind_some, atProperty_of_opens hs (by decide),
    List.isEmpty_nil, Bool.not_false, Bool.and_self, if_true, hs]
  cases flowEntries? (fuel + 1) (s.skip 1).nextInFlow <;> rfl

/-- A quote opens a quoted scalar. -/
theorem flowNode?_quote (hs : s.rest = '"' :: cs) (fuel : Nat) :
    flowNode? (fuel + 2) s =
      (s.quoted? (fuel + 1)).map fun p => (.scalar .quoted p.1, p.2) := by
  rw [flowNode?, properties?_of_opens hs (by decide)]
  simp only [Option.bind_eq_bind, Option.bind_some, atProperty_of_opens hs (by decide),
    List.isEmpty_nil, Bool.not_false, Bool.and_self, if_true, hs]
  cases s.quoted? (fuel + 1) <;> rfl

/-- A token is a plain scalar in flow. -/
theorem flowNode?_token {tok rest : List Char} (htok : Token tok) (hs : s.rest = tok ++ rest)
    (hrest : Ends true rest) (fuel : Nat) :
    flowNode? (fuel + 2) s = some (.scalar .plain (String.ofList tok), s.skip tok.length) := by
  have hplain := opensPlain_of_token htok hs true
  have hread := plain_of_token htok hs hrest (fuel + 1) 0
  rcases htok.exists_cons rest with ⟨c, after, heq, hc⟩
  have hcons : s.rest = c :: after := hs.trans heq
  have hlead : isLead c = false := isLead_of_isOpening (by simp [isOpening, hc])
  rw [flowNode?, properties?_of_opens hcons hlead]
  simp only [Option.bind_eq_bind, Option.bind_some, atProperty_of_opens hcons hlead,
    List.isEmpty_nil, Bool.not_false, Bool.and_self, if_true, hplain, hread]
  rw [hcons]
  split
  case h_6 => rfl
  all_goals
    rename_i h
    cases h
    cases hc

theorem length_lt_of_token {tok rest : List Char} (htok : Token tok) :
    rest.length < (tok ++ rest).length := by
  rcases htok.exists_cons [] with ⟨c, after, heq, -⟩
  rw [List.append_nil] at heq
  rw [List.length_append, heq, List.length_cons]
  omega

/-- A number or a word, whichever it is. -/
theorem flowNode?_of_token {fuel : Nat} {tok rest : List Char} (htok : Token tok)
    (hs : s.rest = tok ++ rest) (hfuel : 2 * s.rest.length ≤ fuel) (hrest : Ends true rest) :
    rest.length < s.rest.length ∧
      ∃ t, flowNode? fuel s = some (.scalar .plain (String.ofList tok), t) ∧ t.rest = rest := by
  have hlt : rest.length < s.rest.length := hs ▸ length_lt_of_token htok
  obtain ⟨fuel, rfl⟩ : ∃ n, fuel = n + 2 := ⟨fuel - 2, by omega⟩
  exact ⟨hlt, _, flowNode?_token htok hs hrest fuel, by rw [skip, hs, List.drop_left]⟩

theorem ends_of_gap {stop rest : List Char} {c : Char} (h : Gap isGap stop (c :: rest))
    (hc : isFlowMark c = true) : Ends true stop :=
  ⟨_, h, .inr ⟨rfl, c, rest, rfl, hc⟩⟩

/-- An item of a sequence, once its node is read and no colon comes next. -/
theorem flowItems?_of_node {fuel : Nat} {t : Cursor} {node : Node} {d : Char} {after : List Char}
    (hs : s.rest = c :: cs) (hc : isOpening c = true) (hread : flowNode? fuel s = some (node, t))
    (ht : t.nextInFlow.rest = d :: after) (hd : d = ']' ∨ d = ',') :
    flowItems? (fuel + 1) s =
      if d = ']' then some ([node], t.nextInFlow.skip 1)
      else (flowItems? fuel (t.nextInFlow.skip 1).nextInFlow).map fun p => (node :: p.1, p.2) := by
  have hcolon : t.nextInFlow.atColon s.closesItself = false := by
    rw [atColon, ht]
    rcases hd with rfl | rfl <;> rfl
  rw [flowItems?, hs]
  split
  case h_4 =>
    rw [hread]
    simp only [Option.bind_eq_bind, Option.bind_some, hcolon, Bool.false_eq_true, if_false,
      Option.pure_def, ht]
    rcases hd with rfl | rfl
    · rfl
    · cases flowItems? fuel (t.nextInFlow.skip 1).nextInFlow <;> rfl
  all_goals
    rename_i h
    cases h
    try cases hc

/-- An entry of a mapping, once its key, the colon and its value are read. -/
theorem flowEntries?_of_nodes {fuel : Nat} {t u : Cursor} {key value : Node} {d : Char}
    {after after' : List Char} (hs : s.rest = '"' :: cs) (hkey : flowNode? fuel s = some (key, t))
    (ht : t.nextInFlow.rest = ':' :: after)
    (hvalue : flowNode? fuel (t.nextInFlow.skip 1).nextInFlow = some (value, u))
    (hu : u.nextInFlow.rest = d :: after') (hd : d = '\x7d' ∨ d = ',') :
    flowEntries? (fuel + 1) s =
      if d = '\x7d' then some ([(key, value)], u.nextInFlow.skip 1)
      else (flowEntries? fuel (u.nextInFlow.skip 1).nextInFlow).map
        fun p => ((key, value) :: p.1, p.2) := by
  have hopens : s.opens '?' = false := by
    rw [opens, hs]
    rfl
  have hcolon : t.nextInFlow.atColon s.closesItself = true := by
    rw [atColon, ht, closesItself, hs]
    rfl
  rw [flowEntries?, hs]
  simp only [hopens, Bool.false_eq_true, if_false, hkey, Option.bind_eq_bind, Option.bind_some,
    hcolon, if_true, hvalue, Option.pure_def, hu]
  rcases hd with rfl | rfl
  · rfl
  · cases flowEntries? fuel (u.nextInFlow.skip 1).nextInFlow <;> rfl

mutual

/-- A document is read as its node.  The induction is on the fuel; two units a character are
enough, since no two calls in a row read nothing. -/
theorem flowNode?_of_text {fuel : Nat} {s : Cursor} {w : Source} {rest : List Char}
    (h : w.Text isGap s.rest rest) (hfuel : 2 * s.rest.length ≤ fuel) (hrest : Ends true rest) :
    rest.length < s.rest.length ∧ ∃ t, flowNode? fuel s = some (w.node, t) ∧ t.rest = rest := by
  generalize hs : s.rest = cs at h
  -- Two steps go into each opening, one for the properties before it and one for what it opens.
  cases h with
  | word hword =>
    rcases token_of_word hword with ⟨htok, hnode⟩
    rw [hnode, ← hs]
    exact flowNode?_of_token htok hs hfuel hrest
  | number hn =>
    rw [← hs]
    exact flowNode?_of_token (token_of_numeral hn) hs hfuel hrest
  | @text str after rest htext =>
    have hlt := htext.length_lt
    rw [hs, List.length_cons] at hfuel
    obtain ⟨fuel, rfl⟩ : ∃ n, fuel = n + 2 := ⟨fuel - 2, by omega⟩
    rcases quoted?_of_stringText hs htext (show after.length ≤ fuel + 1 by omega) with
      ⟨t, ht, hrest⟩
    refine ⟨by rw [List.length_cons]; omega, t, ?_, hrest⟩
    rw [flowNode?_quote hs, ht]
    rfl
  | @noItems after rest hclose =>
    have hle := hclose.length_le
    have hnext : (s.skip 1).nextInFlow.rest = ']' :: rest :=
      rest_nextInFlow ((rest_skip_one hs).symm ▸ hclose) (opensToken_cons (by decide) _)
    rw [hs, List.length_cons] at hfuel
    rw [List.length_cons] at hle ⊢
    obtain ⟨fuel, rfl⟩ : ∃ n, fuel = n + 2 := ⟨fuel - 2, by omega⟩
    refine ⟨by omega, (s.skip 1).nextInFlow.skip 1, ?_, rest_skip_one hnext⟩
    rw [flowNode?_bracket hs, flowItems?, hnext]
    rfl
  | @items items after rest hitems =>
    rw [hs, List.length_cons] at hfuel
    obtain ⟨fuel, rfl⟩ : ∃ n, fuel = n + 2 := ⟨fuel - 2, by omega⟩
    have hitems : Source.ItemsText isGap items (s.skip 1).rest rest :=
      (rest_skip_one hs).symm ▸ hitems
    have hfuel : 2 * (s.skip 1).rest.length + 1 ≤ fuel + 1 := by
      rw [rest_skip_one hs]
      omega
    rcases flowItems?_of_text hitems hfuel with ⟨hlt, t, ht, hrest⟩
    rw [rest_skip_one hs] at hlt
    refine ⟨by rw [List.length_cons]; omega, t, ?_, hrest⟩
    rw [flowNode?_bracket hs, ht]
    rfl
  | @noMembers after rest hclose =>
    have hle := hclose.length_le
    have hnext : (s.skip 1).nextInFlow.rest = '\x7d' :: rest :=
      rest_nextInFlow ((rest_skip_one hs).symm ▸ hclose) (opensToken_cons (by decide) _)
    rw [hs, List.length_cons] at hfuel
    rw [List.length_cons] at hle ⊢
    obtain ⟨fuel, rfl⟩ : ∃ n, fuel = n + 2 := ⟨fuel - 2, by omega⟩
    refine ⟨by omega, (s.skip 1).nextInFlow.skip 1, ?_, rest_skip_one hnext⟩
    rw [flowNode?_brace hs, flowEntries?, hnext]
    rfl
  | @members members after rest hmembers =>
    rw [hs, List.length_cons] at hfuel
    obtain ⟨fuel, rfl⟩ : ∃ n, fuel = n + 2 := ⟨fuel - 2, by omega⟩
    have hmembers : Source.MembersText isGap members (s.skip 1).rest rest :=
      (rest_skip_one hs).symm ▸ hmembers
    have hfuel : 2 * (s.skip 1).rest.length + 1 ≤ fuel + 1 := by
      rw [rest_skip_one hs]
      omega
    rcases flowEntries?_of_text hmembers hfuel with ⟨hlt, t, ht, hrest⟩
    rw [rest_skip_one hs] at hlt
    refine ⟨by rw [List.length_cons]; omega, t, ?_, hrest⟩
    rw [flowNode?_brace hs, ht]
    rfl
termination_by (fuel, 0)

/-- A document between blanks, up to the mark that follows. -/
theorem flowNode?_between {fuel : Nat} {s : Cursor} {w : Source} {start stop rest : List Char}
    {d : Char} (hstart : Gap isGap s.rest start) (hw : w.Text isGap start stop)
    (hstop : Gap isGap stop (d :: rest)) (hd : isFlowMark d = true ∧ isGap d = false ∧ d ≠ '#')
    (hfuel : 2 * s.rest.length ≤ fuel) :
    rest.length + 1 < s.rest.length ∧ (∃ c cs, s.nextInFlow.rest = c :: cs ∧ isOpening c = true) ∧
      ∃ t, flowNode? fuel s.nextInFlow = some (w.node, t) ∧ t.nextInFlow.rest = d :: rest := by
  rcases text_opens hw with ⟨c, cs, rfl, hc⟩
  have hs : s.nextInFlow.rest = c :: cs := rest_nextInFlow hstart (opensToken_of_isOpening hc _)
  have hle := hstart.length_le
  have hle' := hstop.length_le
  rw [List.length_cons] at hle'
  have hw : w.Text isGap s.nextInFlow.rest stop := hs.symm ▸ hw
  have hfuel : 2 * s.nextInFlow.rest.length ≤ fuel := by
    rw [hs]
    omega
  rcases flowNode?_of_text hw hfuel (ends_of_gap hstop hd.1) with ⟨hlt, t, ht, hrest⟩
  rw [hs] at hlt
  exact ⟨by omega, ⟨c, cs, hs, hc⟩, t, ht, rest_nextInFlow (hrest.symm ▸ hstop)
    (opensToken_cons hd.2 _)⟩
termination_by (fuel, 1)

/-- Items are read up to what follows them, given steps enough for the text. -/
theorem flowItems?_of_text {fuel : Nat} {s : Cursor} {items : List Source} {rest : List Char}
    (h : Source.ItemsText isGap items s.rest rest) (hfuel : 2 * s.rest.length + 1 ≤ fuel) :
    rest.length < s.rest.length ∧
      ∃ t, flowItems? fuel s.nextInFlow = some (Source.itemNodes items, t) ∧ t.rest = rest := by
  obtain ⟨fuel, rfl⟩ : ∃ n, fuel = n + 1 := ⟨fuel - 1, by omega⟩
  have hfuel := Nat.le_of_succ_le_succ hfuel
  generalize hcs : s.rest = cs at h
  rw [← hcs]
  cases h with
  | last hstart hw hstop =>
    rcases flowNode?_between (hcs.symm ▸ hstart) hw hstop (by decide) hfuel with
      ⟨hlt, ⟨c, cs, hs, hc⟩, t, ht, hnext⟩
    refine ⟨by omega, t.nextInFlow.skip 1, ?_, rest_skip_one hnext⟩
    rw [flowItems?_of_node hs hc ht hnext (.inl rfl)]
    rfl
  | more hstart hw hstop hitems =>
    rcases flowNode?_between (hcs.symm ▸ hstart) hw hstop (by decide) hfuel with
      ⟨hlt, ⟨c, cs, hs, hc⟩, t, ht, hnext⟩
    have hskip := rest_skip_one hnext
    have hfuel' : 2 * (t.nextInFlow.skip 1).rest.length + 1 ≤ fuel := by
      rw [hskip]
      omega
    rcases flowItems?_of_text (hskip.symm ▸ hitems) hfuel' with ⟨hlt', u, hu, hrest⟩
    rw [hskip] at hlt'
    refine ⟨by omega, u, ?_, hrest⟩
    rw [flowItems?_of_node hs hc ht hnext (.inr rfl), if_neg (by decide), hu]
    rfl
termination_by (fuel, 0)

/-- The name of a member and the colon after it are read as a key. -/
theorem flowNode?_of_keyText {fuel : Nat} {s : Cursor} {key : String} {start : List Char}
    (h : Source.KeyText isGap key s.rest start) (hfuel : 2 * s.rest.length ≤ fuel) :
    ∃ after cs t, Gap isGap after start ∧ after.length < s.rest.length ∧
      s.nextInFlow.rest = '"' :: cs ∧
      flowNode? fuel s.nextInFlow = some (.scalar .quoted key, t) ∧
      t.nextInFlow.rest = ':' :: after := by
  rcases h with ⟨hname, hkey, hcolon, hstart⟩
  have hlt := hkey.length_lt
  have hle := hname.length_le
  have hle' := hcolon.length_le
  simp only [List.length_cons] at hle hle'
  have hs := rest_nextInFlow hname (opensToken_cons (by decide) _)
  obtain ⟨fuel, rfl⟩ : ∃ n, fuel = n + 2 := ⟨fuel - 2, by omega⟩
  rcases quoted?_of_stringText hs hkey (show _ ≤ fuel + 1 by omega) with ⟨t, ht, hrest⟩
  refine ⟨_, _, t, hstart, by omega, hs, ?_,
    rest_nextInFlow (hrest.symm ▸ hcolon) (opensToken_cons (by decide) _)⟩
  rw [flowNode?_quote hs, ht]
  rfl

/-- Members are read up to what follows them, given steps enough for the text. -/
theorem flowEntries?_of_text {fuel : Nat} {s : Cursor} {members : List (String × Source)}
    {rest : List Char} (h : Source.MembersText isGap members s.rest rest)
    (hfuel : 2 * s.rest.length + 1 ≤ fuel) :
    rest.length < s.rest.length ∧
      ∃ t, flowEntries? fuel s.nextInFlow = some (Source.memberNodes members, t) ∧
        t.rest = rest := by
  obtain ⟨fuel, rfl⟩ : ∃ n, fuel = n + 1 := ⟨fuel - 1, by omega⟩
  have hfuel := Nat.le_of_succ_le_succ hfuel
  generalize hcs : s.rest = cs at h
  rw [← hcs]
  cases h with
  | last hkey hw hstop =>
    rcases flowNode?_of_keyText (hcs.symm ▸ hkey) hfuel with
      ⟨after, cs, t, hstart, hshort, hs, ht, hnext⟩
    have hskip := rest_skip_one hnext
    have hfuel : 2 * (t.nextInFlow.skip 1).rest.length ≤ fuel := by
      rw [hskip]
      omega
    rcases flowNode?_between (hskip.symm ▸ hstart) hw hstop (by decide) hfuel with
      ⟨hlt, -, u, hu, hclose⟩
    rw [hskip] at hlt
    refine ⟨by omega, u.nextInFlow.skip 1, ?_, rest_skip_one hclose⟩
    rw [flowEntries?_of_nodes hs ht hnext hu hclose (.inl rfl)]
    rfl
  | more hkey hw hstop hmembers =>
    rcases flowNode?_of_keyText (hcs.symm ▸ hkey) hfuel with
      ⟨after, cs, t, hstart, hshort, hs, ht, hnext⟩
    have hskip := rest_skip_one hnext
    have hfuel : 2 * (t.nextInFlow.skip 1).rest.length ≤ fuel := by
      rw [hskip]
      omega
    rcases flowNode?_between (hskip.symm ▸ hstart) hw hstop (by decide) hfuel with
      ⟨hlt, -, u, hu, hcomma⟩
    rw [hskip] at hlt
    have hskip' := rest_skip_one hcomma
    have hfuel' : 2 * (u.nextInFlow.skip 1).rest.length + 1 ≤ fuel := by
      rw [hskip']
      omega
    rcases flowEntries?_of_text (hskip'.symm ▸ hmembers) hfuel' with ⟨hlt', v, hv, hrest⟩
    rw [hskip'] at hlt'
    refine ⟨by omega, v, ?_, hrest⟩
    rw [flowEntries?_of_nodes hs ht hnext hu hcomma (.inr rfl), if_neg (by decide), hv]
    rfl
termination_by (fuel, 0)

end

/-! ## The root -/

theorem endLine?_of_gap (hs : Gap isGap s.rest []) : s.endLine? = some s := by
  rcases hs with ⟨gap, hgap, hs⟩
  rw [List.append_nil] at hs
  rw [endLine?, hs]
  split
  · rfl
  · rfl
  · rename_i c rest hbreak
    rw [List.forall_mem_cons] at hgap
    have hspace : isSpace c = true := by
      rcases isGap_iff.1 hgap.1 with rfl | rfl | rfl
      · rfl
      · rfl
      · exact (hbreak rfl).elim
    have hblank : blankLine (c :: rest) = true := by
      rw [blankLine, List.dropWhile_cons_of_pos hspace]
      split
      · rfl
      · rename_i d after hafter
        have hd : isGap d = true :=
          hgap.2 d ((List.dropWhile_sublist _).subset (hafter ▸ List.mem_cons_self))
        have hnot := List.head?_dropWhile_not isSpace rest
        rw [hafter] at hnot
        rcases isGap_iff.1 hd with rfl | rfl | rfl
        · cases hnot
        · cases hnot
        · rfl
    rw [hspace, hblank]
    rfl

/-- Blanks to the end hold no colon. -/
theorem opens_skipSpaces (hs : Gap isGap s.rest []) : s.skipSpaces.opens ':' = false := by
  rcases hs with ⟨gap, hgap, hs⟩
  rw [List.append_nil] at hs
  rw [skipSpaces, opens, skip, hs]
  split
  · rename_i c rest hdrop
    have hc : isGap c = true := hgap c (List.mem_of_mem_drop (hdrop ▸ List.mem_cons_self))
    have hne : (c == ':') = false := by
      rw [beq_eq_false_iff_ne]
      rintro rfl
      cases hc
    rw [hne, Bool.false_and]
  · rfl

theorem closesItself_of_cons (hs : s.rest = c :: cs) (hc : c = '"' ∨ c = '[' ∨ c = '\x7b') :
    s.closesItself = true := by
  rw [closesItself, hs]
  rcases hc with rfl | rfl | rfl <;> rfl

theorem closesItself_of_token {tok rest : List Char} (htok : Token tok)
    (hs : s.rest = tok ++ rest) : s.closesItself = false := by
  rcases htok.exists_cons rest with ⟨c, after, heq, hc⟩
  rw [closesItself, hs, heq]
  simp [ne_of_isTokenChar hc (show isTokenChar '"' = false by decide),
    ne_of_isTokenChar hc (show isTokenChar '\x27' = false by decide),
    ne_of_isTokenChar hc (show isTokenChar '[' = false by decide),
    ne_of_isTokenChar hc (show isTokenChar '\x7b' = false by decide)]

/-- No key of a block mapping stands at the root. -/
theorem implicitKey?_of_text {fuel : Nat} {w : Source} {rest : List Char}
    (h : w.Text isGap s.rest rest) (hfuel : 2 * s.rest.length ≤ fuel) (hrest : Gap isGap rest []) :
    implicitKey? fuel s = none := by
  rcases text_opens h with ⟨c, cs, hs, hc⟩
  obtain ⟨fuel, rfl⟩ : ∃ n, fuel = n + 1 := by
    rw [hs, List.length_cons] at hfuel
    exact ⟨fuel - 1, by omega⟩
  rw [implicitKey?, properties?_of_opens hs (isLead_of_isOpening hc)]
  rcases text_cases h with ⟨tok, htok, htext, -⟩ | ⟨d, after, hd, hclose⟩
  · rcases plainLine_append htok.chars false false rest with ⟨blankBefore, hline⟩
    have hafter : ∃ k, (s.skip (plainLine false false s.rest).length).rest = rest.drop k := by
      refine ⟨(plainLine false blankBefore rest).length, ?_⟩
      rw [skip, htext, hline, List.length_append, ← List.drop_drop, List.drop_left]
    rcases hafter with ⟨k, hk⟩
    have hgap : Gap isGap (rest.drop k) [] := by
      rcases hrest with ⟨gap, hgap, rfl⟩
      exact ⟨gap.drop k, fun c hc => hgap c (List.mem_of_mem_drop hc), by simp⟩
    have hstar : (s.rest.head? == some '*') = false := by
      rw [hs, List.head?_cons, beq_eq_false_iff_ne]
      rintro ⟨⟩
      cases hc
    simp only [Option.bind_eq_bind, Option.bind_some, closesItself_of_token htok htext, hstar,
      opensPlain_of_token htok htext, if_true, opens_skipSpaces (hk.symm ▸ hgap), Bool.false_and,
      Bool.false_eq_true, if_false]
  · rcases (flowNode?_of_text h hfuel ⟨[], hrest, .inl rfl⟩).2 with ⟨t, ht, htrest⟩
    have hopens : t.skipSpaces.opens ':' = false := opens_skipSpaces (htrest.symm ▸ hrest)
    simp only [Option.bind_eq_bind, Option.bind_some, closesItself_of_cons hd hclose, if_true, ht,
      hopens, Bool.false_and, Bool.false_eq_true, if_false]

/-- What opens a value is a flow node or a plain scalar, alone on its line. -/
theorem blockContent?_of_opens {fuel : Nat} (hs : s.rest = c :: cs) (hc : isLead c = false)
    (hdash : s.opens '-' = false) (hmark : s.opens '?' = false)
    (hkey : implicitKey? fuel s = none) (parent : Int) (level collections : Bool) :
    blockContent? (fuel + 1) parent level collections s =
      if s.closesItself then
        (flowNode? fuel s).bind fun p => p.2.endLine?.bind fun t => some (p.1, t)
      else if s.opensPlain false then
        (s.plain fuel false parent).2.endLine?.bind fun t =>
          some (Node.scalar .plain (s.plain fuel false parent).1, t)
      else none := by
  rw [blockContent?, hdash, hmark, hkey, atProperty_of_opens hs hc]
  simp only [Bool.false_eq_true, if_false, Option.isSome_none, Bool.or_self]
  rw [hs]
  split
  case h_4 => rfl
  all_goals
    rename_i heq
    cases heq
    cases hc

/-- The root is the node of the document. -/
theorem blockContent?_of_text {fuel : Nat} {w : Source} {rest : List Char}
    (h : w.Text isGap s.rest rest) (hfuel : 2 * s.rest.length + 1 ≤ fuel)
    (hrest : Gap isGap rest []) :
    ∃ t, blockContent? fuel (-1) false true s = some (w.node, t) ∧ t.rest = rest := by
  rcases text_opens h with ⟨c, cs, hs, hc⟩
  obtain ⟨fuel, rfl⟩ : ∃ n, fuel = n + 1 := ⟨fuel - 1, by omega⟩
  have hfuel : 2 * s.rest.length ≤ fuel := by omega
  have hopens : ∀ {indicator}, indicator = '-' ∨ indicator = '?' → s.opens indicator = false := by
    rintro indicator hindicator
    rcases text_cases h with ⟨tok, htok, htext, -⟩ | ⟨d, after, hd, hclose⟩
    · exact opens_of_token htok htext (by rcases hindicator with rfl | rfl <;> rfl)
    · rw [opens, hd]
      rcases hindicator with rfl | rfl <;> rcases hclose with rfl | rfl | rfl <;> rfl
  have hcontent := blockContent?_of_opens hs (isLead_of_isOpening hc) (hopens (.inl rfl))
    (hopens (.inr rfl)) (implicitKey?_of_text h hfuel hrest) (-1) false true
  have hends : ∀ {flow}, Ends flow rest := ⟨[], hrest, .inl rfl⟩
  rcases text_cases h with ⟨tok, htok, htext, hnode⟩ | ⟨d, after, hd, hclose⟩
  · have hskip : (s.skip tok.length).rest = rest := by rw [skip, htext, List.drop_left]
    refine ⟨s.skip tok.length, ?_, hskip⟩
    rw [hcontent, closesItself_of_token htok htext, opensPlain_of_token htok htext,
      plain_of_token htok htext hends, endLine?_of_gap (hskip.symm ▸ hrest), hnode]
    rfl
  · rcases (flowNode?_of_text h hfuel hends).2 with ⟨t, ht, htrest⟩
    refine ⟨t, ?_, htrest⟩
    rw [hcontent, closesItself_of_cons hd hclose, if_pos rfl, ht, Option.bind_some,
      endLine?_of_gap (htrest.symm ▸ hrest)]
    rfl

/-- No value is taken for the end of a document. -/
theorem atMarker_of_text {w : Source} {rest : List Char} (h : w.Text isGap s.rest rest) :
    s.atMarker = false := by
  rcases text_cases h with ⟨tok, htok, htext, -⟩ | ⟨d, after, hd, hclose⟩
  · exact atMarker_of_token htok htext
  · rw [atMarker, hd]
    rcases hclose with rfl | rfl | rfl <;> simp

/-- A whole text is read as the node of its value. -/
theorem blockNode?_of_wholeText {fuel : Nat} {w : Source} (h : w.WholeText isGap s.rest)
    (hfuel : 2 * s.rest.length + 2 ≤ fuel) :
    ∃ t, blockNode? fuel (-1) false true s = some (w.node, t) ∧ Gap isGap t.rest [] := by
  rcases h with ⟨start, stop, hstart, hw, hstop⟩
  rcases text_opens hw with ⟨c, cs, rfl, hc⟩
  have hs := rest_next hstart (opensToken_of_isOpening hc _)
  have hle := hstart.length_le
  obtain ⟨fuel, rfl⟩ : ∃ n, fuel = n + 1 := ⟨fuel - 1, by omega⟩
  have hfuel' : 2 * (s.next true).2.rest.length + 1 ≤ fuel := by
    rw [hs]
    omega
  rcases blockContent?_of_text (hs.symm ▸ hw) hfuel' hstop with ⟨t, ht, htrest⟩
  refine ⟨t, ?_, htrest.symm ▸ hstop⟩
  have hend : (s.next true).2.atEnd = false := by
    rw [atEnd, hs]
    rfl
  have hcolumn : decide (((s.next true).2.column : Int) ≤ -1) = false := by
    rw [decide_eq_false_iff_not]
    omega
  have hroot : decide ((-1 : Int) < 0) = true := rfl
  rw [blockNode?]
  simp only [hroot, hend, atMarker_of_text (hs.symm ▸ hw), hcolumn, Bool.or_self, Bool.and_false,
    Bool.false_eq_true, if_false, Bool.true_or, ht]

theorem closes_of_gap (hs : Gap isGap s.rest []) : s.closes = true := by
  have hend : (s.next true).2.atEnd = true := by
    rw [atEnd, rest_next hs opensToken_nil]
    rfl
  rw [closes]
  simp only [hend, if_true]

/-- No directive stands before the document, so only the blanks before it are skipped. -/
theorem skipDirectives_of_opens {rest : List Char} (hs : Gap isGap s.rest (c :: rest))
    (hopens : OpensToken (c :: rest)) (hc : c ≠ '%') (fuel : Nat) :
    skipDirectives false (fuel + 1) s = (false, (s.next true).2) := by
  rw [skipDirectives]
  simp only [rest_next hs hopens]
  split
  · rename_i h
    cases h
    exact absurd rfl hc
  · rfl

end Cursor

open Cursor in
/-- A JSON document is read as its node. -/
theorem Node.read?_of_wholeText {w : Json.Source} {text : String}
    (h : w.WholeText Json.isBlank text.toList) : Node.read? text = some w.node := by
  have hwhole := h.normalized
  generalize hcs : normalized text.toList = cs at hwhole
  rcases hwhole with ⟨start, stop, hstart, hw, hstop⟩
  rcases text_opens hw with ⟨c, after, rfl, hc⟩
  -- Nothing of the document is a byte order mark.
  have hbom : (cs.head? == some '\ufeff') = false := by
    rcases hstart with ⟨gap, hgap, rfl⟩
    rw [beq_eq_false_iff_ne]
    rcases gap with _ | ⟨d, gap⟩
    · rintro ⟨⟩
      cases hc
    · rintro ⟨⟩
      cases hgap _ List.mem_cons_self
  have hdirectives : skipDirectives false (4 * cs.length + 16) ⟨cs, 0, []⟩ =
      (false, (next ⟨cs, 0, []⟩ true).2) :=
    skipDirectives_of_opens (s := ⟨cs, 0, []⟩) hstart (opensToken_of_isOpening hc _)
      (ne_of_isOpening hc (by decide)) (4 * cs.length + 15)
  have hrest : (next ⟨cs, 0, []⟩ true).2.rest = c :: after :=
    rest_next hstart (opensToken_of_isOpening hc _)
  generalize (next ⟨cs, 0, []⟩ true).2 = s at hdirectives hrest
  rw [← hrest] at hw
  have hmarker : s.atDocumentStart = false := by
    rw [atDocumentStart, atMarker_of_text hw, Bool.false_and]
  have hle := hstart.length_le
  have hfuel : 2 * s.rest.length + 2 ≤ 4 * cs.length + 16 := by
    rw [hrest]
    omega
  rcases blockNode?_of_wholeText ⟨_, _, ⟨[], nofun, rfl⟩, hw, hstop⟩ hfuel with ⟨t, ht, hclose⟩
  rw [read?]
  simp only [hcs, hbom, Bool.false_eq_true, if_false, hdirectives, hmarker, ht,
    Option.bind_eq_bind, Option.bind_some, closes_of_gap hclose, if_true]

end Yaml
end Espalier
