import Espalier.Proofs.Json.Grammar
import Espalier.Proofs.Json.Trees
import Espalier.Yaml.Cursor

/-!
# JSON documents as written

The value of a document does not tell how its numbers were written.  A source does: it is a document
whose numbers keep their digits.  Every text of a value is the text of a source; it is one for any
choice of blanks, and it stays one when line breaks are normalised.
-/

namespace Espalier
namespace Json

/-- A document as written.  A number keeps its text; members are kept as often as they stand. -/
inductive Source where
  | null
  | bool (b : Bool)
  | number (n : Numeral) (chars : List Char) (h : n.Text chars [])
  | text (s : String)
  | array (items : List Source)
  | object (members : List (String × Source))

/-- Blanks of a kind, as many as one likes. -/
def Gap (blank : Char → Bool) (cs rest : List Char) : Prop :=
  ∃ gap, (∀ c ∈ gap, blank c = true) ∧ cs = gap ++ rest

namespace Source

def words : List (Source × List Char) :=
  [(null, ['n', 'u', 'l', 'l']), (bool true, ['t', 'r', 'u', 'e']),
    (bool false, ['f', 'a', 'l', 's', 'e'])]

/-- The name of a member and the colon after it, with the blanks around them. -/
inductive KeyText (blank : Char → Bool) : String → List Char → List Char → Prop
  | mk {key : String} {cs name colon after start : List Char} (hname : Gap blank cs ('"' :: name))
      (hkey : StringText key.toList name colon) (hcolon : Gap blank colon (':' :: after))
      (hstart : Gap blank after start) : KeyText blank key cs start

mutual

/-- A document, without the blanks around it. -/
inductive Text (blank : Char → Bool) : Source → List Char → List Char → Prop
  | word {w : Source} {cs : List Char} (h : (w, cs) ∈ words) (rest : List Char) :
      Text blank w (cs ++ rest) rest
  | number {n : Numeral} {chars : List Char} (h : n.Text chars []) (rest : List Char) :
      Text blank (.number n chars h) (chars ++ rest) rest
  | text {s : String} {cs rest : List Char} (h : StringText s.toList cs rest) :
      Text blank (.text s) ('"' :: cs) rest
  | noItems {cs rest : List Char} (h : Gap blank cs (']' :: rest)) :
      Text blank (.array []) ('[' :: cs) rest
  | items {items : List Source} {cs rest : List Char} (h : ItemsText blank items cs rest) :
      Text blank (.array items) ('[' :: cs) rest
  | noMembers {cs rest : List Char} (h : Gap blank cs ('\x7d' :: rest)) :
      Text blank (.object []) ('\x7b' :: cs) rest
  | members {members : List (String × Source)} {cs rest : List Char}
      (h : MembersText blank members cs rest) : Text blank (.object members) ('\x7b' :: cs) rest

inductive ItemsText (blank : Char → Bool) : List Source → List Char → List Char → Prop
  | last {w : Source} {cs start stop rest : List Char} (hstart : Gap blank cs start)
      (hw : Text blank w start stop) (hstop : Gap blank stop (']' :: rest)) :
      ItemsText blank [w] cs rest
  | more {w : Source} {items : List Source} {cs start stop next rest : List Char}
      (hstart : Gap blank cs start) (hw : Text blank w start stop)
      (hstop : Gap blank stop (',' :: next)) (h : ItemsText blank items next rest) :
      ItemsText blank (w :: items) cs rest

inductive MembersText (blank : Char → Bool) :
    List (String × Source) → List Char → List Char → Prop
  | last {key : String} {w : Source} {cs start stop rest : List Char}
      (hkey : KeyText blank key cs start) (hw : Text blank w start stop)
      (hstop : Gap blank stop ('\x7d' :: rest)) : MembersText blank [(key, w)] cs rest
  | more {key : String} {w : Source} {members : List (String × Source)}
      {cs start stop next rest : List Char} (hkey : KeyText blank key cs start)
      (hw : Text blank w start stop) (hstop : Gap blank stop (',' :: next))
      (h : MembersText blank members next rest) : MembersText blank ((key, w) :: members) cs rest

end

/-- A whole text: the document with blanks around it and nothing else. -/
def WholeText (blank : Char → Bool) (w : Source) (cs : List Char) : Prop :=
  ∃ start stop, Gap blank cs start ∧ Text blank w start stop ∧ Gap blank stop []

mutual

/-- The value of a document, if its numbers have one. -/
def value? : Source → Option Json
  | null => some .null
  | bool b => some (.bool b)
  | number n _ _ => n.value?
  | text s => some (.text s)
  | array items => (itemsValue? items).map .array
  | object members => (membersValue? members).map .object

def itemsValue? : List Source → Option (List Json)
  | [] => some []
  | w :: rest => (value? w).bind fun j => (itemsValue? rest).map (j :: ·)

def membersValue? : List (String × Source) → Option (List (String × Json))
  | [] => some []
  | (key, w) :: rest => (value? w).bind fun j => (membersValue? rest).map ((key, j) :: ·)

end

end Source

/-! ## Sources of values -/

theorem Gap.of_blanks {cs rest : List Char} (h : Blanks cs rest) : Gap isBlank cs rest := by
  induction h with
  | none => exact ⟨[], nofun, rfl⟩
  | more hc _ ih =>
    rcases ih with ⟨gap, hgap, rfl⟩
    exact ⟨_ :: gap, List.forall_mem_cons.2 ⟨isBlank_iff.2 hc, hgap⟩, rfl⟩

theorem Gap.length_le {blank : Char → Bool} {cs rest : List Char} (h : Gap blank cs rest) :
    rest.length ≤ cs.length := by
  rcases h with ⟨gap, -, rfl⟩
  rw [List.length_append]
  exact Nat.le_add_left _ _

/-- The text of a numeral, apart from what follows it. -/
theorem Numeral.Text.exists_append {n : Numeral} {cs rest : List Char} (h : n.Text cs rest) :
    ∃ chars, n.Text chars [] ∧ cs = chars ++ rest := by
  rcases h with ⟨hn, text, htext, rfl⟩
  refine ⟨_, ⟨hn, text, htext, rfl⟩, ?_⟩
  simp only [List.append_assoc, List.append_nil]

/-- The characters of a number. -/
theorem Numeral.Text.forall_mem {n : Numeral} {chars : List Char} (h : n.Text chars []) :
    ∀ c ∈ chars, c.isDigit = true ∨ ['-', '+', '.', 'e', 'E'].contains c = true := by
  rcases h with ⟨hn, text, htext, rfl⟩
  have hsign : ∀ c ∈ signChars n.negative, ['-', '+', '.', 'e', 'E'].contains c = true := by
    cases n.negative <;> simp [signChars]
  have hfraction : ∀ c ∈ fractionChars n.fraction,
      c.isDigit = true ∨ ['-', '+', '.', 'e', 'E'].contains c = true := by
    rw [fractionChars]
    split
    · exact List.forall_mem_nil _
    · exact List.forall_mem_cons.2 ⟨.inr rfl, fun c hc => .inl (hn.fraction c hc)⟩
  have hmark : ∀ {mark : Char}, mark = 'e' ∨ mark = 'E' →
      ['-', '+', '.', 'e', 'E'].contains mark = true := by
    rintro _ (rfl | rfl) <;> rfl
  have hexponent : ∀ c ∈ text,
      c.isDigit = true ∨ ['-', '+', '.', 'e', 'E'].contains c = true := by
    have hdigits := hn.exponent
    generalize n.exponent = e at htext hdigits
    cases htext with
    | absent => exact List.forall_mem_nil _
    | unsigned h ds =>
      exact List.forall_mem_cons.2 ⟨.inr (hmark h), fun c hc => .inl ((hdigits _ rfl).2 c hc)⟩
    | signed h negative ds =>
      refine List.forall_mem_cons.2 ⟨.inr (hmark h), List.forall_mem_cons.2 ⟨.inr ?_, fun c hc =>
        .inl ((hdigits _ rfl).2 c hc)⟩⟩
      cases negative <;> rfl
  simp only [List.append_nil, List.forall_mem_append]
  exact ⟨fun c hc => .inr (hsign c hc), fun c hc => .inl (hn.whole c hc), hfraction, hexponent⟩

namespace Source

theorem KeyText.of_keyText {key : String} {cs start : List Char} (h : Json.KeyText key cs start) :
    KeyText isBlank key cs start := by
  rcases h with ⟨hname, hkey, hcolon, hstart⟩
  exact ⟨.of_blanks hname, hkey, .of_blanks hcolon, .of_blanks hstart⟩

mutual

/-- Every text of a value is written in one way. -/
theorem exists_text {j : Json} {cs rest : List Char} (h : ValueText j cs rest) :
    ∃ w : Source, w.Text isBlank cs rest ∧ w.value? = some j := by
  cases h with
  | nullWord =>
    exact ⟨null, .word (List.mem_cons_self : (null, ['n', 'u', 'l', 'l']) ∈ words) rest, rfl⟩
  | trueWord =>
    have hword : (bool true, ['t', 'r', 'u', 'e']) ∈ words := by simp [words]
    exact ⟨bool true, .word hword rest, rfl⟩
  | falseWord =>
    have hword : (bool false, ['f', 'a', 'l', 's', 'e']) ∈ words := by simp [words]
    exact ⟨bool false, .word hword rest, rfl⟩
  | number hn hj =>
    rcases hn.exists_append with ⟨chars, hchars, rfl⟩
    exact ⟨.number _ chars hchars, .number hchars rest, hj⟩
  | text hs => exact ⟨text _, .text hs, rfl⟩
  | noItems hclose => exact ⟨array [], .noItems (.of_blanks hclose), rfl⟩
  | items hitems =>
    rcases exists_itemsText hitems with ⟨items, hitems, hvalue⟩
    exact ⟨array items, .items hitems, by rw [value?, hvalue]; rfl⟩
  | noMembers hclose => exact ⟨object [], .noMembers (.of_blanks hclose), rfl⟩
  | members hmembers =>
    rcases exists_membersText hmembers with ⟨members, hmembers, hvalue⟩
    exact ⟨object members, .members hmembers, by rw [value?, hvalue]; rfl⟩

/-- The items of an array are those of a source with their values. -/
theorem exists_itemsText {js : List Json} {cs rest : List Char} (h : Json.ItemsText js cs rest) :
    ∃ items : List Source, ItemsText isBlank items cs rest ∧ itemsValue? items = some js := by
  cases h with
  | last hstart hj hstop =>
    rcases exists_text hj with ⟨w, hw, hvalue⟩
    refine ⟨[w], .last (.of_blanks hstart) hw (.of_blanks hstop), ?_⟩
    rw [itemsValue?, hvalue]
    rfl
  | more hstart hj hstop hnext =>
    rcases exists_text hj with ⟨w, hw, hvalue⟩
    rcases exists_itemsText hnext with ⟨items, hitems, hvalues⟩
    refine ⟨w :: items, .more (.of_blanks hstart) hw (.of_blanks hstop) hitems, ?_⟩
    rw [itemsValue?, hvalue, hvalues]
    rfl

/-- The members of an object are those of a source with their values. -/
theorem exists_membersText {ms : List (String × Json)} {cs rest : List Char}
    (h : Json.MembersText ms cs rest) :
    ∃ members : List (String × Source),
      MembersText isBlank members cs rest ∧ membersValue? members = some ms := by
  cases h with
  | last hkey hj hstop =>
    rcases exists_text hj with ⟨w, hw, hvalue⟩
    refine ⟨[(_, w)], .last (.of_keyText hkey) hw (.of_blanks hstop), ?_⟩
    rw [membersValue?, hvalue]
    rfl
  | more hkey hj hstop hnext =>
    rcases exists_text hj with ⟨w, hw, hvalue⟩
    rcases exists_membersText hnext with ⟨members, hmembers, hvalues⟩
    refine ⟨(_, w) :: members, .more (.of_keyText hkey) hw (.of_blanks hstop) hmembers, ?_⟩
    rw [membersValue?, hvalue, hvalues]
    rfl

end

/-- A document is the text of a source with its value. -/
theorem exists_wholeText {j : Json} {text : String} (h : DocumentText j text) :
    ∃ w : Source, w.WholeText isBlank text.toList ∧ w.value? = some j := by
  rcases h with ⟨start, stop, hstart, hj, hstop⟩
  rcases exists_text hj with ⟨w, hw, hvalue⟩
  exact ⟨w, ⟨start, stop, .of_blanks hstart, hw, .of_blanks hstop⟩, hvalue⟩

end Source

/-! ## Normalised line breaks -/

open Yaml (normalized isGap)

theorem normalized_cons {c : Char} (h : c ≠ '\r') (cs : List Char) :
    normalized (c :: cs) = c :: normalized cs := by
  rw [normalized]
  · rintro rest rfl
    exact absurd rfl h
  · rintro rfl
    exact absurd rfl h

/-- Line breaks are the same where there is no carriage return. -/
theorem normalized_append {cs : List Char} (h : '\r' ∉ cs) (rest : List Char) :
    normalized (cs ++ rest) = cs ++ normalized rest := by
  induction cs with
  | nil => rfl
  | cons c cs ih =>
    rw [List.mem_cons, not_or] at h
    rw [List.cons_append, normalized_cons (Ne.symm h.1), ih h.2, List.cons_append]

/-- A return before a line feed goes away with it, another one becomes a line feed. -/
theorem Gap.normalized {cs rest : List Char} (h : Gap isBlank cs rest) :
    Gap isGap (normalized cs) (normalized rest) := by
  rcases h with ⟨gap, hgap, rfl⟩
  induction gap with
  | nil => exact ⟨[], nofun, rfl⟩
  | cons c gap ih =>
    rw [List.forall_mem_cons] at hgap
    rcases ih hgap.2 with ⟨gap', hgap', heq⟩
    rcases isBlank_iff.1 hgap.1 with rfl | rfl | rfl | rfl
    · exact ⟨' ' :: gap', List.forall_mem_cons.2 ⟨rfl, hgap'⟩,
        by rw [List.cons_append, normalized_cons (by decide), heq, List.cons_append]⟩
    · exact ⟨'\n' :: gap', List.forall_mem_cons.2 ⟨rfl, hgap'⟩,
        by rw [List.cons_append, normalized_cons (by decide), heq, List.cons_append]⟩
    · exact ⟨'\t' :: gap', List.forall_mem_cons.2 ⟨rfl, hgap'⟩,
        by rw [List.cons_append, normalized_cons (by decide), heq, List.cons_append]⟩
    · rw [List.cons_append]
      generalize gap ++ rest = after at heq
      rcases after with _ | ⟨d, after⟩
      · exact ⟨'\n' :: gap', List.forall_mem_cons.2 ⟨rfl, hgap'⟩,
          by rw [Yaml.normalized, heq, List.cons_append]; rintro rest ⟨⟩⟩
      · by_cases hd : d = '\n'
        · subst hd
          rw [normalized_cons (by decide)] at heq
          exact ⟨gap', hgap', by rw [Yaml.normalized, heq]⟩
        · refine ⟨'\n' :: gap', List.forall_mem_cons.2 ⟨rfl, hgap'⟩, ?_⟩
          rw [Yaml.normalized, heq, List.cons_append]
          rintro rest ⟨⟩
          exact hd rfl

/-- The digits of a numbered escape, one by one. -/
theorem hexUnit?_eq_some {a b c d : Char} {u : Nat} (h : hexUnit? a b c d = some u) :
    ∃ i j k l, Ascii.digitValue? 16 a = some i ∧ Ascii.digitValue? 16 b = some j ∧
      Ascii.digitValue? 16 c = some k ∧ Ascii.digitValue? 16 d = some l ∧
      u = ((i * 16 + j) * 16 + k) * 16 + l := by
  rcases Option.bind_eq_some_iff.1 h with ⟨i, hi, h⟩
  rcases Option.bind_eq_some_iff.1 h with ⟨j, hj, h⟩
  rcases Option.bind_eq_some_iff.1 h with ⟨k, hk, h⟩
  rcases Option.bind_eq_some_iff.1 h with ⟨l, hl, h⟩
  cases h
  exact ⟨i, j, k, l, hi, hj, hk, hl, rfl⟩

/-- No character of a string is a line break that would change. -/
theorem CharText.normalized {c : Char} {cs rest : List Char} (h : CharText c cs rest) :
    CharText c (normalized cs) (normalized rest) := by
  -- No character of an escape is a carriage return, nor is one that stands for itself.
  have hdigit : ∀ {c : Char} {i : Nat}, Ascii.digitValue? 16 c = some i → c ≠ '\r' := by
    rintro _ i h rfl
    cases h
  have hhex : ∀ {a b c d : Char} {u : Nat}, hexUnit? a b c d = some u →
      a ≠ '\r' ∧ b ≠ '\r' ∧ c ≠ '\r' ∧ d ≠ '\r' := by
    intro a b c d u h
    rcases hexUnit?_eq_some h with ⟨i, j, k, l, hi, hj, hk, hl, -⟩
    exact ⟨hdigit hi, hdigit hj, hdigit hk, hdigit hl⟩
  cases h with
  | plain hquote hbackslash hcontrol =>
    rw [normalized_cons]
    · exact .plain hquote hbackslash hcontrol _
    · rintro rfl
      exact absurd hcontrol (by decide)
  | short h =>
    have hall : ∀ p ∈ shortEscapes, p.1 ≠ '\r' := by decide
    rw [normalized_cons (by decide), normalized_cons (hall _ h)]
    exact .short h _
  | unit hu hhigh hlow =>
    rcases hhex hu with ⟨ha, hb, hc, hd⟩
    simp only [normalized_cons, ha, hb, hc, hd, ne_eq, not_false_eq_true, Char.reduceEq]
    exact .unit hu hhigh hlow _
  | pair hu hhigh hv hlow =>
    rcases hhex hu with ⟨ha, hb, hc, hd⟩
    rcases hhex hv with ⟨he, hf, hg, hh⟩
    simp only [normalized_cons, ha, hb, hc, hd, he, hf, hg, hh, ne_eq, not_false_eq_true,
      Char.reduceEq]
    exact .pair hu hhigh hv hlow _

/-- A string is the same text after its line breaks are normalised. -/
theorem StringText.normalized {xs cs rest : List Char} (h : StringText xs cs rest) :
    StringText xs (normalized cs) (normalized rest) := by
  induction h with
  | close rest =>
    rw [normalized_cons (by decide)]
    exact .close _
  | char hc _ ih => exact .char hc.normalized ih

namespace Source

theorem KeyText.normalized {key : String} {cs start : List Char}
    (h : KeyText isBlank key cs start) :
    KeyText isGap key (normalized cs) (normalized start) := by
  rcases h with ⟨hname, hkey, hcolon, hstart⟩
  have hname := hname.normalized
  have hcolon := hcolon.normalized
  rw [normalized_cons (by decide)] at hname hcolon
  exact ⟨hname, hkey.normalized, hcolon, hstart.normalized⟩

mutual

/-- Normalised line breaks are blanks, and nothing else changes. -/
theorem Text.normalized {w : Source} {cs rest : List Char} (h : w.Text isBlank cs rest) :
    w.Text isGap (normalized cs) (normalized rest) := by
  cases h with
  | word hword =>
    have hreturn : ∀ p ∈ words, '\r' ∉ p.2 := by simp [words]
    rw [normalized_append (hreturn _ hword)]
    exact .word hword _
  | number hn =>
    have hreturn : '\r' ∉ _ := fun hmem => by rcases hn.forall_mem _ hmem with h | h <;> cases h
    rw [normalized_append hreturn]
    exact .number hn _
  | text hs =>
    rw [normalized_cons (by decide)]
    exact .text hs.normalized
  | noItems hclose =>
    have hclose := hclose.normalized
    rw [normalized_cons (by decide)] at hclose ⊢
    exact .noItems hclose
  | items hitems =>
    rw [normalized_cons (by decide)]
    exact .items hitems.normalized
  | noMembers hclose =>
    have hclose := hclose.normalized
    rw [normalized_cons (by decide)] at hclose ⊢
    exact .noMembers hclose
  | members hmembers =>
    rw [normalized_cons (by decide)]
    exact .members hmembers.normalized

theorem ItemsText.normalized {items : List Source} {cs rest : List Char}
    (h : ItemsText isBlank items cs rest) :
    ItemsText isGap items (normalized cs) (normalized rest) := by
  cases h with
  | last hstart hw hstop =>
    have hstop := hstop.normalized
    rw [normalized_cons (by decide)] at hstop
    exact .last hstart.normalized hw.normalized hstop
  | more hstart hw hstop hnext =>
    have hstop := hstop.normalized
    rw [normalized_cons (by decide)] at hstop
    exact .more hstart.normalized hw.normalized hstop hnext.normalized

theorem MembersText.normalized {members : List (String × Source)} {cs rest : List Char}
    (h : MembersText isBlank members cs rest) :
    MembersText isGap members (normalized cs) (normalized rest) := by
  cases h with
  | last hkey hw hstop =>
    have hstop := hstop.normalized
    rw [normalized_cons (by decide)] at hstop
    exact .last hkey.normalized hw.normalized hstop
  | more hkey hw hstop hnext =>
    have hstop := hstop.normalized
    rw [normalized_cons (by decide)] at hstop
    exact .more hkey.normalized hw.normalized hstop hnext.normalized

end

/-- A whole text stays one when its line breaks are normalised. -/
theorem WholeText.normalized {w : Source} {cs : List Char} (h : w.WholeText isBlank cs) :
    w.WholeText isGap (normalized cs) := by
  rcases h with ⟨start, stop, hstart, hw, hstop⟩
  exact ⟨_, _, hstart.normalized, hw.normalized, hstop.normalized⟩

end Source
end Json
end Espalier
