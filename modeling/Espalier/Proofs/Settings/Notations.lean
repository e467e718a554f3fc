import Espalier.Document
import Espalier.Proofs.Entries
import Espalier.Proofs.Yaml.Agreement
import Espalier.Proofs.Yaml.Records
import Espalier.Settings.Database

/-!
# Trees in document notations

A record is read in the same way from every notation that shows its tree.  A notation shows a tree
if it offers for each part of it what a reader asks there: so do the tree itself, its JSON value,
the YAML node of every JSON text of that value, and the YAML node of what is written of a record.
-/

namespace Espalier
namespace Document

variable {δ : Type} [Document δ]

mutual

/-- A document offers what a reader asks of a tree.  No record holds a sequence or a number with a
fraction, and nothing is asked of those. -/
def Shows : Tree → δ → Prop
  | .null, d => isNull d = true
  | .bool b, d => flag? d = some b
  | .int n, d => isNull d = false ∧ count? d = uint32? n.toInt
  | .text s, d => isNull d = false ∧ text? d = some s
  | .map entries, d =>
    positions? d = none ∧ ∃ members, entries? d = some members ∧ ShowsEntries entries members
  | _, _ => True

def ShowsEntries : List (String × Tree) → List (String × δ) → Prop
  | [], members => members = []
  | (key, t) :: rest, members =>
    ∃ d others, members = (key, d) :: others ∧ Shows t d ∧ ShowsEntries rest others

end

/-! ## Reading members -/

theorem ShowsEntries.map_fst {entries : List (String × Tree)} {members : List (String × δ)}
    (h : ShowsEntries entries members) : members.map Prod.fst = entries.map Prod.fst := by
  induction entries generalizing members with
  | nil =>
    obtain rfl := h
    rfl
  | cons e rest ih =>
    obtain ⟨d, others, rfl, -, hothers⟩ := h
    rw [List.map_cons, List.map_cons, ih hothers]

theorem ShowsEntries.get?_eq_none {entries : List (String × Tree)} {members : List (String × δ)}
    (h : ShowsEntries entries members) {name : String} (hname : Entries.get? entries name = none) :
    Entries.get? members name = none := by
  rw [Entries.get?_eq_none, Entries.keys] at hname ⊢
  rwa [h.map_fst]

/-- What an entry of the tree shows is found under its name. -/
theorem ShowsEntries.exists_get? {entries : List (String × Tree)} {members : List (String × δ)}
    (h : ShowsEntries entries members) {name : String} {t : Tree}
    (hname : Entries.get? entries name = some t) :
    ∃ d, Entries.get? members name = some d ∧ Shows t d := by
  induction entries generalizing members with
  | nil => cases hname
  | cons e rest ih =>
    obtain ⟨d, others, rfl, hd, hothers⟩ := h
    rw [Entries.get?] at hname ⊢
    split at hname
    · cases hname
      exact ⟨d, if_pos ‹_›, hd⟩
    · rw [if_neg ‹_›]
      exact ih hothers hname

/-- The members of a record are read as they are shown, if they are some of those it has. -/
theorem Shows.exists_members? {entries : List (String × Tree)} {d : δ}
    (h : Shows (.map entries) d) (names : List String) (hnames : names.Nodup)
    (hsub : (entries.map Prod.fst).Sublist names) :
    ∃ members, members? names d = some members ∧ ShowsEntries entries members := by
  obtain ⟨hpositions, members, hmembers, hshows⟩ := h
  refine ⟨members, ?_, hshows⟩
  have hkeys : (members.map Prod.fst).Nodup ∧ ∀ key ∈ members.map Prod.fst, key ∈ names := by
    rw [hshows.map_fst]
    exact ⟨hnames.sublist hsub, fun key hkey => hsub.subset hkey⟩
  rw [members?, hpositions]
  dsimp only
  rw [hmembers, Option.bind_eq_bind, Option.bind_some]
  exact if_pos hkeys

section

variable {α : Type} {read : δ → Option α} {entries : List (String × Tree)}
  {members : List (String × δ)} {name : String}

/-- A member that is there is read as what it shows. -/
theorem optional?_of_shows (h : ShowsEntries entries members) (default : α) {t : Tree}
    (hname : Entries.get? entries name = some t) {r : Option α}
    (hread : ∀ d : δ, Shows t d → read d = r) : optional? default read members name = r := by
  obtain ⟨d, hd, hshows⟩ := h.exists_get? hname
  rw [optional?, hd]
  exact hread d hshows

/-- A member that is missing has its default. -/
theorem optional?_of_absent (h : ShowsEntries entries members) (default : α)
    (hname : Entries.get? entries name = none) :
    optional? default read members name = some default := by
  rw [optional?, h.get?_eq_none hname]

/-- What may be absent is read from what is written of it. -/
theorem nullable?_of_shows {write : α → Tree} (a : Option α)
    (hread : ∀ (a : α) (d : δ), Shows (write a) d → isNull d = false ∧ read d = some a) (d : δ)
    (h : Shows (Tree.ofOption write a) d) : nullable? read d = some a := by
  cases a with
  | none => exact if_pos h
  | some a =>
    obtain ⟨hnull, ha⟩ := hread a d h
    rw [nullable?, hnull, if_neg Bool.false_ne_true, ha]
    rfl

end

/-! ## Trees and JSON values -/

mutual

theorem shows_tree (t : Tree) : Shows t t := by
  cases t with
  | map entries => exact ⟨rfl, entries, rfl, showsEntries_tree entries⟩
  | int n => exact ⟨rfl, rfl⟩
  | text s => exact ⟨rfl, rfl⟩
  | seq items => trivial
  | float x => trivial
  | _ => rfl

theorem showsEntries_tree (entries : List (String × Tree)) : ShowsEntries entries entries := by
  rcases entries with _ | ⟨⟨key, t⟩, rest⟩
  · rfl
  · exact ⟨t, rest, rfl, shows_tree t, showsEntries_tree rest⟩

end

mutual

theorem shows_json (t : Tree) : Shows t (Json.ofTree t) := by
  cases t with
  | map entries => exact ⟨rfl, _, rfl, showsEntries_json entries⟩
  | int n => exact ⟨rfl, rfl⟩
  | text s => exact ⟨rfl, rfl⟩
  | seq items => trivial
  | float x => trivial
  | _ => rfl

theorem showsEntries_json (entries : List (String × Tree)) :
    ShowsEntries entries (Json.ofTreeEntries entries) := by
  rcases entries with _ | ⟨⟨key, t⟩, rest⟩
  · rfl
  · exact ⟨_, _, rfl, shows_json t, showsEntries_json rest⟩

end

end Document

/-! ## YAML nodes of JSON documents -/

/-- The value of a number is the integer that its digits are, or a double. -/
theorem Json.Numeral.value?_cases {n : Json.Numeral} {j : Json} (h : n.value? = some j) :
    (∃ m, j = .integer m ∧ n.isWhole = true ∧ n.integer = m.val) ∨ ∃ x, j = .real x := by
  have hreal : ∀ {x : Double}, x.isFinite = true → ∃ r, Json.ofDouble x = .real r :=
    fun hx => ⟨⟨_, hx⟩, dif_pos hx⟩
  rw [Json.Numeral.value?_eq] at h
  by_cases hfits : n.Fits
  · rw [dif_pos hfits] at h
    split at h
    · cases h
      exact .inr (hreal (by decide))
    · cases h
      exact .inl ⟨_, rfl, hfits.1, rfl⟩
  · rw [dif_neg hfits] at h
    rcases Option.map_eq_some_iff.1 h with ⟨x, hx, rfl⟩
    exact .inr (hreal (isFinite_of_double? hx))

/-- The digits of an integer are a count in YAML if they are one in JSON. -/
theorem Json.Numeral.integer?_of_text {n : Json.Numeral} {chars : List Char}
    (h : n.Text chars []) (hwhole : n.isWhole = true) :
    Yaml.integer? (String.ofList chars) = some n.integer ∧
      Yaml.isNullWord (String.ofList chars) = false := by
  rcases h with ⟨hn, text, htext, rfl⟩
  have hchars : signChars n.negative ++ (n.whole ++ (fractionChars n.fraction ++ (text ++ []))) =
      signChars n.negative ++ n.body text := by
    rw [List.append_nil, body]
  rcases exists_signed hn text with ⟨d, ds, hopens, hd⟩
  rw [hchars, integer?_eq hn htext, if_pos hwhole]
  refine ⟨rfl, ?_⟩
  rw [Yaml.isNullWord, contains_fold_of_opens hopens hd (by decide)]

/-- What a document of a value is written as. -/
theorem Json.Source.cases_of_value? {w : Json.Source} {j : Json} (h : w.value? = some j) :
    match j with
    | .null => w = .null
    | .bool b => w = .bool b
    | .integer m => ∃ n chars hn, w = .number n chars hn ∧ n.isWhole = true ∧ n.integer = m.val
    | .text s => w = .text s
    | .object ms => ∃ members, w = .object members ∧ membersValue? members = some ms
    | _ => True := by
  cases w with
  | number n chars hn =>
    rcases Json.Numeral.value?_cases h with ⟨m, rfl, hm⟩ | ⟨x, rfl⟩
    · exact ⟨n, chars, hn, rfl, hm⟩
    · trivial
  | array items =>
    rcases Option.map_eq_some_iff.1 h with ⟨js, -, rfl⟩
    trivial
  | object members =>
    rcases Option.map_eq_some_iff.1 h with ⟨ms, hms, rfl⟩
    exact ⟨members, rfl, hms⟩
  | _ =>
    cases h
    rfl

namespace Document

open Json (Source)
open Json.Source (membersValue? memberNodes membersDistinct)

/-- The entries of a node are named by what is written. -/
theorem entries?_node (members : List (String × Source)) :
    entries? (Source.object members).node =
      some (members.map fun m => (m.1, m.2.node)) := by
  have hnode : ∀ members, entries? (Source.object members).node =
      (memberNodes members).mapM fun e => e.1.text?.map fun key => (key, e.2) := fun _ => rfl
  induction members with
  | nil => rfl
  | cons m rest ih =>
    rw [hnode] at ih ⊢
    rw [memberNodes, List.mapM_cons, ih]
    rfl

mutual

/-- A document whose value is that of a tree is a node that shows the tree. -/
theorem shows_node (t : Tree) {w : Source} (h : w.value? = some (Json.ofTree t)) :
    Shows t w.node := by
  have hw := Source.cases_of_value? h
  cases t with
  | null =>
    obtain rfl : w = .null := hw
    rfl
  | bool b =>
    obtain rfl : w = .bool b := hw
    cases b <;> rfl
  | int n =>
    obtain ⟨m, chars, hm, rfl, hwhole, hvalue⟩ := hw
    obtain ⟨hinteger, hnull⟩ := Json.Numeral.integer?_of_text hm hwhole
    refine ⟨hnull, ?_⟩
    have hcount : count? (Source.number m chars hm).node =
        (Yaml.integer? (String.ofList chars)).bind uint32? := rfl
    rw [hcount, hinteger, hvalue]
    rfl
  | text s =>
    obtain rfl : w = .text s := hw
    exact ⟨rfl, rfl⟩
  | map entries =>
    obtain ⟨members, rfl, hmembers⟩ := hw
    exact ⟨rfl, _, entries?_node members, showsEntries_members entries hmembers⟩
  | seq items => trivial
  | float x => trivial

theorem showsEntries_members (entries : List (String × Tree)) {members : List (String × Source)}
    (h : membersValue? members = some (Json.ofTreeEntries entries)) :
    ShowsEntries entries (members.map fun m => (m.1, m.2.node)) := by
  rcases entries with _ | ⟨⟨key, t⟩, rest⟩
  · cases members with
    | nil => rfl
    | cons m others => simp [membersValue?, Json.ofTreeEntries, Option.bind_eq_some_iff] at h
  · rcases members with _ | ⟨⟨key', w⟩, others⟩
    · cases h
    · obtain ⟨j, hj, h⟩ := Option.bind_eq_some_iff.1 h
      obtain ⟨js, hjs, heq⟩ := Option.map_eq_some_iff.1 h
      cases heq
      exact ⟨_, _, rfl, shows_node t hj, showsEntries_members rest hjs⟩

end

end Document

/-! ## Names that are not repeated -/

namespace Json.Source

theorem map_fst_ofTreeEntries (entries : Entries Tree) :
    (ofTreeEntries entries).map Prod.fst = Entries.keys entries := by
  induction entries with
  | nil => rfl
  | cons e rest ih => rw [ofTreeEntries, List.map_cons, ih]; rfl

mutual

/-- If no mapping of a tree repeats a key, no document of its value repeats a name. -/
theorem isDistinct_of_value? (t : Tree) (hdistinct : t.Distinct) {w : Source}
    (h : w.value? = some (ofTree t)) : w.isDistinct = true := by
  -- Only sequences and mappings can repeat a key, and they are those of the tree.
  cases w with
  | array items =>
    obtain ⟨js, hjs, harray⟩ := Option.map_eq_some_iff.1 h
    cases t with
    | seq ts =>
      cases harray
      exact itemsDistinct_of_itemsValue? ts hdistinct hjs
    | float x =>
      rw [ofTree, ofDouble] at harray
      split at harray <;> cases harray
    | _ => cases harray
  | object members =>
    obtain ⟨ms, hms, hobject⟩ := Option.map_eq_some_iff.1 h
    cases t with
    | map entries =>
      cases hobject
      rw [isDistinct, Bool.and_eq_true, decide_eq_true_eq, ← map_fst_of_membersValue? hms,
        map_fst_ofTreeEntries]
      exact ⟨membersDistinct_of_membersValue? entries hdistinct.2 hms, hdistinct.1⟩
    | float x =>
      rw [ofTree, ofDouble] at hobject
      split at hobject <;> cases hobject
    | _ => cases hobject
  | _ => rfl

/-- If no item of a sequence repeats a key, none of its documents repeats a name. -/
theorem itemsDistinct_of_itemsValue? (ts : List Tree) (hdistinct : Tree.ItemsDistinct ts)
    {items : List Source} (h : itemsValue? items = some (ofTreeItems ts)) :
    itemsDistinct items = true := by
  rcases items with _ | ⟨w, others⟩
  · rfl
  · obtain ⟨j, hj, h⟩ := Option.bind_eq_some_iff.1 h
    obtain ⟨js, hjs, heq⟩ := Option.map_eq_some_iff.1 h
    cases ts with
    | nil => cases heq
    | cons t rest =>
      cases heq
      rw [itemsDistinct, isDistinct_of_value? t hdistinct.1 hj,
        itemsDistinct_of_itemsValue? rest hdistinct.2 hjs, Bool.and_self]

/-- If no value of a mapping repeats a key, none of its documents repeats a name. -/
theorem membersDistinct_of_membersValue? (entries : List (String × Tree))
    (hdistinct : Tree.EntriesDistinct entries) {members : List (String × Source)}
    (h : membersValue? members = some (ofTreeEntries entries)) :
    membersDistinct members = true := by
  rcases members with _ | ⟨⟨key, w⟩, others⟩
  · rfl
  · obtain ⟨j, hj, h⟩ := Option.bind_eq_some_iff.1 h
    obtain ⟨js, hjs, heq⟩ := Option.map_eq_some_iff.1 h
    rcases entries with _ | ⟨⟨key', t⟩, rest⟩
    · cases heq
    · cases heq
      rw [membersDistinct, isDistinct_of_value? t hdistinct.1 hj,
        membersDistinct_of_membersValue? rest hdistinct.2 hjs, Bool.and_self]

end

end Json.Source

namespace Document

/-- The JSON text of a tree, if it is read as JSON, is read as YAML as a node that shows the
tree. -/
theorem exists_node_jsonText {t : Tree} (hdistinct : t.Distinct)
    (hread : Json.read? t.jsonText = some (Json.ofTree t)) :
    ∃ node, (Yaml.Node.read? t.jsonText).bind Yaml.Node.flattened? = some node ∧
      Shows t node := by
  obtain ⟨w, hw, hvalue⟩ := Json.Source.exists_wholeText (Json.read?_eq_some.1 hread).1
  refine ⟨w.node, ?_, shows_node t hvalue⟩
  rw [Yaml.Node.read?_of_wholeText hw, Option.bind_some, Json.Source.flattened?_node,
    if_pos (Json.Source.isDistinct_of_value? t hdistinct hvalue)]

/-! ## YAML nodes of records -/

open Yaml (IsRecord AreRecords recordNode recordEntries)

/-- The entries of a record are found under their names. -/
theorem entries?_recordNode (entries : List (String × Tree)) :
    entries? (recordNode (.map entries)) = some (entries.map fun e => (e.1, recordNode e.2)) := by
  have hnode : ∀ entries, entries? (recordNode (.map entries)) =
      (recordEntries entries).mapM fun e => e.1.text?.map fun key => (key, e.2) := fun _ => rfl
  induction entries with
  | nil => rfl
  | cons e rest ih =>
    rw [hnode] at ih ⊢
    rw [recordEntries, List.mapM_cons, ih]
    rfl

mutual

/-- What is written of a record is a node that shows it. -/
theorem shows_recordNode (t : Tree) (h : IsRecord t) : Shows t (recordNode t) := by
  cases t with
  | null => rfl
  | bool b => cases b <;> rfl
  | int n =>
    have htext := Json.Numeral.text_chars (Json.Numeral.wellFormed_ofInt n.toInt) []
    rw [List.append_nil, Json.Numeral.chars_ofInt] at htext
    obtain ⟨hwhole, hvalue⟩ := Yaml.integer_ofInt n.toInt
    obtain ⟨hinteger, hnull⟩ := Json.Numeral.integer?_of_text htext hwhole
    have hnode : recordNode (.int n) =
        .scalar .plain (String.ofList (Json.integerChars n.toInt)) := rfl
    rw [hnode]
    -- Only what the characters are read as matters.
    generalize Json.integerChars n.toInt = chars at hinteger hnull
    have hcount : count? (Yaml.Node.scalar .plain (String.ofList chars)) =
        (Yaml.integer? (String.ofList chars)).bind uint32? := rfl
    refine ⟨hnull, ?_⟩
    rw [hcount, hinteger, hvalue]
    rfl
  | text s =>
    have hnull : isNull (recordNode (.text s)) = false := by
      rw [recordNode]
      cases hquotes : Yaml.isPlain s with
      | true => exact Yaml.isNullWord_of_isPlain hquotes
      | false => rfl
    exact ⟨hnull, if_neg (hnull.trans_ne Bool.false_ne_true)⟩
  | map entries => exact ⟨rfl, _, entries?_recordNode entries, showsEntries_recordNode entries h.2⟩
  | seq items => trivial
  | float x => trivial

/-- The entries of a record show those of its tree. -/
theorem showsEntries_recordNode (entries : List (String × Tree)) (h : AreRecords entries) :
    ShowsEntries entries (entries.map fun e => (e.1, recordNode e.2)) := by
  rcases entries with _ | ⟨⟨key, t⟩, more⟩
  · rfl
  · exact ⟨_, _, rfl, shows_recordNode t h.2.1, showsEntries_recordNode more h.2.2⟩

end

/-- What is written of a record as YAML is read as a node that shows it. -/
theorem exists_node_yamlText {entries : Entries Tree} (h : IsRecord (.map entries))
    (hdistinct : (Tree.map entries).Distinct) :
    ∃ node, (Yaml.Node.read? entries.yamlText).bind Yaml.Node.flattened? = some node ∧
      Shows (.map entries) node := by
  refine ⟨recordNode (.map entries), ?_, shows_recordNode _ h⟩
  rw [Yaml.Node.read?_yamlText h, Option.bind_some, Yaml.Node.flattened?_recordNode _ h hdistinct]

end Document
end Espalier
