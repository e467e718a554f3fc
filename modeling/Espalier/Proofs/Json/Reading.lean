import Espalier.Proofs.Json.Grammar
import Espalier.Proofs.Json.Trees

/-!
# Trees from JSON text

A tree without floats is read back from its own text, or not at all if it is nested too deeply: the
text of no tree stands for another.  A text can also be read as a JSON value first, repeated members
being settled before the value becomes a tree; `routes_agree` says that this makes no difference,
and that the one pass finds what trying the kinds of tree one after the other would find.
-/

namespace Espalier

/-! ## Texts nested too deeply -/

namespace Json

mutual

/-- Reading the doubles of a value again leaves its levels alone. -/
theorem nesting_of_reread? (j : Json) {j' : Json} (h : j.reread? = some j') :
    j'.nesting = j.nesting := by
  cases j with
  | real x =>
    rcases Option.map_eq_some_iff.1 h with ⟨y, -, rfl⟩
    rw [ofDouble]
    split <;> rfl
  | array items =>
    rcases Option.map_eq_some_iff.1 h with ⟨items', hitems, rfl⟩
    rw [nesting, nesting, itemsNesting_of_rereadItems? items hitems]
  | object members =>
    rcases Option.map_eq_some_iff.1 h with ⟨members', hmembers, rfl⟩
    rw [nesting, nesting, membersNesting_of_rereadMembers? members hmembers]
  | _ =>
    cases h
    rfl

theorem itemsNesting_of_rereadItems? (items : List Json) {items' : List Json}
    (h : rereadItems? items = some items') : itemsNesting items' = itemsNesting items := by
  cases items with
  | nil =>
    cases h
    rfl
  | cons j rest =>
    rw [rereadItems?] at h
    rcases Option.bind_eq_some_iff.1 h with ⟨j', hj, h⟩
    rcases Option.map_eq_some_iff.1 h with ⟨rest', hrest, rfl⟩
    rw [itemsNesting, itemsNesting, nesting_of_reread? j hj,
      itemsNesting_of_rereadItems? rest hrest]

theorem membersNesting_of_rereadMembers? (members : List (String × Json))
    {members' : List (String × Json)} (h : rereadMembers? members = some members') :
    membersNesting members' = membersNesting members := by
  rcases members with _ | ⟨⟨k, j⟩, rest⟩
  · cases h
    rfl
  · rw [rereadMembers?] at h
    rcases Option.bind_eq_some_iff.1 h with ⟨j', hj, h⟩
    rcases Option.map_eq_some_iff.1 h with ⟨rest', hrest, rfl⟩
    rw [membersNesting, membersNesting, nesting_of_reread? j hj,
      membersNesting_of_rereadMembers? rest hrest]

end

/-- The compact text of a value that is nested too deeply is not read as anything. -/
theorem read?_compact_of_lt {j : Json} (h : nestingLimit < j.nesting) : read? j.compact = none := by
  rw [Option.eq_none_iff_forall_ne_some]
  intro j' hread
  rcases read?_eq_some.1 hread with ⟨⟨start, stop, hstart, hvalue, hstop⟩, hdepth⟩
  rw [compact, String.toList_ofList] at hstart
  -- With enough levels the text is read, both as what it is taken for and as what was written.
  have hends : EndsNumber stop := hstop.endsNumber fun c hc => by cases hc
  have htaken := (value?_of_text hstart hvalue (Nat.le_refl _) (hdepth.trans h.le) hends).2
  have hwritten := value?_compactChars j (2 * j.compactChars.length) j.nesting [] (Nat.le_refl _)
    (Nat.le_refl _) fun c hc => by cases hc
  rw [List.append_nil, htaken] at hwritten
  rcases Option.map_eq_some_iff.1 hwritten.symm with ⟨j'', hreread, hj⟩
  cases hj
  have hsame := nesting_of_reread? j hreread
  omega

end Json

namespace Tree

/-- A tree without floats is read back from its text if it is nested at most 127 levels deep, and
from no deeper text is anything read. -/
theorem ofJsonText?_jsonText {t : Tree} (hfloats : t.floats = []) (hdistinct : t.Distinct) :
    (t.nesting ≤ 127 → ofJsonText? t.jsonText = some t) ∧
      (127 < t.nesting → ofJsonText? t.jsonText = none) := by
  constructor
  · intro hnesting
    have hfinite : ∀ x ∈ t.floats, x.isFinite = true := by simp [hfloats]
    have hread := (isSome_ofJsonText? hnesting hfinite).2 (by simp [hfloats])
    rcases Option.isSome_iff_exists.1 hread with ⟨t', ht'⟩
    have hself : t.mapFloats Double.returned = t :=
      (mapFloats_eq_self_iff _ t).2 (by simp [hfloats])
    rw [ht', eq_of_ofJsonText? hnesting hdistinct hfinite ht', hself]
  · intro hnesting
    rw [ofJsonText?, jsonText, Json.read?_compact_of_lt (by rwa [Json.nesting_ofTree])]
    rfl

def nested (t : Tree) : Nat → Tree
  | 0 => t
  | n + 1 => seq [nested t n]

theorem nesting_nested (t : Tree) (n : Nat) : (nested t n).nesting = t.nesting + n := by
  induction n with
  | zero => rfl
  | succ n ih => rw [nested, nesting, itemsNesting, itemsNesting, ih, Nat.max_zero, Nat.add_assoc]

theorem floats_nested (t : Tree) (n : Nat) : (nested t n).floats = t.floats := by
  induction n with
  | zero => rfl
  | succ n ih => rw [nested, floats, floatsItems, floatsItems, ih, List.append_nil]

theorem distinct_nested {t : Tree} (h : t.Distinct) (n : Nat) : (nested t n).Distinct := by
  induction n with
  | zero => exact h
  | succ n ih => exact ⟨ih, trivial⟩

/-- Texts that look like other scalars or need escapes, both ends of the integers, and containers
without content. -/
def awkward : Tree :=
  map [("null", text "null"), ("", text "-0"), ("1", int Int64.minValue),
    ("a \"b\"\n\u0001", text "𝄞\\ \t"),
    ("items", seq [int Int64.maxValue, bool true, seq [], map []])]

/-- Three levels are those of the tree itself: inside 124 sequences it is read back, inside 125 it
is refused. -/
theorem ofJsonText?_jsonText_awkward :
    (awkward.floats = [] ∧ awkward.Distinct) ∧
      ofJsonText? (nested awkward 124).jsonText = some (nested awkward 124) ∧
      ofJsonText? (nested awkward 125).jsonText = none := by
  have hfloats : awkward.floats = [] := rfl
  have hdistinct : awkward.Distinct := by
    simp [awkward, Distinct, ItemsDistinct, EntriesDistinct, Entries.keys]
  have hnesting : awkward.nesting = 3 := rfl
  refine ⟨⟨hfloats, hdistinct⟩, ?_, ?_⟩
  · exact (ofJsonText?_jsonText ((floats_nested _ 124).trans hfloats)
      (distinct_nested hdistinct 124)).1 (by rw [nesting_nested, hnesting])
  · exact (ofJsonText?_jsonText ((floats_nested _ 125).trans hfloats)
      (distinct_nested hdistinct 125)).2 (by rw [nesting_nested, hnesting]; decide)

/-! ## Kinds tried in turn -/

def asNull? : Json → Option Tree
  | .null => some null
  | _ => none

def asBool? : Json → Option Tree
  | .bool b => some (bool b)
  | _ => none

/-- A number is an integer only if it is written as one and fits. -/
def asInt? : Json → Option Tree
  | .integer n => (int64? n.val).map int
  | _ => none

/-- Any number is a float. -/
def asFloat? : Json → Option Tree
  | .integer n => some (float (Double.ofInt n.val))
  | .real x => some (float x.val)
  | _ => none

def asText? : Json → Option Tree
  | .text s => some (text s)
  | _ => none

mutual

/-- The tree that a document as written is first taken for, the kinds of tree being tried in turn:
null, truth values, integers, floats, texts, sequences and mappings. -/
def tried? (j : Json) : Option Tree :=
  asNull? j <|> asBool? j <|> asInt? j <|> asFloat? j <|> asText? j <|>
    (match j with
    | .array items => (triedItems? items).map seq
    | _ => none) <|>
    (match j with
    | .object members => (triedMembers? [] members).map map
    | _ => none)

def triedItems? : List Json → Option (List Tree)
  | [] => some []
  | j :: rest => (tried? j).bind fun t => (triedItems? rest).map (t :: ·)

/-- A repeated key keeps its first place and takes the value that is read last. -/
def triedMembers? (done : Entries Tree) : List (String × Json) → Option (Entries Tree)
  | [] => some done
  | (k, j) :: rest => (tried? j).bind fun t => triedMembers? (Entries.put done k t) rest

end

mutual

/-- Whatever the document, some kind takes it, and it becomes the tree of the one pass. -/
theorem tried?_eq (j : Json) : tried? j = some (ofWritten j) := by
  cases j with
  | integer n =>
    -- An integer that does not fit is tried as a float next.
    rw [ofWritten, ofJsonInteger]
    cases h : int64? n.val <;> simp [tried?, asNull?, asBool?, asInt?, asFloat?, h]
  | array items =>
    simp [tried?, triedItems?_eq, ofWritten, asNull?, asBool?, asInt?, asFloat?, asText?]
  | object members =>
    simp [tried?, triedMembers?_eq, ofWritten, asNull?, asBool?, asInt?, asFloat?, asText?]
  | _ => simp [tried?, ofWritten, asNull?, asBool?, asInt?, asFloat?, asText?]

/-- Items that are tried as one kind of tree after the other are the items as written. -/
theorem triedItems?_eq (items : List Json) : triedItems? items = some (ofWrittenItems items) := by
  cases items with
  | nil => rfl
  | cons j rest =>
    rw [triedItems?, tried?_eq, triedItems?_eq, ofWrittenItems]
    rfl

theorem triedMembers?_eq (done : Entries Tree) (members : List (String × Json)) :
    triedMembers? done members = some (ofWrittenMembers done members) := by
  rcases members with _ | ⟨⟨k, j⟩, rest⟩
  · rfl
  · rw [triedMembers?, tried?_eq, Option.bind_some, triedMembers?_eq, ofWrittenMembers]

end

/-! ## Repeated members settled first -/

theorem ofJsonMembers_eq (members : List (String × Json)) :
    ofJsonMembers members = members.map fun m => (m.1, ofJson m.2) := by
  induction members with
  | nil => rfl
  | cons m rest ih => rw [ofJsonMembers, ih, List.map_cons]

mutual

/-- Settling repeated members before the values become trees makes no difference. -/
theorem ofJson_settled (j : Json) : ofJson j.settled = ofWritten j := by
  cases j with
  | array items => rw [Json.settled, ofJson, ofJsonItems_settledItems, ofWritten]
  | object members =>
    rw [Json.settled, ofJson, ofJsonMembers_settledMembers, ofWritten]
    rfl
  | _ => rfl

theorem ofJsonItems_settledItems (items : List Json) :
    ofJsonItems (Json.settledItems items) = ofWrittenItems items := by
  cases items with
  | nil => rfl
  | cons j rest =>
    rw [Json.settledItems, ofJsonItems, ofJson_settled, ofJsonItems_settledItems, ofWrittenItems]

/-- A write of a value and then its tree is a write of the tree. -/
theorem ofJsonMembers_settledMembers (done members : List (String × Json)) :
    ofJsonMembers (Json.settledMembers done members) =
      ofWrittenMembers (ofJsonMembers done) members := by
  rcases members with _ | ⟨⟨k, j⟩, rest⟩
  · rfl
  · rw [Json.settledMembers, ofJsonMembers_settledMembers, ofWrittenMembers, ofJsonMembers_eq,
      ← Entries.put_map, ← ofJsonMembers_eq, ofJson_settled]

end

/-- A text read as a tree and a text read as a value that becomes a tree: one is read exactly if the
other is, and the trees are the same.  They are read exactly if the text is a document that is not
nested too deeply, and the tree is the one that the kinds tried in turn give. -/
theorem routes_agree (text : String) :
    ofJsonText? text = (Json.ofText? text).map ofJson ∧
      ∀ t, ofJsonText? text = some t ↔
        ∃ j, Json.DocumentText j text ∧ j.nesting ≤ Json.nestingLimit ∧ tried? j = some t := by
  constructor
  · rw [ofJsonText?, Json.ofText?, Option.map_map]
    exact congrArg (Json.read? text).map (funext fun j => (ofJson_settled j).symm)
  · intro t
    simp only [ofJsonText?, Option.map_eq_some_iff, Json.read?_eq_some, tried?_eq,
      Option.some.injEq, and_assoc]

end Tree
end Espalier
