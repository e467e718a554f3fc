import Espalier.Proofs.Json.Trees
import Espalier.Proofs.Yaml.Nodes
import Espalier.Proofs.Yaml.Numbers
import Espalier.Yaml.Tree

/-!
# JSON documents read as YAML

A text that is read as JSON is read as YAML too, unless an object repeats a name, and the trees are
the same up to numbers.  They are the same altogether exactly if no object repeats a name and both
readers take every number for the same tree: no number is minus zero, and the reader of JSON gives
the nearest double for every number that is not an integer of sixty-four bits.  It does so for all
numbers below `2 ^ 53` with a small power of ten.
-/

namespace Espalier

/-! ## Numbers -/

namespace Json.Numeral

variable {n : Numeral}

/-- An integer that the reader of JSON keeps as one. -/
def Fits (n : Numeral) : Prop :=
  n.isWhole = true ∧ Int64.minValue.toInt ≤ n.integer ∧ n.integer < UInt64.size

instance (n : Numeral) : Decidable n.Fits :=
  inferInstanceAs (Decidable (_ ∧ _ ∧ _))

/-- Both readers take the number for the same tree: it is an integer other than minus zero, or a
number for which the reader of JSON finds the nearest double. -/
def Alike (n : Numeral) : Prop :=
  if n.Fits then ¬ (n.negative = true ∧ n.integer = 0) else n.double? = some n.nearest

instance (n : Numeral) : Decidable n.Alike :=
  inferInstanceAs (Decidable (ite _ _ _))

/-- What is not an integer of sixty-four bits goes through the doubles. -/
theorem value?_eq (n : Numeral) :
    n.value? = if h : n.Fits then
        if n.negative = true ∧ n.integer = 0 then some (ofDouble (Double.zero true))
        else some (.integer ⟨n.integer, h.2.1, h.2.2⟩)
      else n.double?.map ofDouble := by
  have hzero : (n.negative && ((Ascii.decimalValue n.whole : Int) == 0)) =
      decide (n.negative = true ∧ n.integer = 0) := by
    rw [integer, Bool.eq_iff_iff]
    cases n.negative <;> simp
  unfold value?
  dsimp only
  rw [hzero]
  by_cases hwhole : n.isWhole = true
  · rw [if_pos (show (n.fraction.isEmpty && n.exponent.isNone) = true from hwhole)]
    by_cases hminus : n.negative = true ∧ n.integer = 0
    · have hfits : n.Fits := by
        rw [Fits, hminus.2]
        exact ⟨hwhole, by decide, by decide⟩
      rw [dif_pos hfits, if_pos hminus, if_pos (decide_eq_true hminus)]
    · rw [if_neg (by simpa using hminus)]
      by_cases hbounds : Int64.minValue.toInt ≤ n.integer ∧ n.integer < UInt64.size
      · rw [dif_pos (show n.Fits from ⟨hwhole, hbounds⟩), if_neg hminus]
        exact dif_pos hbounds
      · rw [dif_neg (show ¬ n.Fits from fun h => hbounds h.2)]
        exact dif_neg hbounds
  · have hfits : ¬ n.Fits := fun h => hwhole h.1
    rw [dif_neg hfits]
    exact if_neg hwhole

theorem lenientTree_of_not_fits (h : ¬ n.Fits) : n.lenientTree = n.nearestTree := by
  rw [lenientTree]
  split
  · rename_i hwhole
    have hout : ¬ (Int64.minValue.toInt ≤ n.integer ∧ n.integer < UInt64.size) :=
      fun hbounds => h ⟨hwhole, hbounds⟩
    have hnone : int64? n.integer = none := by
      rw [Option.eq_none_iff_forall_ne_some]
      intro i hi
      have hvalue := toInt_of_int64? hi
      have hlow := Int64.minValue_le_toInt i
      have hhigh := Int64.toInt_lt i
      have hsize : (UInt64.size : Int) = 2 ^ 64 := by decide
      exact hout ⟨by omega, by omega⟩
    have hlow : Int64.minValue.toInt ≤ 0 := by decide
    rw [hnone]
    simp only
    rw [if_neg fun hbounds => hout ⟨by omega, hbounds.2⟩]
  · rfl

/-- A numeral is read alike both ways just if it is one of those alike. -/
theorem lenientTree_eq_iff {j : Json} (h : n.value? = some j) :
    n.lenientTree = Tree.ofWritten j ↔ n.Alike := by
  rw [value?_eq] at h
  by_cases hfits : n.Fits
  · rw [dif_pos hfits] at h
    rw [Alike, if_pos hfits, lenientTree, if_pos hfits.1]
    by_cases hzero : n.negative = true ∧ n.integer = 0
    · rw [if_pos hzero] at h
      cases h
      have hint : int64? 0 = some 0 := by decide
      rw [hzero.2, Tree.ofWritten_ofDouble (by decide), hint]
      refine ⟨fun heq => ?_, fun h => (h ⟨hzero.1, rfl⟩).elim⟩
      cases heq
    · rw [if_neg hzero] at h
      cases h
      rw [Tree.ofWritten, Tree.ofJsonInteger]
      refine ⟨fun _ => hzero, fun _ => ?_⟩
      cases hint : int64? n.integer with
      | some i => rfl
      | none =>
        -- An integer that fits, but not with a sign, is not negative.
        have hpos : 0 ≤ n.integer := by
          by_contra hneg
          have hlow := hfits.2.1
          have hmin : Int64.minValue.toInt = -9223372036854775808 := by decide
          have hmax : Int64.maxValue.toInt = 9223372036854775807 := by decide
          rcases exists_int64? (n := n.integer) (by omega) (by omega) with ⟨i, hi⟩
          rw [hint] at hi
          cases hi
        simp only [hpos, hfits.2.2, and_self, if_true]
  · rw [dif_neg hfits, Option.map_eq_some_iff] at h
    rcases h with ⟨x, hx, rfl⟩
    have hfinite := isFinite_of_double? hx
    rw [Alike, if_neg hfits, lenientTree_of_not_fits hfits, Tree.ofWritten_ofDouble hfinite, hx,
      Option.some.injEq, nearestTree]
    split
    · rw [Tree.float.injEq, eq_comm]
    · rename_i hnearest
      constructor
      · intro heq
        cases heq
      · rintro rfl
        exact absurd hfinite hnearest

end Json.Numeral

/-! ## Documents -/

namespace Json.Source

open Yaml (Node)
open Yaml.Node (flattened? flattenedItems? flattenedEntries? tree? treeItems? treeEntries?)

mutual

/-- The tree of the document, its numbers being read as YAML reads them. -/
def lenientTree : Source → Tree
  | null => .null
  | bool b => .bool b
  | number n _ _ => n.lenientTree
  | text s => .text s
  | array items => .seq (lenientItems items)
  | object members => .map (lenientMembers members)

def lenientItems : List Source → List Tree
  | [] => []
  | w :: rest => lenientTree w :: lenientItems rest

def lenientMembers : List (String × Source) → Entries Tree
  | [] => []
  | (key, w) :: rest => (key, lenientTree w) :: lenientMembers rest

end

mutual

/-- No object of the document repeats a name. -/
def isDistinct : Source → Bool
  | array items => itemsDistinct items
  | object members => membersDistinct members && decide (members.map Prod.fst).Nodup
  | _ => true

def itemsDistinct : List Source → Bool
  | [] => true
  | w :: rest => isDistinct w && itemsDistinct rest

def membersDistinct : List (String × Source) → Bool
  | [] => true
  | (_, w) :: rest => isDistinct w && membersDistinct rest

end

mutual

def numerals : Source → List Numeral
  | number n _ _ => [n]
  | array items => itemNumerals items
  | object members => memberNumerals members
  | _ => []

def itemNumerals : List Source → List Numeral
  | [] => []
  | w :: rest => numerals w ++ itemNumerals rest

def memberNumerals : List (String × Source) → List Numeral
  | [] => []
  | (_, w) :: rest => numerals w ++ memberNumerals rest

end

theorem map_fst_of_membersValue? {members : List (String × Source)} {ms : List (String × Json)}
    (h : membersValue? members = some ms) : ms.map Prod.fst = members.map Prod.fst := by
  induction members generalizing ms with
  | nil =>
    cases h
    rfl
  | cons m rest ih =>
    rcases Option.bind_eq_some_iff.1 h with ⟨j, hj, h⟩
    rcases Option.map_eq_some_iff.1 h with ⟨ms, hms, rfl⟩
    rw [List.map_cons, List.map_cons, ih hms]

/-- Keys are distinct to the one reader just if they are to the other. -/
theorem distinctKeys?_memberNodes (members : List (String × Source)) :
    Node.distinctKeys? (memberNodes members) =
      if (members.map Prod.fst).Nodup then some (members.map Prod.fst) else none := by
  have hkeys : (memberNodes members).mapM (fun e => e.1.text?) = some (members.map Prod.fst) := by
    induction members with
    | nil => rfl
    | cons m rest ih =>
      rw [memberNodes, List.mapM_cons, ih]
      rfl
  rw [Node.distinctKeys?, hkeys]
  rfl

mutual

/-- Quoted names are no merge keys, so a node only loses what repeats a name. -/
theorem flattened?_node (w : Source) :
    w.node.flattened? = if w.isDistinct then some w.node else none := by
  cases w with
  | array items =>
    rw [node, flattened?, flattenedItems?_itemNodes, isDistinct]
    cases itemsDistinct items <;> rfl
  | object members =>
    rw [node, flattened?, flattenedEntries?_memberNodes, isDistinct]
    cases membersDistinct members with
    | false => rfl
    | true =>
      simp only [if_true, Option.bind_eq_bind, Option.bind_some, distinctKeys?_memberNodes,
        Bool.true_and, decide_eq_true_eq]
      split <;> rfl
  | _ => rfl

theorem flattenedItems?_itemNodes (items : List Source) :
    flattenedItems? (itemNodes items) =
      if itemsDistinct items then some (itemNodes items) else none := by
  cases items with
  | nil => rfl
  | cons w rest =>
    rw [itemNodes, flattenedItems?, flattened?_node, flattenedItems?_itemNodes, itemsDistinct]
    cases isDistinct w <;> cases itemsDistinct rest <;> rfl

theorem flattenedEntries?_memberNodes (members : List (String × Source)) :
    flattenedEntries? (memberNodes members) =
      if membersDistinct members then some (memberNodes members, []) else none := by
  rcases members with _ | ⟨⟨key, w⟩, rest⟩
  · rfl
  · rw [memberNodes, flattenedEntries?, flattened?_node, flattenedEntries?_memberNodes,
      membersDistinct]
    cases isDistinct w <;> cases membersDistinct rest <;> rfl

end

mutual

/-- A node of a document is a tree. -/
theorem tree?_node (w : Source) : w.node.tree? = some w.lenientTree := by
  cases w with
  | null => rfl
  | bool b => cases b <;> rfl
  | number n chars h => rw [node, tree?, Yaml.scalarTree, Numeral.plainTree_of_text h, lenientTree]
  | text s => rfl
  | array items =>
    rw [node, tree?, treeItems?_itemNodes, lenientTree]
    rfl
  | object members =>
    rw [node, tree?, treeEntries?_memberNodes, lenientTree]
    rfl

theorem treeItems?_itemNodes (items : List Source) :
    treeItems? (itemNodes items) = some (lenientItems items) := by
  cases items with
  | nil => rfl
  | cons w rest =>
    rw [itemNodes, treeItems?, tree?_node, treeItems?_itemNodes, lenientItems]
    rfl

theorem treeEntries?_memberNodes (members : List (String × Source)) :
    treeEntries? (memberNodes members) = some (lenientMembers members) := by
  rcases members with _ | ⟨⟨key, w⟩, rest⟩
  · rfl
  · rw [memberNodes, treeEntries?, tree?_node, treeEntries?_memberNodes, lenientMembers]
    rfl

end

mutual

/-- Where no name is repeated, only the numbers can make a difference. -/
theorem lenientTree_eq_iff (w : Source) (hdistinct : w.isDistinct = true) {j : Json}
    (h : w.value? = some j) :
    w.lenientTree = Tree.ofWritten j ↔ ∀ n ∈ w.numerals, n.Alike := by
  cases w with
  | number n chars hn =>
    rw [lenientTree, numerals, List.forall_mem_singleton]
    exact Numeral.lenientTree_eq_iff h
  | array items =>
    rcases Option.map_eq_some_iff.1 h with ⟨js, hjs, rfl⟩
    rw [lenientTree, Tree.ofWritten, Tree.seq.injEq, numerals]
    exact lenientItems_eq_iff items hdistinct hjs
  | object members =>
    rcases Option.map_eq_some_iff.1 h with ⟨ms, hms, rfl⟩
    rw [isDistinct, Bool.and_eq_true, decide_eq_true_eq] at hdistinct
    -- The reader of JSON settles repeated names; none is, so the members stay as they are.
    have hnodup : ((ms.map fun m => (m.1, Tree.ofWritten m.2)).map Prod.fst).Nodup := by
      rw [List.map_map, show Prod.fst ∘ (fun m : String × Json => (m.1, Tree.ofWritten m.2)) =
        Prod.fst from rfl, map_fst_of_membersValue? hms]
      exact hdistinct.2
    rw [lenientTree, Tree.ofWritten, Tree.ofWrittenMembers_eq, Tree.map.injEq, numerals,
      ← lenientMembers_eq_iff members hdistinct.1 hms]
    rw [show Entries.merge [] _ = Entries.ofPairs _ from rfl, Entries.ofPairs_eq_self hnodup]
  | _ =>
    cases h
    simp [lenientTree, Tree.ofWritten, numerals]

/-- Items are read alike both ways just if all their numerals are. -/
theorem lenientItems_eq_iff (items : List Source) (hdistinct : itemsDistinct items = true)
    {js : List Json} (h : itemsValue? items = some js) :
    lenientItems items = Tree.ofWrittenItems js ↔ ∀ n ∈ itemNumerals items, n.Alike := by
  cases items with
  | nil =>
    cases h
    simp [lenientItems, Tree.ofWrittenItems, itemNumerals]
  | cons w rest =>
    rcases Option.bind_eq_some_iff.1 h with ⟨j, hj, h⟩
    rcases Option.map_eq_some_iff.1 h with ⟨js, hjs, rfl⟩
    rw [itemsDistinct, Bool.and_eq_true] at hdistinct
    rw [lenientItems, Tree.ofWrittenItems, itemNumerals, List.cons.injEq, List.forall_mem_append,
      lenientTree_eq_iff w hdistinct.1 hj, lenientItems_eq_iff rest hdistinct.2 hjs]

/-- Members are read alike both ways just if all their numerals are. -/
theorem lenientMembers_eq_iff (members : List (String × Source))
    (hdistinct : membersDistinct members = true) {ms : List (String × Json)}
    (h : membersValue? members = some ms) :
    lenientMembers members = (ms.map fun m => (m.1, Tree.ofWritten m.2)) ↔
      ∀ n ∈ memberNumerals members, n.Alike := by
  rcases members with _ | ⟨⟨key, w⟩, rest⟩
  · cases h
    simp [lenientMembers, memberNumerals]
  · rcases Option.bind_eq_some_iff.1 h with ⟨j, hj, h⟩
    rcases Option.map_eq_some_iff.1 h with ⟨ms, hms, rfl⟩
    rw [membersDistinct, Bool.and_eq_true] at hdistinct
    rw [lenientMembers, memberNumerals, List.map_cons, List.cons.injEq, Prod.mk.injEq,
      List.forall_mem_append, lenientTree_eq_iff w hdistinct.1 hj,
      lenientMembers_eq_iff rest hdistinct.2 hms]
    simp

end

end Json.Source

namespace Tree

/-- A text that is a JSON document is read as YAML if no name is repeated. -/
theorem ofYamlText?_of_wholeText {w : Json.Source} {text : String}
    (h : w.WholeText Json.isBlank text.toList) :
    ofYamlText? text = if w.isDistinct then some w.lenientTree else none := by
  rw [ofYamlText?, Yaml.Node.read?_of_wholeText h, Option.bind_eq_bind, Option.bind_some,
    Json.Source.flattened?_node]
  cases w.isDistinct
  · rfl
  · exact w.tree?_node

/-- A text that is read as a JSON document is read as YAML too unless an object repeats a name, and
the trees are the same exactly if, besides, both readers agree on every number. -/
theorem ofYamlText?_eq_iff {text : String} {t : Tree} (h : ofJsonText? text = some t) :
    ∃ w : Json.Source, w.WholeText Json.isBlank text.toList ∧ w.value?.map ofWritten = some t ∧
      ofYamlText? text = (if w.isDistinct then some w.lenientTree else none) ∧
      (ofYamlText? text = some t ↔ w.isDistinct = true ∧ ∀ n ∈ w.numerals, n.Alike) := by
  rcases Option.map_eq_some_iff.1 h with ⟨j, hread, rfl⟩
  rcases Json.Source.exists_wholeText (Json.read?_eq_some.1 hread).1 with ⟨w, hw, hvalue⟩
  have hyaml := ofYamlText?_of_wholeText hw
  refine ⟨w, hw, by rw [hvalue]; rfl, hyaml, ?_⟩
  rw [hyaml]
  cases hdistinct : w.isDistinct with
  | false => simp
  | true =>
    rw [if_pos rfl, Option.some.injEq, w.lenientTree_eq_iff hdistinct hvalue]
    simp

/-- The last of two values under one name is taken from the text as JSON, and the text is refused as
YAML.  Minus zero and a number that the reader of JSON rounds twice are read in two ways. -/
theorem ofYamlText?_eq_iff_repeated :
    (∃ t, ofJsonText? "\x7b\"name\":\"fern\",\"name\":\"moss\"\x7d" = some t ∧
      t.jsonText = "\x7b\"name\":\"moss\"\x7d" ∧
      ofYamlText? "\x7b\"name\":\"fern\",\"name\":\"moss\"\x7d" = none ∧
      ∃ w : Json.Source,
        w.WholeText Json.isBlank "\x7b\"name\":\"fern\",\"name\":\"moss\"\x7d".toList ∧
        w.isDistinct = false) ∧
      (ofJsonText? "[-0, 9007199254740991.0]").map jsonText = some "[-0.0,9007199254740990.0]" ∧
      (ofYamlText? "[-0, 9007199254740991.0]").map jsonText = some "[0,9007199254740991.0]" := by
  have hyaml : ofYamlText? "\x7b\"name\":\"fern\",\"name\":\"moss\"\x7d" = none :=
    Option.isNone_iff_eq_none.1 (by decide +kernel)
  have hjson : (ofJsonText? "\x7b\"name\":\"fern\",\"name\":\"moss\"\x7d").map jsonText =
      some "\x7b\"name\":\"moss\"\x7d" := by decide +kernel
  refine ⟨?_, by decide +kernel, by decide +kernel⟩
  rcases Option.map_eq_some_iff.1 hjson with ⟨t, ht, htext⟩
  rcases ofYamlText?_eq_iff ht with ⟨w, hw, -, hread, -⟩
  refine ⟨t, ht, htext, hyaml, w, hw, ?_⟩
  cases hdistinct : w.isDistinct with
  | false => rfl
  | true =>
    rw [hyaml, hdistinct] at hread
    cases hread

end Tree
end Espalier
