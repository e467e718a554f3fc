import Espalier.Json.Tree
import Espalier.Proofs.Entries
import Espalier.Proofs.Json.Compact
import Espalier.Proofs.Json.Scaling

/-!
# Trees in JSON text

A document tree that is written as JSON text and read again is the same tree but for its floats:
each of them comes back as its own text is read.  The keys of every mapping must be distinct, every
float finite, and the nesting within the limit of the reader.
-/

namespace Espalier

namespace Tree

/-! ## Floats in trees -/

mutual

def floats : Tree → List Double
  | float x => [x]
  | seq items => floatsItems items
  | map entries => floatsEntries entries
  | _ => []

def floatsItems : List Tree → List Double
  | [] => []
  | t :: rest => floats t ++ floatsItems rest

def floatsEntries : List (String × Tree) → List Double
  | [] => []
  | (_, t) :: rest => floats t ++ floatsEntries rest

end

mutual

def mapFloats (g : Double → Double) : Tree → Tree
  | float x => float (g x)
  | seq items => seq (mapFloatsItems g items)
  | map entries => map (mapFloatsEntries g entries)
  | t => t

def mapFloatsItems (g : Double → Double) : List Tree → List Tree
  | [] => []
  | t :: rest => mapFloats g t :: mapFloatsItems g rest

def mapFloatsEntries (g : Double → Double) : List (String × Tree) → List (String × Tree)
  | [] => []
  | (k, t) :: rest => (k, mapFloats g t) :: mapFloatsEntries g rest

end

mutual

def nesting : Tree → Nat
  | seq items => itemsNesting items + 1
  | map entries => entriesNesting entries + 1
  | _ => 0

def itemsNesting : List Tree → Nat
  | [] => 0
  | t :: rest => max (nesting t) (itemsNesting rest)

def entriesNesting : List (String × Tree) → Nat
  | [] => 0
  | (_, t) :: rest => max (nesting t) (entriesNesting rest)

end

mutual

def Distinct : Tree → Prop
  | seq items => ItemsDistinct items
  | map entries => (Entries.keys entries).Nodup ∧ EntriesDistinct entries
  | _ => True

def ItemsDistinct : List Tree → Prop
  | [] => True
  | t :: rest => Distinct t ∧ ItemsDistinct rest

def EntriesDistinct : List (String × Tree) → Prop
  | [] => True
  | (_, t) :: rest => Distinct t ∧ EntriesDistinct rest

end

/-! ## Items and entries side by side -/

/-- The floats of a sequence are those of its items in order. -/
theorem floatsItems_eq (items : List Tree) : floatsItems items = items.flatMap floats := by
  induction items with
  | nil => rfl
  | cons t rest ih => rw [floatsItems, List.flatMap_cons, ih]

theorem floatsEntries_eq (entries : Entries Tree) :
    floatsEntries entries = entries.flatMap fun e => e.2.floats := by
  induction entries with
  | nil => rfl
  | cons e rest ih => rw [floatsEntries, List.flatMap_cons, ih]

theorem mapFloatsItems_eq (g : Double → Double) (items : List Tree) :
    mapFloatsItems g items = items.map (mapFloats g) := by
  induction items with
  | nil => rfl
  | cons t rest ih => rw [mapFloatsItems, List.map_cons, ih]

theorem mapFloatsEntries_eq (g : Double → Double) (entries : Entries Tree) :
    mapFloatsEntries g entries = entries.map fun e => (e.1, e.2.mapFloats g) := by
  induction entries with
  | nil => rfl
  | cons e rest ih => rw [mapFloatsEntries, List.map_cons, ih]

theorem get?_mapFloatsEntries (g : Double → Double) (entries : Entries Tree) (key : String) :
    Entries.get? (mapFloatsEntries g entries) key =
      (Entries.get? entries key).map (mapFloats g) := by
  rw [mapFloatsEntries_eq, Entries.get?_map]

/-- The floats of an entry are floats of the mapping. -/
theorem mem_floats_of_get? {entries : Entries Tree} {key : String} {value : Tree}
    (h : Entries.get? entries key = some value) {x : Double} (hx : x ∈ value.floats) :
    x ∈ (map entries).floats := by
  rw [floats, floatsEntries_eq]
  exact List.mem_flatMap.2 ⟨_, Entries.mem_of_get? h, hx⟩

mutual

/-- Only floats that change make a difference. -/
theorem mapFloats_eq_self_iff (g : Double → Double) (t : Tree) :
    t.mapFloats g = t ↔ ∀ x ∈ t.floats, g x = x := by
  cases t with
  | float x => simp [mapFloats, floats]
  | seq items =>
    rw [mapFloats, floats, seq.injEq]
    exact mapFloatsItems_eq_self_iff g items
  | map entries =>
    rw [mapFloats, floats, map.injEq]
    exact mapFloatsEntries_eq_self_iff g entries
  | _ => simp [mapFloats, floats]

theorem mapFloatsItems_eq_self_iff (g : Double → Double) (items : List Tree) :
    mapFloatsItems g items = items ↔ ∀ x ∈ floatsItems items, g x = x := by
  cases items with
  | nil => simp [mapFloatsItems, floatsItems]
  | cons t rest =>
    rw [mapFloatsItems, floatsItems, List.cons.injEq, List.forall_mem_append,
      mapFloats_eq_self_iff, mapFloatsItems_eq_self_iff]

/-- A mapping is unchanged if all its floats are. -/
theorem mapFloatsEntries_eq_self_iff (g : Double → Double) (entries : Entries Tree) :
    mapFloatsEntries g entries = entries ↔ ∀ x ∈ floatsEntries entries, g x = x := by
  rcases entries with _ | ⟨⟨k, t⟩, rest⟩
  · simp [mapFloatsEntries, floatsEntries]
  · rw [mapFloatsEntries, floatsEntries, List.cons.injEq, List.forall_mem_append, Prod.mk.injEq,
      mapFloats_eq_self_iff, mapFloatsEntries_eq_self_iff]
    simp

end

/-- A scalar repeats no key. -/
theorem distinct_of_nesting {t : Tree} (h : t.nesting = 0) : t.Distinct := by
  cases t with
  | seq items => cases h
  | map entries => cases h
  | _ => trivial

theorem itemsNesting_le_iff {items : List Tree} {n : Nat} :
    itemsNesting items ≤ n ↔ ∀ t ∈ items, t.nesting ≤ n := by
  induction items with
  | nil => simp [itemsNesting]
  | cons t rest ih => rw [itemsNesting, Nat.max_le, List.forall_mem_cons, ih]

theorem entriesNesting_le_iff {entries : Entries Tree} {n : Nat} :
    entriesNesting entries ≤ n ↔ ∀ e ∈ entries, e.2.nesting ≤ n := by
  induction entries with
  | nil => simp [entriesNesting]
  | cons e rest ih => rw [entriesNesting, Nat.max_le, List.forall_mem_cons, ih]

theorem itemsDistinct_iff {items : List Tree} : ItemsDistinct items ↔ ∀ t ∈ items, t.Distinct := by
  induction items with
  | nil => simp [ItemsDistinct]
  | cons t rest ih => rw [ItemsDistinct, List.forall_mem_cons, ih]

theorem entriesDistinct_iff {entries : Entries Tree} :
    EntriesDistinct entries ↔ ∀ e ∈ entries, e.2.Distinct := by
  induction entries with
  | nil => simp [EntriesDistinct]
  | cons e rest ih => rw [EntriesDistinct, List.forall_mem_cons, ih]

/-! ## Trees as values -/

/-- Members are put into the mapping one after the other. -/
theorem ofWrittenMembers_eq (done : Entries Tree) (members : List (String × Json)) :
    ofWrittenMembers done members =
      Entries.merge done (members.map fun m => (m.1, ofWritten m.2)) := by
  induction members generalizing done with
  | nil => rfl
  | cons m rest ih =>
    rw [ofWrittenMembers, ih]
    rfl

/-- A finite double is written as a number and read as a float. -/
theorem ofWritten_ofDouble {x : Double} (h : x.isFinite = true) :
    ofWritten (Json.ofDouble x) = float x := by
  rw [Json.ofDouble, dif_pos h]
  rfl

end Tree

namespace Double

/-- What the JSON text of a double is read as. -/
def reread? (x : Double) : Option Double :=
  match Tree.ofJsonText? (Tree.float x).jsonText with
  | some (.float y) => some y
  | _ => none

/-- The double that a double comes back as, itself if it does not come back. -/
def returned (x : Double) : Double :=
  x.reread?.getD x

/-- A finite double is read again as its numeral is. -/
theorem reread?_eq {x : Double} (h : x.isFinite = true) : x.reread? = x.numeral.double? := by
  have hnesting : (Json.ofDouble x).nesting ≤ Json.nestingLimit := by
    rw [Json.ofDouble, dif_pos h]
    exact Nat.zero_le _
  rw [reread?, Tree.ofJsonText?, Tree.jsonText, Json.ofTree, Json.read?_compact hnesting,
    Json.ofDouble, dif_pos h, Json.reread?]
  cases hread : x.numeral.double? with
  | none => rfl
  | some y =>
    simp only [Option.map_some, Tree.ofWritten_ofDouble (Json.Numeral.isFinite_of_double? hread)]

/-- A brief double comes back as itself. -/
theorem reread?_of_brief {x : Double} (h : x.isFinite = true) (hbrief : x.numeral.Brief) :
    x.reread? = some x := by
  rw [reread?_eq h, double?_numeral_of_brief h hbrief]

/-- Of `2 ^ 53 - 1`, written with one more digit after the point, the last place is lost. -/
example : (ofNat (2 ^ 53 - 1)).reread? = some (ofNat (2 ^ 53 - 2)) := by
  rw [reread?_eq (by decide)]
  decide +kernel

end Double

namespace Json

open Espalier.Tree (ofWritten ofWrittenItems ofWrittenMembers ofWrittenMembers_eq ofJsonInteger
  floatsItems floatsEntries mapFloatsItems mapFloatsEntries mapFloatsEntries_eq ItemsDistinct
  EntriesDistinct ofWritten_ofDouble)
open Double (reread?_eq returned)

mutual

theorem nesting_ofTree (t : Tree) : (ofTree t).nesting = t.nesting := by
  cases t with
  | float x =>
    rw [ofTree, ofDouble]
    split <;> rfl
  | seq items => rw [ofTree, nesting, Tree.nesting, nesting_ofTreeItems]
  | map entries => rw [ofTree, nesting, Tree.nesting, nesting_ofTreeEntries]
  | _ => rfl

theorem nesting_ofTreeItems (items : List Tree) :
    itemsNesting (ofTreeItems items) = Tree.itemsNesting items := by
  cases items with
  | nil => rfl
  | cons t rest => rw [ofTreeItems, itemsNesting, Tree.itemsNesting, nesting_ofTree,
      nesting_ofTreeItems]

theorem nesting_ofTreeEntries (entries : Entries Tree) :
    membersNesting (ofTreeEntries entries) = Tree.entriesNesting entries := by
  rcases entries with _ | ⟨⟨k, t⟩, rest⟩
  · rfl
  · rw [ofTreeEntries, membersNesting, Tree.entriesNesting, nesting_ofTree, nesting_ofTreeEntries]

end

mutual

/-- The value of a tree is read again if every float is. -/
theorem isSome_reread?_ofTree (t : Tree) (hfinite : ∀ x ∈ t.floats, x.isFinite = true) :
    (ofTree t).reread?.isSome = true ↔ ∀ x ∈ t.floats, x.reread?.isSome = true := by
  cases t with
  | float x =>
    have hx := hfinite x (List.mem_singleton_self x)
    rw [ofTree, ofDouble, dif_pos hx, reread?, Option.isSome_map, Tree.floats,
      List.forall_mem_singleton, reread?_eq hx]
  | seq items =>
    rw [ofTree, reread?, Option.isSome_map, Tree.floats]
    exact isSome_rereadItems?_ofTree items hfinite
  | map entries =>
    rw [ofTree, reread?, Option.isSome_map, Tree.floats]
    exact isSome_rereadMembers?_ofTree entries hfinite
  | int n => simp [ofTree, ofInt64, reread?, Tree.floats]
  | _ => simp [ofTree, reread?, Tree.floats]

/-- The items of a sequence are read again if all of their floats are. -/
theorem isSome_rereadItems?_ofTree (items : List Tree)
    (hfinite : ∀ x ∈ floatsItems items, x.isFinite = true) :
    (rereadItems? (ofTreeItems items)).isSome = true ↔
      ∀ x ∈ floatsItems items, x.reread?.isSome = true := by
  cases items with
  | nil => simp [ofTreeItems, rereadItems?, floatsItems]
  | cons t rest =>
    rw [floatsItems, List.forall_mem_append] at hfinite ⊢
    rw [← isSome_reread?_ofTree t hfinite.1, ← isSome_rereadItems?_ofTree rest hfinite.2,
      ofTreeItems, rereadItems?]
    cases (ofTree t).reread? <;> simp

/-- The entries of a mapping are read again if all of their floats are. -/
theorem isSome_rereadMembers?_ofTree (entries : Entries Tree)
    (hfinite : ∀ x ∈ floatsEntries entries, x.isFinite = true) :
    (rereadMembers? (ofTreeEntries entries)).isSome = true ↔
      ∀ x ∈ floatsEntries entries, x.reread?.isSome = true := by
  rcases entries with _ | ⟨⟨k, t⟩, rest⟩
  · simp [ofTreeEntries, rereadMembers?, floatsEntries]
  · rw [floatsEntries, List.forall_mem_append] at hfinite ⊢
    rw [← isSome_reread?_ofTree t hfinite.1, ← isSome_rereadMembers?_ofTree rest hfinite.2,
      ofTreeEntries, rereadMembers?]
    cases (ofTree t).reread? <;> simp

end

mutual

/-- What the value of a tree is read again as. -/
theorem ofWritten_of_reread? (t : Tree) (hdistinct : t.Distinct)
    (hfinite : ∀ x ∈ t.floats, x.isFinite = true) {j : Json} (h : (ofTree t).reread? = some j) :
    ofWritten j = t.mapFloats returned := by
  cases t with
  | float x =>
    have hx := hfinite x (List.mem_singleton_self x)
    rw [ofTree, ofDouble, dif_pos hx, reread?, Option.map_eq_some_iff] at h
    rcases h with ⟨y, hy, rfl⟩
    have hreturned : returned x = y := by rw [returned, reread?_eq hx, hy, Option.getD_some]
    rw [ofWritten_ofDouble (Json.Numeral.isFinite_of_double? hy), Tree.mapFloats, hreturned]
  | seq items =>
    rw [ofTree, reread?, Option.map_eq_some_iff] at h
    rcases h with ⟨js, hjs, rfl⟩
    rw [ofWritten, ofWrittenItems_of_reread? items hdistinct hfinite hjs, Tree.mapFloats]
  | map entries =>
    rw [ofTree, reread?, Option.map_eq_some_iff] at h
    rcases h with ⟨ms, hms, rfl⟩
    have hmembers := ofWrittenMembers_of_reread? entries hdistinct.2 hfinite hms
    -- The reader merges members of one name; none is, so they stay as they were written.
    have hnodup : ((mapFloatsEntries returned entries).map Prod.fst).Nodup := by
      rw [mapFloatsEntries_eq, List.map_map]
      exact hdistinct.1
    rw [ofWritten, ofWrittenMembers_eq, hmembers, Tree.mapFloats]
    exact congrArg Tree.map (Entries.ofPairs_eq_self hnodup)
  | int n =>
    cases h
    have hint : ofJsonInteger ⟨n.toInt, Int64.minValue_le_toInt n,
        Int.lt_of_le_of_lt (Int64.toInt_le n) (by decide)⟩ = .int n := by
      rw [ofJsonInteger, int64?_toInt]
    exact hint
  | null => cases h; rfl
  | bool b => cases h; rfl
  | text s => cases h; rfl

/-- The items that are read again are the same but for floats that come back as others. -/
theorem ofWrittenItems_of_reread? (items : List Tree) (hdistinct : ItemsDistinct items)
    (hfinite : ∀ x ∈ floatsItems items, x.isFinite = true) {js : List Json}
    (h : rereadItems? (ofTreeItems items) = some js) :
    ofWrittenItems js = mapFloatsItems returned items := by
  cases items with
  | nil =>
    cases h
    rfl
  | cons t rest =>
    rw [floatsItems, List.forall_mem_append] at hfinite
    rw [ofTreeItems, rereadItems?, Option.bind_eq_some_iff] at h
    rcases h with ⟨j, hj, h⟩
    rcases Option.map_eq_some_iff.1 h with ⟨js, hjs, rfl⟩
    rw [ofWrittenItems, ofWritten_of_reread? t hdistinct.1 hfinite.1 hj,
      ofWrittenItems_of_reread? rest hdistinct.2 hfinite.2 hjs, mapFloatsItems]

/-- The entries that are read again are the same but for floats that come back as others. -/
theorem ofWrittenMembers_of_reread? (entries : Entries Tree) (hdistinct : EntriesDistinct entries)
    (hfinite : ∀ x ∈ floatsEntries entries, x.isFinite = true) {ms : List (String × Json)}
    (h : rereadMembers? (ofTreeEntries entries) = some ms) :
    (ms.map fun m => (m.1, ofWritten m.2)) = mapFloatsEntries returned entries := by
  rcases entries with _ | ⟨⟨k, t⟩, rest⟩
  · cases h
    rfl
  · rw [floatsEntries, List.forall_mem_append] at hfinite
    rw [ofTreeEntries, rereadMembers?, Option.bind_eq_some_iff] at h
    rcases h with ⟨j, hj, h⟩
    rcases Option.map_eq_some_iff.1 h with ⟨ms, hms, rfl⟩
    rw [List.map_cons, ofWritten_of_reread? t hdistinct.1 hfinite.1 hj,
      ofWrittenMembers_of_reread? rest hdistinct.2 hfinite.2 hms, mapFloatsEntries]

end

end Json

namespace Tree

variable {t : Tree}

/-- The text of a tree is read exactly if the text of every float is. -/
theorem isSome_ofJsonText? (hnesting : t.nesting ≤ Json.nestingLimit)
    (hfinite : ∀ x ∈ t.floats, x.isFinite = true) :
    (ofJsonText? t.jsonText).isSome = true ↔ ∀ x ∈ t.floats, x.reread?.isSome = true := by
  rw [ofJsonText?, jsonText, Json.read?_compact (by rwa [Json.nesting_ofTree]), Option.isSome_map]
  exact Json.isSome_reread?_ofTree t hfinite

/-- The text of a tree is read as the tree with every float as its own text is read. -/
theorem eq_of_ofJsonText? (hnesting : t.nesting ≤ Json.nestingLimit) (hdistinct : t.Distinct)
    (hfinite : ∀ x ∈ t.floats, x.isFinite = true) {t' : Tree}
    (h : ofJsonText? t.jsonText = some t') : t' = t.mapFloats Double.returned := by
  rw [ofJsonText?, jsonText, Json.read?_compact (by rwa [Json.nesting_ofTree]),
    Option.map_eq_some_iff] at h
  rcases h with ⟨j, hj, rfl⟩
  exact Json.ofWritten_of_reread? t hdistinct hfinite hj

end Tree
end Espalier
