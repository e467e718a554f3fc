import Espalier.Proofs.Json.Trees
import Espalier.Proofs.Store.Keys
import Espalier.Proofs.Store.Writing

/-!
# What of a document matters

An insertion reads a document by the names of its schema.  Entries under other names are dropped,
null is the same as no entry, a single mapping is the same as a sequence of it, and the order of
keys is nothing.  `Schema.pruned` takes away what is dropped and `Tree.Alike` disregards the order:
documents that are alike once they are pruned cannot be told apart by what inserting them answers
and leaves.
-/

namespace Espalier

open Database (Action)

/-! ## Pruned documents -/

/-- The entries under some names that are not null. -/
def Entries.pruned (names : List String) (es : Entries Tree) : Entries Tree :=
  es.filter fun e => e.1 ∈ names ∧ e.2.isNull = false

/-- An element of an object table without what the table does not take. -/
def Table.prunedElement (t : Table) : Tree → Tree
  | .map es => .map (Entries.pruned (t.fields.map Field.name) es)
  | other => other

/-- What a document has under the name of a secondary table: the elements of an object table pruned,
a single one of them as a sequence. -/
def Table.prunedBranch (t : Table) (value : Tree) : Tree :=
  if t.isList then value
  else
    match value with
    | .seq items => .seq (items.map t.prunedElement)
    | .map es => .seq [t.prunedElement (.map es)]
    | other => other

namespace Schema

/-- What a document has under a name, pruned if that is the name of a secondary table. -/
def prunedValue (s : Schema) (name : String) (value : Tree) : Tree :=
  match Entries.get? s.secondaryTables name with
  | some t => t.prunedBranch value
  | none => value

/-- The entries of a document without what its schema does not take. -/
def pruned (s : Schema) (es : Entries Tree) : Entries Tree :=
  (Entries.pruned (s.mainFields.map Field.name ++ s.branchNames) es).map
    fun e => (e.1, s.prunedValue e.1 e.2)

end Schema

/-- Trees that differ at most in the order of the keys of their mappings. -/
inductive Tree.Alike : Tree → Tree → Prop where
  | refl (t : Tree) : Alike t t
  | seq {xs ys : List Tree} : List.Forall₂ Alike xs ys → Alike (.seq xs) (.seq ys)
  | map {es es' fs : List (String × Tree)} : es.Perm es' → Entries.keys es' = Entries.keys fs →
      List.Forall₂ Alike (es'.map Prod.snd) (fs.map Prod.snd) → Alike (.map es) (.map fs)

/-! ## Look-up -/

namespace Entries

/-- Where no key is repeated the order of the entries does not matter to look-up. -/
theorem get?_of_perm {α : Type} {es fs : Entries α} (h : es.Perm fs) (hn : (keys es).Nodup)
    (key : String) : get? es key = get? fs key := by
  have hn' : (keys fs).Nodup := (h.map Prod.fst).nodup_iff.1 hn
  cases hfs : get? fs key with
  | some value => exact get?_of_mem hn (h.mem_iff.2 (mem_of_get? hfs))
  | none =>
    rw [get?_eq_none] at hfs ⊢
    exact fun hkey => hfs ((h.map Prod.fst).mem_iff.1 hkey)

/-- A name that is kept has what it had before, but for null. -/
theorem get?_pruned {names : List String} {es : Entries Tree} (hn : (keys es).Nodup) {key : String}
    (hkey : key ∈ names) :
    get? (pruned names es) key = (get? es key).filter fun value => value.isNull = false := by
  have hpruned : (keys (pruned names es)).Nodup := hn.sublist (List.filter_sublist.map Prod.fst)
  cases hes : get? es key with
  | none =>
    rw [get?_eq_none] at hes
    have hkeys : key ∉ keys (pruned names es) :=
      fun h => hes ((List.filter_sublist.map Prod.fst).subset h)
    rw [get?_eq_none.2 hkeys]
    rfl
  | some value =>
    -- No key is repeated, so a null that is dropped does not uncover another entry.
    have hmem := mem_of_get? hes
    by_cases hnull : value.isNull = false
    · have hkept : (key, value) ∈ pruned names es :=
        List.mem_filter.2 ⟨hmem, by simpa using ⟨hkey, hnull⟩⟩
      rw [get?_of_mem hpruned hkept, Option.filter_some_pos (by simpa using hnull)]
    · rw [Option.filter_some_neg (by simpa using hnull), get?_eq_none]
      intro hkeys
      rcases List.mem_map.1 hkeys with ⟨⟨k, v⟩, he, rfl⟩
      rcases List.mem_filter.1 he with ⟨he, hkept⟩
      have hvalue : v = value := Option.some.inj ((get?_of_mem hn he).symm.trans hes)
      simp [hvalue, hnull] at hkept

/-- What a name has, null if it has nothing, survives the pruning. -/
theorem getD_get?_pruned {names : List String} {es : Entries Tree} (hn : (keys es).Nodup)
    {key : String} (hkey : key ∈ names) :
    (get? (pruned names es) key).getD .null = (get? es key).getD .null := by
  rw [get?_pruned hn hkey]
  cases get? es key with
  | none => rfl
  | some value => cases value <;> rfl

/-- Values changed under their own keys. -/
theorem get?_mapWithKey {α β : Type} (f : String → α → β) (es : Entries α) (key : String) :
    get? (es.map fun e => (e.1, f e.1 e.2)) key = (get? es key).map (f key) := by
  induction es with
  | nil => rfl
  | cons e rest ih =>
    rw [List.map_cons, get?, get?, ih]
    split
    · rename_i hkey
      rw [hkey]
      rfl
    · rfl

end Entries

namespace Tree

/-- Entries alike have values alike under every key. -/
theorem alike_getD_get? {es fs : Entries Tree} (hkeys : Entries.keys es = Entries.keys fs)
    (h : List.Forall₂ Alike (es.map Prod.snd) (fs.map Prod.snd)) (key : String) :
    Alike ((Entries.get? es key).getD .null) ((Entries.get? fs key).getD .null) := by
  -- Both lists are gone through together; the key stands at the same place in both.
  induction es generalizing fs with
  | nil =>
    obtain rfl : fs = [] := List.map_eq_nil_iff.1 hkeys.symm
    exact .refl _
  | cons e es ih =>
    cases fs with
    | nil => cases hkeys
    | cons f fs =>
      rcases List.cons.inj hkeys with ⟨hfirst, hrest⟩
      rcases List.forall₂_cons.1 h with ⟨hvalue, hvalues⟩
      rw [Entries.get?, Entries.get?, ← show e.1 = f.1 from hfirst]
      split
      · exact hvalue
      · exact ih hrest hvalues

/-- Alike mappings have under each key what is alike. -/
theorem Alike.getD_get? {es fs : Entries Tree} (h : Alike (.map es) (.map fs))
    (hn : (Entries.keys es).Nodup) (key : String) :
    Alike ((Entries.get? es key).getD .null) ((Entries.get? fs key).getD .null) := by
  cases h with
  | refl => exact .refl _
  | @map _ es' _ hperm hkeys hvalues =>
    rw [Entries.get?_of_perm hperm hn]
    exact alike_getD_get? hkeys hvalues key

/-! ## Distinct keys -/

/-- A distinct mapping has no key twice. -/
theorem Distinct.nodup_keys {es : Entries Tree} (h : (map es).Distinct) : (Entries.keys es).Nodup :=
  h.1

theorem distinct_seq {items : List Tree} : (seq items).Distinct ↔ ∀ x ∈ items, x.Distinct := by
  rw [Distinct, itemsDistinct_iff]

theorem distinct_map {es : Entries Tree} :
    (map es).Distinct ↔ (Entries.keys es).Nodup ∧ ∀ e ∈ es, e.2.Distinct := by
  rw [Distinct, entriesDistinct_iff]

/-- What stands in a distinct mapping is distinct. -/
theorem Distinct.getD_get? {es : Entries Tree} (h : (map es).Distinct) (key : String) :
    ((Entries.get? es key).getD .null).Distinct := by
  cases hvalue : Entries.get? es key with
  | none => trivial
  | some value => exact (distinct_map.1 h).2 _ (Entries.mem_of_get? hvalue)

/-- Taking entries away repeats no key. -/
theorem Distinct.pruned {es : Entries Tree} (h : (map es).Distinct) (names : List String) :
    (map (Entries.pruned names es)).Distinct := by
  rw [distinct_map] at h ⊢
  exact ⟨h.1.sublist (List.filter_sublist.map Prod.fst),
    fun e he => h.2 e (List.mem_of_mem_filter he)⟩

end Tree

/-- Pruning an element keeps its keys distinct. -/
theorem Table.distinct_prunedElement (t : Table) {x : Tree} (h : x.Distinct) :
    (t.prunedElement x).Distinct := by
  cases x with
  | map es => exact h.pruned _
  | _ => exact h

/-- Pruning a branch keeps its keys distinct. -/
theorem Table.distinct_prunedBranch (t : Table) {value : Tree} (h : value.Distinct) :
    (t.prunedBranch value).Distinct := by
  unfold Table.prunedBranch
  split
  · exact h
  · cases value with
    | seq items =>
      rw [Tree.distinct_seq] at h ⊢
      intro x hx
      rcases List.mem_map.1 hx with ⟨item, hitem, rfl⟩
      exact t.distinct_prunedElement (h item hitem)
    | map es =>
      rw [Tree.distinct_seq, List.forall_mem_singleton]
      exact t.distinct_prunedElement h
    | _ => exact h

/-- Pruning a document keeps its keys distinct. -/
theorem Schema.distinct_pruned (s : Schema) {es : Entries Tree} (h : (Tree.map es).Distinct) :
    (Tree.map (s.pruned es)).Distinct := by
  have hkept := Tree.distinct_map.1 (h.pruned (s.mainFields.map Field.name ++ s.branchNames))
  rw [Tree.distinct_map, Schema.pruned, Entries.keys, List.map_map]
  refine ⟨hkept.1, fun e he => ?_⟩
  rcases List.mem_map.1 he with ⟨kept, hmem, rfl⟩
  dsimp only
  rw [Schema.prunedValue]
  split
  · exact Table.distinct_prunedBranch _ (hkept.2 kept hmem)
  · exact hkept.2 kept hmem

namespace Store

/-! ## Rows of documents -/

/-- A scalar is all that a column looks at, and of anything else its kind. -/
theorem Codec.encode_alike {c : Codec} {name : String} {x y : Tree} (h : x.Alike y) :
    c.encode name x = c.encode name y := by
  cases h with
  | refl => rfl
  | seq => cases c <;> rfl
  | map => cases c <;> rfl

/-- A row goes by what is under the names of its columns. -/
theorem TablePlan.encodeEntries_alike {p : TablePlan} {es fs : Entries Tree}
    (h : ∀ c ∈ p.columns, Tree.Alike ((Entries.get? es c.name).getD .null)
      ((Entries.get? fs c.name).getD .null)) : p.encodeEntries es = p.encodeEntries fs :=
  Outcome.mapM_congr fun c hc => Codec.encode_alike (h c hc)

/-- A row does not see what is pruned away. -/
theorem TablePlan.encodeEntries_pruned {p : TablePlan} {names : List String}
    (hnames : ∀ c ∈ p.columns, c.name ∈ names) {es : Entries Tree} (hn : (Entries.keys es).Nodup) :
    p.encodeEntries (Entries.pruned names es) = p.encodeEntries es :=
  Outcome.mapM_congr fun c hc => by rw [Entries.getD_get?_pruned hn (hnames c hc)]

namespace Branch

/-- A branch encodes elements alike alike. -/
theorem encode_alike {b : Branch} {x y : Tree} (h : x.Alike y) (hx : x.Distinct) :
    b.encode x = b.encode y := by
  unfold encode
  cases b.kind with
  | list => exact Outcome.mapM_congr fun c _ => Codec.encode_alike h
  | object =>
    cases h with
    | refl => rfl
    | seq => rfl
    | map hperm hkeys hvalues =>
      exact TablePlan.encodeEntries_alike fun c _ =>
        (Tree.Alike.map hperm hkeys hvalues).getD_get? hx.nodup_keys c.name

/-- No entry is as good as null. -/
theorem writings_getD (b : Branch) (value : Option Tree) :
    b.writings value = b.writings (some (value.getD .null)) := by
  cases value with
  | none =>
    unfold writings elements
    cases b.kind <;> rfl
  | some v => rfl

/-- A branch writes the same of values alike. -/
theorem writings_alike {b : Branch} {x y : Tree} (h : x.Alike y) (hx : x.Distinct) :
    b.writings (some x) = b.writings (some y) := by
  cases h with
  | refl => rfl
  | @seq xs ys hitems =>
    have helements : ∀ items, b.elements (some (.seq items)) = .ok items := by
      intro items
      unfold elements
      cases b.kind <;> rfl
    unfold writings
    rw [helements, helements]
    dsimp only
    rw [Tree.distinct_seq] at hx
    -- Element by element, an element that is refused being refused with the same words.
    induction hitems with
    | nil => rfl
    | cons hitem _ ih =>
      rw [List.forall_mem_cons] at hx
      rw [List.map_cons, List.map_cons, ih hx.2, encode_alike hitem hx.1]
  | @map es es' fs hperm hkeys hvalues =>
    -- A single mapping is one element of an object table, and a list refuses it.
    have hencode := encode_alike (b := b) (.map hperm hkeys hvalues) hx
    unfold writings elements
    cases hkind : b.kind with
    | list => rfl
    | object =>
      dsimp only
      rw [List.map_singleton, List.map_singleton, hencode]

end Branch

section Secondary

variable {s : Schema} {u : String × Table}

/-- A pruned element is encoded like the whole one. -/
theorem encode_prunedElement (hlist : u.2.isList = false) {x : Tree} (hx : x.Distinct) :
    (s.branch u).encode (u.2.prunedElement x) = (s.branch u).encode x := by
  have hkind : (s.branch u).kind = .object := if_neg (by simp [hlist])
  have hcolumns : (s.branch u).table.columns = u.2.fields.map Field.dataColumn := by
    have hdata : u.2.dataFields = u.2.fields := if_neg (by simp [hlist])
    rw [← hdata]
    rfl
  unfold Branch.encode
  rw [hkind]
  cases x with
  | map es =>
    refine TablePlan.encodeEntries_pruned (fun c hc => ?_) hx.nodup_keys
    rw [hcolumns] at hc
    rcases List.mem_map.1 hc with ⟨f, hf, rfl⟩
    exact List.mem_map_of_mem hf
  | _ => rfl

/-- The rows of a branch do not see what is pruned away. -/
theorem writings_prunedBranch {value : Tree} (h : value.Distinct) :
    (s.branch u).writings (some (u.2.prunedBranch value)) =
      (s.branch u).writings (some value) := by
  unfold Table.prunedBranch
  split
  · rfl
  · rename_i hlist
    have hlist : u.2.isList = false := by simpa using hlist
    have hkind : (s.branch u).kind = .object := if_neg (by simp [hlist])
    cases value with
    | seq items =>
      unfold Branch.writings Branch.elements
      rw [hkind]
      dsimp only
      rw [List.map_map]
      refine List.map_congr_left fun x hx => ?_
      exact congrArg _ (encode_prunedElement hlist (Tree.distinct_seq.1 h x hx))
    | map es =>
      have hencode := encode_prunedElement (s := s) hlist h
      unfold Branch.writings Branch.elements
      rw [hkind]
      dsimp only
      rw [List.map_singleton, List.map_singleton, hencode]
    | _ => rfl

end Secondary

section Documents

variable {s : Store} {es fs : Entries Tree}

/-- An insertion goes by the row of the main table and the rows of the branches. -/
theorem insert_congr
    (hmain : s.schema.mainPlan.encodeEntries es = s.schema.mainPlan.encodeEntries fs)
    (hbranches : ∀ u ∈ s.schema.secondaryTables, (s.schema.branch u).writings
      (Entries.get? es u.1) = (s.schema.branch u).writings (Entries.get? fs u.1)) :
    s.insert (.map es) = s.insert (.map fs) := by
  have hrows : s.plan.branches.flatMap
        (fun b => b.writings (Entries.get? es b.table.name)) =
      s.plan.branches.flatMap fun b => b.writings (Entries.get? fs b.table.name) := by
    rw [s.plan_eq]
    refine List.flatMap_congr fun b hb => ?_
    rcases List.mem_map.1 hb with ⟨u, hu, rfl⟩
    exact hbranches u hu
  have htree : s.plan.insertTree es = s.plan.insertTree fs := by
    rw [Plan.insertTree_eq s.regular_plan, Plan.insertTree_eq s.regular_plan, hrows, s.plan_eq]
    have hplan : s.schema.plan.main = s.schema.mainPlan := rfl
    rw [hplan, hmain]
  exact congrArg Action.transaction htree

/-- An insertion does not see what is pruned away. -/
theorem insert_pruned (h : (Tree.map es).Distinct) :
    s.insert (.map (s.schema.pruned es)) = s.insert (.map es) := by
  have hnodup := h.nodup_keys
  refine insert_congr (Outcome.mapM_congr fun c hc => ?_) fun u hu => ?_
  · rcases List.mem_map.1 hc with ⟨f, hf, rfl⟩
    have hname : f.name ∈ s.schema.mainFields.map Field.name := List.mem_map_of_mem hf
    -- No secondary table has the name of a main field.
    have hnone : Entries.get? s.schema.secondaryTables f.name = none :=
      Entries.get?_eq_none.2 fun hmem => Schema.branchNames_disjoint s.schema_sound hmem hname
    have hsame : s.schema.prunedValue f.name = id := by
      funext value
      rw [Schema.prunedValue, hnone]
      rfl
    have hvalue : (Entries.get? (s.schema.pruned es) f.name).getD .null =
        (Entries.get? es f.name).getD .null := by
      rw [Schema.pruned, Entries.get?_mapWithKey, hsame, Option.map_id,
        id, Entries.getD_get?_pruned hnodup (List.mem_append_left _ hname)]
    exact congrArg (f.codec.encode f.name) hvalue
  · have hname : u.1 ∈ s.schema.branchNames := List.mem_map_of_mem hu
    have htable : Entries.get? s.schema.secondaryTables u.1 = some u.2 :=
      Entries.get?_of_mem s.schema.nodup_branchNames hu
    have hbranch : s.schema.prunedValue u.1 = u.2.prunedBranch := by
      funext value
      rw [Schema.prunedValue, htable]
    have hnull : u.2.prunedBranch .null = .null := by
      unfold Table.prunedBranch
      split <;> rfl
    have hvalue : (Entries.get? (s.schema.pruned es) u.1).getD .null =
        u.2.prunedBranch ((Entries.get? es u.1).getD .null) := by
      rw [Schema.pruned, Entries.get?_mapWithKey, hbranch,
        ← Entries.getD_get?_pruned hnodup (List.mem_append_right _ hname)]
      cases Entries.get? (Entries.pruned _ es) u.1 with
      | none => exact hnull.symm
      | some value => rfl
    rw [Branch.writings_getD, hvalue, writings_prunedBranch (h.getD_get? u.1),
      ← Branch.writings_getD]

/-- An insertion does not see the order of keys. -/
theorem insert_alike (h : (Tree.map es).Alike (.map fs)) (hdistinct : (Tree.map es).Distinct) :
    s.insert (.map es) = s.insert (.map fs) := by
  have hget := h.getD_get? hdistinct.nodup_keys
  refine insert_congr (TablePlan.encodeEntries_alike fun c _ => hget c.name) fun u _ => ?_
  rw [Branch.writings_getD, Branch.writings_getD _ (Entries.get? fs u.1)]
  exact Branch.writings_alike (hget u.1) (hdistinct.getD_get? u.1)

end Documents

/--
Mappings that are alike once they are pruned cannot be told apart by inserting them: whatever the
database is, both insertions have the same result, be it an id or an error, and leave the same
database.
-/
theorem insert_of_alike_pruned (s : Store) {es fs : Entries Tree} (hes : (Tree.map es).Distinct)
    (hfs : (Tree.map fs).Distinct)
    (h : (Tree.map (s.schema.pruned es)).Alike (.map (s.schema.pruned fs))) (db : Database) :
    (s.insert (.map es)).result db = (s.insert (.map fs)).result db ∧
      (s.insert (.map es)).after db = (s.insert (.map fs)).after db := by
  have hinsert : s.insert (.map es) = s.insert (.map fs) := by
    calc
      s.insert (.map es) = s.insert (.map (s.schema.pruned es)) := (insert_pruned hes).symm
      _ = s.insert (.map (s.schema.pruned fs)) := insert_alike h (s.schema.distinct_pruned hes)
      _ = s.insert (.map fs) := insert_pruned hfs
  rw [hinsert]
  exact ⟨rfl, rfl⟩

/-- A fern with much that no plant has, and a leaf that stands by itself. -/
def wildFern : Entries Tree :=
  [("Name", .text "moss"), ("id", .int 7), ("name", .text "fern"), ("tags", .null),
    ("leaves", .map [("count", .null), ("parent_id", .seq []), ("shape", .text "oval")])]

/-- The same fern with nothing but what a plant has. -/
def tameFern : Entries Tree :=
  [("leaves", .seq [.map [("shape", .text "oval")]]), ("name", .text "fern")]

/-- Both ferns get the same id in an empty garden. -/
theorem insert_of_alike_pruned_fern : (Tree.map wildFern).Distinct ∧ (Tree.map tameFern).Distinct ∧
    (Tree.map (Schema.plants.pruned wildFern)).Alike (.map (Schema.plants.pruned tameFern)) ∧
    (plants.insert (.map wildFern)).result (plants.provision.after {}) = .ok 1 ∧
    (plants.insert (.map tameFern)).result (plants.provision.after {}) = .ok 1 := by
  have hwild : (Tree.map wildFern).Distinct := by
    simp [wildFern, Tree.Distinct, Tree.ItemsDistinct, Tree.EntriesDistinct, Entries.keys]
  have htame : (Tree.map tameFern).Distinct := by
    simp [tameFern, Tree.Distinct, Tree.ItemsDistinct, Tree.EntriesDistinct, Entries.keys]
  have halike : (Tree.map (Schema.plants.pruned wildFern)).Alike
      (.map (Schema.plants.pruned tameFern)) :=
    .map (List.Perm.swap _ _ _) rfl (.cons (.refl _) (.cons (.refl _) .nil))
  have hinsert : (plants.insert (.map wildFern)).result (plants.provision.after {}) = .ok 1 := by
    decide +kernel
  refine ⟨hwild, htame, halike, hinsert, ?_⟩
  rw [← (insert_of_alike_pruned plants hwild htame halike (plants.provision.after {})).1, hinsert]

end Store
end Espalier
