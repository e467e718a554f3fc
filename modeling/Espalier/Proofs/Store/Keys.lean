import Espalier.Proofs.Database.Settling
import Espalier.Proofs.Store.Growing
import Espalier.Proofs.Store.Provisioning
import Mathlib.Data.List.Nodup

/-!
# The keys of a grown document

A grown document is its main row with the branches written over it by name.  Validation keeps the
names of secondary tables apart from those of main fields, and fields apart from the synthetic
columns, but it lets a secondary table be called `id`.  The sequence of that branch then takes the
place of the id.  `keys_get` says that nothing else is ever lost.
-/

namespace Espalier

open Database (Action Cell)

namespace Database

/-! ## Rows found by their id -/

/-- A selected row that shows an integer as its id shows the one that was asked for. -/
theorem Table.eq_of_holds_id {t : Table} (ht : t.Settled) {r : Row} (hr : r ∈ t.rows) {m n : Int64}
    (hvalue : (t.operand idColumn).value r = .int m)
    (h : t.holds idColumn (.int n) r = true) : m = n := by
  have hequals : (Cell.int m).equals (t.bend (t.operand idColumn) (.int n)) = true := hvalue ▸ h
  cases hop : t.operand idColumn with
  | column i =>
    rw [hop] at hvalue hequals
    have hcell : r.cell i = .int m := hvalue
    rw [Table.bend] at hequals
    cases ha : t.affinity i with
    | unchanged =>
      rw [ha] at hequals
      exact Cell.equals_int.1 hequals
    | text =>
      -- An integer equals no text.
      have hne : (Cell.int m).equals (Affinity.text.apply (.int n)) = false := rfl
      rw [ha, hne] at hequals
      cases hequals
    | numeric =>
      rw [ha] at hequals
      exact Cell.equals_int.1 hequals
    | real => exact absurd hcell (ht r hr i ha m)
  | number =>
    -- The name `id` is no name of the row number.
    unfold Table.operand at hop
    cases hc : t.column? idColumn with
    | some i =>
      rw [hc] at hop
      cases hop
    | none =>
      rw [hc] at hop
      have hname : Table.isNumberName idColumn = false := by decide
      simp [hname] at hop
  | literal s =>
    rw [hop] at hvalue
    cases hvalue

end Database

/-! ## Names of entries -/

/-- The fields of a sound table have distinct names. -/
theorem Table.Sound.nodup_names {name : String} {t : Table} (h : Table.Sound name t) :
    (t.dataFields.map Field.name).Nodup := by
  have hfold : (t.dataFields.map fun f => Ascii.fold f.name) =
      (t.dataFields.map Field.name).map Ascii.fold := by
    rw [List.map_map]
    rfl
  exact List.Nodup.of_map Ascii.fold (hfold ▸ h.distinct)

namespace Schema

def branchNames (s : Schema) : List String :=
  s.secondaryTables.map Prod.fst

theorem nodup_branchNames (s : Schema) : s.branchNames.Nodup :=
  s.distinct.sublist (List.filter_sublist.map Prod.fst)

/-- A sound schema has a main table, which is a sound one of mappings. -/
theorem mainSound {s : Schema} (h : s.Sound) : ∃ m, s.main? = some m ∧ m.isList = false ∧
    Table.Sound s.mainTable m := by
  rcases h.main with ⟨m, hm, hlist, -⟩
  exact ⟨m, hm, hlist, h.tables _ (mem_of_table? hm)⟩

/-- The id and the main fields have distinct names. -/
theorem nodup_mainNames {s : Schema} (h : s.Sound) :
    (idColumn :: s.mainFields.map Field.name).Nodup := by
  rcases mainSound h with ⟨m, hm, -, hsound⟩
  rw [mainFields_eq hm, List.nodup_cons]
  constructor
  · intro hmem
    rcases List.mem_map.1 hmem with ⟨f, hf, hname⟩
    exact (isSynthetic_eq_false.1 (hsound.fields f hf).2).1 (congrArg Ascii.fold hname)
  · exact hsound.nodup_names

/-- No branch has the name of a main field. -/
theorem branchNames_disjoint {s : Schema} (h : s.Sound) {name : String}
    (hname : name ∈ s.branchNames) : name ∉ s.mainFields.map Field.name := by
  rcases h.main with ⟨m, hm, hlist, hcollide⟩
  have hfields : s.mainFields = m.fields := by
    rw [mainFields_eq hm, Table.dataFields, if_neg (by simp [hlist])]
  rcases List.mem_map.1 hname with ⟨u, hu, rfl⟩
  intro hmem
  rcases List.mem_map.1 hmem with ⟨f, hf, hfu⟩
  exact hcollide f (hfields ▸ hf) u hu (congrArg Ascii.fold hfu)

/-- Of the names of the branches only `id` can be taken. -/
theorem filter_branchNames {s : Schema} (h : s.Sound) :
    s.branchNames.filter (fun n => n ∉ idColumn :: s.mainFields.map Field.name) =
      s.branchNames.filter fun n => n ≠ idColumn := by
  refine List.filter_congr fun n hn => ?_
  have hfield := branchNames_disjoint h hn
  simp [hfield]

end Schema

namespace Store

/-! ## The parts of a grown document -/

/-- What a grown document is made of, named. -/
theorem get_eq_ok {s : Store} {id : Int64} {db : Database} {entries : Entries Tree} :
    (s.get id).result db = .ok entries ↔
      ∃ row rest trunk grown, db.select s.schema.mainPlan.select [.int id] = .ok (row :: rest) ∧
        s.schema.mainPlan.decodeMain row = .ok trunk ∧
        List.Forall₂ (fun u items => ((s.schema.branch u).grow id).result db = .ok items)
          s.schema.secondaryTables grown ∧
        entries = Entries.merge trunk
          (s.schema.branchNames.zip (grown.map Tree.seq)) := by
  have hpairs : ∀ grown : List (List Tree),
      ((s.schema.secondaryTables.map s.schema.branch).zip grown).map
        (fun x => (x.1.table.name, Tree.seq x.2)) =
      s.schema.branchNames.zip (grown.map Tree.seq) := by
    intro grown
    rw [List.zip_map_left, List.map_map, Schema.branchNames, List.zip_map]
    rfl
  rw [get, plan_eq, Plan.growTree_eq_ok]
  simp only [Schema.plan, hpairs, List.forall₂_map_left_iff]

/-- Branches are put under their names. -/
theorem map_fst_grown {s : Store} {id : Int64} {db : Database} {grown : List (List Tree)}
    (h : List.Forall₂ (fun u items => ((s.schema.branch u).grow id).result db = .ok items)
      s.schema.secondaryTables grown) :
    (s.schema.branchNames.zip (grown.map Tree.seq)).map Prod.fst = s.schema.branchNames := by
  have hlength : s.schema.branchNames.length = grown.length := by
    rw [Schema.branchNames, List.length_map, h.length_eq]
  exact List.map_fst_zip (by simp [hlength])

/-- The values of a main row are decoded into the id and the main fields. -/
theorem decodeMain_cons {s : Schema} (h : s.Sound) {n : Int64} {cells : List Cell}
    (hlength : cells.length = s.mainFields.length) {trunk : Entries Tree}
    (htrunk : s.mainPlan.decodeMain (.int n :: cells) = .ok trunk) :
    Entries.keys trunk = idColumn :: s.mainFields.map Field.name ∧
      Entries.get? trunk idColumn = some (.int n) := by
  rcases TablePlan.decodeMain_eq_ok htrunk with ⟨n', cells', entries, hrow, hentries, rfl⟩
  obtain ⟨rfl, rfl⟩ : n = n' ∧ cells = cells' := by simpa using hrow
  have hkeys : Entries.keys entries = s.mainFields.map Field.name := by
    have hcolumns : s.mainPlan.columns.map DataColumn.name = s.mainFields.map Field.name :=
      List.map_map
    rw [TablePlan.keys_decodeEntries hentries (by simpa [Schema.mainPlan] using hlength), hcolumns]
  have hmerge : Entries.merge [(idColumn, Tree.int n)] entries = (idColumn, .int n) :: entries := by
    refine Entries.merge_eq_append ?_
    have hfst : entries.map Prod.fst = s.mainFields.map Field.name := hkeys
    rw [hfst]
    exact Schema.nodup_mainNames h
  rw [hmerge]
  constructor
  · rw [← hkeys]
    rfl
  · exact if_pos rfl

/-- A selected main row is decoded into the id and the main fields. -/
theorem decodeMain_select {s : Store} {id : Int64} {db : Database} {row : List Cell}
    {rest : List (List Cell)} {trunk : Entries Tree}
    (hselect : db.select s.schema.mainPlan.select [.int id] = .ok (row :: rest))
    (htrunk : s.schema.mainPlan.decodeMain row = .ok trunk) :
    Entries.keys trunk = idColumn :: s.schema.mainFields.map Field.name ∧
      (db.Settled → Entries.get? trunk idColumn = some (.int id)) := by
  rcases TablePlan.decodeMain_eq_ok htrunk with ⟨n, cells, -, rfl, -, -⟩
  rcases Database.exists_of_select hselect with ⟨t, ht⟩
  have hrows : db.select s.schema.mainPlan.select [.int id] = _ := Database.selectMain_eq ht _ _
  rw [hselect] at hrows
  rcases List.map_eq_cons_iff.1 (Except.ok.inj hrows).symm with ⟨r, rs, hfilter, hrow, -⟩
  have hr : r ∈ t.rows.filter (t.holds idColumn (.int id)) := by
    rw [hfilter]
    exact List.mem_cons_self
  rcases List.mem_filter.1 hr with ⟨hmem, hholds⟩
  -- The first value is the id that the row shows, the others are the main fields.
  injection hrow with hvalue hcells
  have hlength : cells.length = s.schema.mainFields.length := by
    rw [← hcells]
    simp
  rcases decodeMain_cons s.schema_sound hlength htrunk with ⟨hkeys, hid⟩
  refine ⟨hkeys, fun hdb => ?_⟩
  have hn : n = id := Database.Table.eq_of_holds_id (hdb.table? ht) hmem hvalue hholds
  exact hn ▸ hid

/--
The keys of a grown document are the id, the main fields and the branches, in this order and each
once, and its id is the one that was asked for, unless a branch is called `id`; then that key holds
the elements of the branch.
-/
theorem keys_get (s : Store) (db : Database) (id : Int64) (entries : Entries Tree)
    (h : (s.get id).result db = .ok entries) :
    (Entries.keys entries).Nodup ∧
      (idColumn ∉ s.schema.branchNames →
        Entries.keys entries =
          idColumn :: (s.schema.mainFields.map Field.name ++ s.schema.branchNames) ∧
        (db.Settled → Entries.get? entries idColumn = some (.int id))) ∧
      (idColumn ∈ s.schema.branchNames →
        Entries.keys entries = idColumn :: (s.schema.mainFields.map Field.name ++
          s.schema.branchNames.filter fun n => n ≠ idColumn) ∧
        ∃ items, Entries.get? entries idColumn = some (.seq items)) := by
  have hsound := s.schema_sound
  rcases get_eq_ok.1 h with ⟨row, rest, trunk, grown, hselect, htrunk, hgrown, rfl⟩
  rcases decodeMain_select hselect htrunk with ⟨hkeys, hid⟩
  have hnames := map_fst_grown hgrown
  have hdistinct : ((s.schema.branchNames.zip (grown.map Tree.seq)).map Prod.fst).Nodup := by
    rw [hnames]
    exact s.schema.nodup_branchNames
  -- Of the names of the branches only `id` can be among the keys of the main row.
  have hall : Entries.keys (Entries.merge trunk (s.schema.branchNames.zip (grown.map Tree.seq))) =
      idColumn :: (s.schema.mainFields.map Field.name ++
        s.schema.branchNames.filter fun n => n ≠ idColumn) := by
    rw [Entries.keys_merge hdistinct, hnames, hkeys, Schema.filter_branchNames hsound]
    rfl
  refine ⟨?_, ?_, ?_⟩
  · refine Entries.nodup_keys_merge ?_ _
    rw [hkeys]
    exact Schema.nodup_mainNames hsound
  · intro hfree
    have hfilter : (s.schema.branchNames.filter fun n => n ≠ idColumn) = s.schema.branchNames := by
      rw [List.filter_eq_self]
      intro n hn
      have hne : n ≠ idColumn := fun heq => hfree (heq ▸ hn)
      exact decide_eq_true hne
    rw [hfilter] at hall
    refine ⟨hall, ?_⟩
    intro hdb
    have hnone : Entries.get? (s.schema.branchNames.zip (grown.map Tree.seq)) idColumn = none := by
      rw [Entries.get?_eq_none, Entries.keys, hnames]
      exact hfree
    rw [Entries.get?_merge hdistinct, hnone, hid hdb]
    rfl
  · intro htaken
    refine ⟨hall, ?_⟩
    have hmem : idColumn ∈ Entries.keys (s.schema.branchNames.zip (grown.map Tree.seq)) := by
      rw [Entries.keys, hnames]
      exact htaken
    cases hget : Entries.get? (s.schema.branchNames.zip (grown.map Tree.seq)) idColumn with
    | none => exact absurd hmem (Entries.get?_eq_none.1 hget)
    | some value =>
      have hvalue := List.of_mem_zip (Entries.mem_of_get? hget)
      rcases List.mem_map.1 hvalue.2 with ⟨items, -, rfl⟩
      refine ⟨items, ?_⟩
      rw [Entries.get?_merge hdistinct, hget]
      rfl

end Store

/-! ## A list called `id` -/

/-- Plants with a list that has the name of the id. -/
def Schema.numbered : Schema :=
  .ofTables "plant"
    [("plant", { fields := [⟨"name", .string⟩] }),
      ("id", { isList := true, valueField := some ⟨"number", .integer⟩ })]

namespace Store

def numbered : Store :=
  ⟨Schema.numbered, Schema.numbered.plan, by decide, rfl⟩

/-- The database of a store that took in one plant. -/
def numberedPlant : Database :=
  (numbered.insert (.map [("name", .text "fern")])).after (numbered.provision.after {})

theorem get_numberedPlant : (numbered.get 1).result numberedPlant =
    .ok [("id", .seq []), ("name", .text "fern")] := by
  have hmain : numberedPlant.select Schema.numbered.mainPlan.select [.int 1] =
      .ok [[.int 1, .text "fern"]] := by decide +kernel
  have htable : numberedPlant.table? "id" =
      some (Schema.numbered.created ("id", ⟨[], true, some ⟨"number", .integer⟩⟩)) := by
    decide +kernel
  have hbranch : numberedPlant.select
      (Schema.numbered.branchPlan "id" ⟨[], true, some ⟨"number", .integer⟩⟩).select [.int 1] =
      .ok [] := by
    have hselect := Database.selectSecondary_eq htable ["number"] (.int 1)
    have hrows :
        (Schema.numbered.created ("id", ⟨[], true, some ⟨"number", .integer⟩⟩)).rows = [] := rfl
    rw [hrows, List.filter_nil, Database.Table.sorted, List.mergeSort_nil] at hselect
    exact hselect
  exact get_eq_ok.2 ⟨_, [], [("id", .int 1), ("name", .text "fern")], [[]], hmain, rfl,
    .cons ((Branch.grow_eq_ok rfl).2 ⟨[], hbranch, rfl⟩) .nil, rfl⟩

/-- The plant has lost its id to the list. -/
theorem keys_get_numberedPlant : ∃ entries,
    (numbered.get 1).result numberedPlant = .ok entries ∧ (Entries.keys entries).Nodup ∧
      ∃ items, Entries.get? entries idColumn = some (.seq items) := by
  rcases keys_get numbered numberedPlant 1 _ get_numberedPlant with ⟨hnodup, -, htaken⟩
  exact ⟨_, get_numberedPlant, hnodup, (htaken (by decide)).2⟩

end Store
end Espalier
