import Espalier.Proofs.Database.Lookup
import Espalier.Proofs.Store.Planning

/-!
# Layouts that make up tables

The columns that a sound table is laid out with: the row number under the name `id`, then columns
that are no keys, with names that stay apart when letter case is folded.  That is all the database
asks of the columns of a new table.
-/

namespace Espalier

open Database (areColumns distinctColumns reportedType)

/-- The name of a column type is reported as it was written. -/
theorem ColumnType.reported (type : ColumnType) : reportedType type.name = type.name := by
  cases type <;> decide

namespace Schema

/-! ## Synthetic names -/

/-- A name is free of the synthetic ones just if it matches neither of them. -/
theorem isSynthetic_eq_false {name : String} : isSynthetic name = false ↔
    Ascii.fold name ≠ Ascii.fold idColumn ∧ Ascii.fold name ≠ Ascii.fold parentColumn := by
  simp [isSynthetic, Ascii.sameName_eq_false]

theorem fold_idColumn_ne_fold_parentColumn : Ascii.fold idColumn ≠ Ascii.fold parentColumn := by
  decide

/-- The columns after the row number. -/
def planted (s : Schema) (name : String) (t : Table) : List Column :=
  if name = s.mainTable then t.dataFields.map Field.column
  else Column.parent s.mainTable :: t.dataFields.map Field.column

theorem layout_eq (s : Schema) (name : String) (t : Table) :
    s.layout name t = Column.id :: s.planted name t := by
  unfold layout syntheticColumns planted
  by_cases h : name = s.mainTable
  · rw [if_pos (kindOf_eq_main.2 h), if_pos h]
    rfl
  · have hk : s.kindOf name t ≠ .main := fun hk => h (kindOf_eq_main.1 hk)
    simp [hk, h]

/-- No column but the first is a key. -/
theorem primaryKey_of_mem_planted {s : Schema} {name : String} {t : Table} {c : Column}
    (h : c ∈ s.planted name t) : c.primaryKey = false := by
  have hdata : c ∈ t.dataFields.map Field.column → c.primaryKey = false := by
    intro hc
    rcases List.mem_map.1 hc with ⟨f, -, rfl⟩
    rfl
  unfold planted at h
  by_cases hm : name = s.mainTable
  · rw [if_pos hm] at h
    exact hdata h
  · rw [if_neg hm] at h
    rcases List.mem_cons.1 h with rfl | hc
    · rfl
    · exact hdata hc

/-- The names of the columns of a sound table are apart. -/
theorem nodup_layout {s : Schema} {name : String} {t : Table} (h : Table.Sound name t) :
    ((s.layout name t).map fun c => Ascii.fold c.name).Nodup := by
  have hdata : (t.dataFields.map Field.column).map (fun c => Ascii.fold c.name) =
      t.dataFields.map fun f => Ascii.fold f.name := by
    rw [List.map_map]
    rfl
  have hid : Ascii.fold idColumn ∉ t.dataFields.map fun f => Ascii.fold f.name := by
    intro hmem
    rcases List.mem_map.1 hmem with ⟨f, hf, hname⟩
    exact (isSynthetic_eq_false.1 (h.fields f hf).2).1 hname
  have hparent : Ascii.fold parentColumn ∉ t.dataFields.map fun f => Ascii.fold f.name := by
    intro hmem
    rcases List.mem_map.1 hmem with ⟨f, hf, hname⟩
    exact (isSynthetic_eq_false.1 (h.fields f hf).2).2 hname
  rw [layout_eq, List.map_cons, planted]
  by_cases hm : name = s.mainTable
  · rw [if_pos hm, hdata]
    exact List.nodup_cons.2 ⟨hid, h.distinct⟩
  · rw [if_neg hm, List.map_cons, hdata]
    refine List.nodup_cons.2 ⟨?_, List.nodup_cons.2 ⟨hparent, h.distinct⟩⟩
    rw [List.mem_cons, not_or]
    exact ⟨fold_idColumn_ne_fold_parentColumn, hid⟩

end Schema

/-! ## Columns after the row number -/

/-- Columns that can stand after the row number: none is a key, and all names are apart. -/
structure Column.Trailing (columns : List Column) : Prop where
  plain : ∀ c ∈ columns, c.primaryKey = false
  distinct : ((Column.id :: columns).map fun c => Ascii.fold c.name).Nodup

/-- The database takes the row number with such columns after it. -/
theorem Column.Trailing.areColumns {columns : List Column} (h : Column.Trailing columns) :
    Database.areColumns ((Column.id :: columns).map Column.spec) = true := by
  have hdistinct : distinctColumns ((Column.id :: columns).map Column.spec) = true := by
    rw [Database.distinctColumns_iff, List.map_map]
    exact h.distinct
  have hkeys : (columns.map Column.spec).filter Sql.ColumnSpec.primaryKey = [] := by
    rw [List.filter_eq_nil_iff]
    intro c hc
    rcases List.mem_map.1 hc with ⟨d, hd, rfl⟩
    simp [Column.spec, h.plain d hd]
  have hcounting : ∀ c ∈ columns.map Column.spec, c.autoincrement = false := by
    intro c hc
    rcases List.mem_map.1 hc with ⟨d, hd, rfl⟩
    simp [Column.spec, h.plain d hd]
  have hid : Database.Table.isNumber Column.id.spec = true := by decide
  unfold Database.areColumns
  rw [hdistinct, List.map_cons, List.filter_cons, hkeys]
  simp only [Bool.true_and, Bool.and_eq_true, decide_eq_true_eq, List.all_cons, List.all_eq_true]
  refine ⟨?_, by simp [hid], ?_⟩
  · split <;> simp
  · intro c hc
    simp [hcounting c hc]

namespace Schema

/-- The columns behind the key of a sound table are trailing ones. -/
theorem trailing_planted {s : Schema} {name : String} {t : Table}
    (h : Table.Sound name t) : Column.Trailing (s.planted name t) where
  plain _ hc := primaryKey_of_mem_planted hc
  distinct := s.layout_eq name t ▸ nodup_layout h

/-- The database takes the columns of a sound table. -/
theorem areColumns_layout {s : Schema} {name : String} {t : Table} (h : Table.Sound name t) :
    areColumns ((s.layout name t).map Column.spec) = true := by
  rw [layout_eq]
  exact (trailing_planted h).areColumns

/-! ## Names of tables -/

/-- Names that match belong to one table. -/
theorem eq_of_sameName {s : Schema} (h : s.Sound) {u v : String × Table} (hu : u ∈ s.tables)
    (hv : v ∈ s.tables) (hname : Ascii.sameName u.1 v.1 = true) : u = v :=
  List.inj_on_of_nodup_map h.distinct hu hv (Ascii.sameName_iff.1 hname)

/-- Different tables have names that do not match. -/
theorem sameName_of_ne {s : Schema} (h : s.Sound) {u v : String × Table} (hu : u ∈ s.tables)
    (hv : v ∈ s.tables) (hne : u ≠ v) : Ascii.sameName u.1 v.1 = false := by
  cases hname : Ascii.sameName u.1 v.1 with
  | false => rfl
  | true => exact absurd (eq_of_sameName h hu hv hname) hne

/-- The main table has the name of no secondary table, whatever the case. -/
theorem sameName_main {s : Schema} (h : s.Sound) {u : String × Table}
    (hu : u ∈ s.secondaryTables) : Ascii.sameName s.mainTable u.1 = false := by
  rcases h.main with ⟨m, hm, -⟩
  rcases mem_secondaryTables.1 hu with ⟨hu, hne⟩
  have happart : (s.mainTable, m) ≠ u := by
    rintro rfl
    exact hne rfl
  exact sameName_of_ne (u := (s.mainTable, m)) h (mem_of_table? hm) hu happart

/-! ## Planned tables -/

/-- The tables of a schema in the order of a plan: the main table, then the others as they come. -/
def trunkFirst (s : Schema) : List (String × Table) :=
  (s.tables.filter fun u => u.1 = s.mainTable) ++ s.secondaryTables

theorem mem_trunkFirst {s : Schema} {u : String × Table} : u ∈ s.trunkFirst ↔ u ∈ s.tables := by
  rw [trunkFirst, List.mem_append, List.mem_filter, mem_secondaryTables, decide_eq_true_eq,
    ← and_or_left]
  exact and_iff_left (Classical.em _)

theorem filter_main {s : Schema} (hsound : s.Sound) {m : Table} (hm : s.main? = some m) :
    s.tables.filter (fun u => u.1 = s.mainTable) = [(s.mainTable, m)] := by
  have hnodup : s.tables.Nodup := List.Nodup.of_map _ hsound.distinct
  rw [← List.perm_singleton, List.perm_ext_iff_of_nodup (hnodup.filter _) (List.nodup_singleton _)]
  intro u
  rw [List.mem_filter, List.mem_singleton, decide_eq_true_eq]
  constructor
  · rintro ⟨hu, hname⟩
    have htable := table?_of_mem hu
    rw [hname] at htable
    exact Prod.ext hname (Option.some.inj (htable.symm.trans hm))
  · rintro rfl
    exact ⟨mem_of_table? hm, rfl⟩

/-- The planned tables are those of the schema, the main one first, each with its layout. -/
theorem plan_layouts {s : Schema} (hsound : s.Sound) {m : Table} (hm : s.main? = some m) :
    s.plan.tables.map (fun t => (t.name, t.layout)) =
      s.trunkFirst.map fun u => (u.1, s.layout u.1 u.2) := by
  have hmain : s.mainPlan.layout = s.layout s.mainTable m := by
    rw [layout_eq, planted, if_pos rfl, ← mainFields_eq hm]
    rfl
  have hbranches : ((s.secondaryTables.map s.branch).map Store.Branch.table).map
      (fun t => (t.name, t.layout)) = s.secondaryTables.map fun u => (u.1, s.layout u.1 u.2) := by
    rw [List.map_map, List.map_map]
    refine List.map_congr_left fun u hu => ?_
    rw [layout_eq, planted, if_neg (mem_secondaryTables.1 hu).2]
    rfl
  rw [trunkFirst, filter_main hsound hm, List.map_append, ← hbranches, List.map_singleton, ← hmain]
  rfl

end Schema
end Espalier
