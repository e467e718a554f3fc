import Espalier.Proofs.Database.Rows
import Espalier.Proofs.Store.Verifying

/-!
# Provisioning

Provisioning creates the tables of a schema one after the other, each secondary table followed by
the index over its references, and leaves alone what is there already.  So it takes a database to
the same database with the missing tables and indexes at the ends, unless a name that it needs is
taken: `run_defining_all` says this of any database.  Tables and indexes share their names, and
validation looks at the names of tables only, so even in an empty database a sound schema can ask
for a name twice: a table may have the name of another table's index, and the index of a table
called `sqlite` has a name that is kept for the database.  `provision_empty` says that these are the
only obstacles there, and that one more name is in the way of verifying: that of the function which
tells the columns of a table.
-/

namespace Espalier

open Database (Action)

namespace Schema

/-! ## The provisioned database -/

/-- A stored table as provisioning creates it. -/
def created (s : Schema) (u : String × Table) : Database.Table :=
  Database.Table.empty (s.creation u.1 u.2)

/-- The database that holds the given tables of a schema, without rows, and their indexes. -/
def provisioned (s : Schema) (db : Database) (us : List (String × Table)) : Database :=
  { db with
    tables := us.map s.created
    indexes := (us.filter fun u => u.1 ≠ s.mainTable).map fun u => ⟨parentIndex u.1, u.1⟩ }

/-- The names that the indexes of a schema get are free: none of them is kept for the database, and
none is the name of a table. -/
def IndexNamesFree (s : Schema) : Prop :=
  ∀ v ∈ s.secondaryTables, Ascii.fold v.1 ≠ "sqlite" ∧
    ∀ u ∈ s.tables, Ascii.fold u.1 ≠ Ascii.fold (parentIndex v.1)

instance (s : Schema) : Decidable s.IndexNamesFree :=
  inferInstanceAs (Decidable (∀ v ∈ s.secondaryTables, Ascii.fold v.1 ≠ "sqlite" ∧
    ∀ u ∈ s.tables, Ascii.fold u.1 ≠ Ascii.fold (parentIndex v.1)))

theorem created_columns (s : Schema) (u : String × Table) :
    (s.created u).columns = (s.layout u.1 u.2).map Column.spec := by
  have hspec : ∀ c : Column,
      ({ c.spec with declared := Database.reportedType c.spec.declared } : Sql.ColumnSpec) =
        c.spec := by
    intro c
    simp only [Column.spec, ColumnType.reported]
  rw [created, Database.Table.empty, creation, List.map_map]
  exact List.map_congr_left fun c _ => hspec c

/-- A table that has just been created fits. -/
theorem fits_created (s : Schema) {u : String × Table} {db : Database}
    (hu : s.created u ∈ db.tables) : s.Fits db u := by
  refine ⟨s.created u, hu, Ascii.sameName_refl u.1, ?_⟩
  intro e he
  rw [created_columns]
  exact ⟨e.spec, List.mem_map_of_mem he, e.metBy_spec⟩

/-! ## Names of indexes -/

/-- The name of an index is that of its table with a suffix. -/
theorem fold_parentIndex (name : String) :
    Ascii.fold (parentIndex name) = Ascii.fold name ++ "_parent_id_idx" := by
  have hsuffix : Ascii.fold ("_" ++ parentColumn ++ "_idx") = "_parent_id_idx" := by decide
  have hname : parentIndex name = name ++ ("_" ++ parentColumn ++ "_idx") := by
    simp only [parentIndex, String.append_assoc]
  rw [hname, Ascii.fold_append, hsuffix]

/-- Indexes with matching names are those of tables with matching names. -/
theorem fold_parentIndex_inj {a b : String}
    (h : Ascii.fold (parentIndex a) = Ascii.fold (parentIndex b)) :
    Ascii.fold a = Ascii.fold b := by
  rw [fold_parentIndex, fold_parentIndex] at h
  have hlist := congrArg String.toList h
  rw [String.toList_append, String.toList_append] at hlist
  exact String.toList_injective (List.append_cancel_right hlist)

/-- Of the names that do not start like internal ones, only `sqlite` gives its index a name that
does. -/
theorem isInternal_parentIndex {name : String} (h : isReserved name = false) :
    Database.isInternal (parentIndex name) = true ↔ Ascii.fold name = "sqlite" := by
  have hnot : ¬ "sqlite_".toList <+: (Ascii.fold name).toList := by
    rw [← List.isPrefixOf_iff_prefix]
    exact Bool.eq_false_iff.1 h
  rw [Database.isInternal, Search.startsWith, fold_parentIndex, String.toList_append,
    List.isPrefixOf_iff_prefix]
  constructor
  · intro hpre
    -- The folded name is shorter than `sqlite_`, so it is a start of it, and the rest must agree.
    have hlen : (Ascii.fold name).toList.length < 7 := by
      rcases Nat.lt_or_ge (Ascii.fold name).toList.length 7 with hlt | hge
      · exact hlt
      · exact absurd (List.prefix_of_prefix_length_le hpre (List.prefix_append _ _) hge) hnot
    have hstart : (Ascii.fold name).toList <+: "sqlite_".toList :=
      List.prefix_of_prefix_length_le (List.prefix_append _ _) hpre (Nat.le_of_lt hlen)
    have htake := List.prefix_iff_eq_take.1 hstart
    -- Of the seven starts only `sqlite` goes on with an underscore.
    have hsplit : ∀ k < 7, "sqlite_".toList <+: "sqlite_".toList.take k ++ "_parent_id_idx".toList →
        k = 6 := by decide
    have hsix := hsplit _ hlen (htake ▸ hpre)
    rw [hsix] at htake
    apply String.toList_injective
    rw [htake]
    decide
  · intro hname
    rw [hname]
    decide

/-- An index is never named like its own table. -/
theorem fold_parentIndex_ne_self (name : String) :
    Ascii.fold name ≠ Ascii.fold (parentIndex name) := by
  intro hfold
  have hlength := congrArg String.length (hfold.trans (fold_parentIndex name))
  have hsuffix : "_parent_id_idx".length = 14 := rfl
  rw [String.length_append, hsuffix] at hlength
  omega

/-! ## What is missing -/

/-- The tables among the given ones that a database lacks. -/
def absent (us : List (String × Table)) (db : Database) : List (String × Table) :=
  us.filter fun u => (db.table? u.1).isNone

/-- The tables among the given ones whose index a database lacks. -/
def unindexed (us : List (String × Table)) (db : Database) : List (String × Table) :=
  us.filter fun u => !db.hasIndex (parentIndex u.1)

/-- The index over the references of a table, under the name that the table is stored under; a table
that is not there will be stored under its own. -/
def indexOver (db : Database) (u : String × Table) : Database.Index :=
  ⟨parentIndex u.1, ((db.table? u.1).map Database.Table.name).getD u.1⟩

/-- The database with the missing ones of the given tables and indexes at the ends. -/
def completed (s : Schema) (us : List (String × Table)) (db : Database) : Database :=
  { db with
    tables := db.tables ++ (absent us db).map s.created
    indexes := db.indexes ++
      (unindexed (us.filter fun u => u.1 ≠ s.mainTable) db).map (indexOver db) }

/-- The names that are missing are free: no index has the name of a missing table, and no table has
the name of an index, be it stored or among the given ones. -/
structure Vacant (s : Schema) (us : List (String × Table)) (db : Database) : Prop where
  tables : ∀ u ∈ us, db.table? u.1 = none → db.hasIndex u.1 = false
  indexes : ∀ u ∈ us, u.1 ≠ s.mainTable →
    Database.isInternal (parentIndex u.1) = false ∧ db.table? (parentIndex u.1) = none
  apart : ∀ u ∈ us, u.1 ≠ s.mainTable → ∀ v ∈ us, Ascii.fold v.1 ≠ Ascii.fold (parentIndex u.1)

section Completed

variable {s : Schema} {us : List (String × Table)} {db : Database}

/-- Absent tables are those of the list that the database lacks. -/
theorem mem_absent {u : String × Table} : u ∈ absent us db ↔ u ∈ us ∧ db.table? u.1 = none := by
  rw [absent, List.mem_filter, Option.isNone_iff_eq_none]

/-- A table that is there stays as it was. -/
theorem table?_completed_of_some {name : String} {t : Database.Table}
    (h : db.table? name = some t) : (s.completed us db).table? name = some t := by
  have hfound : db.tables.find? (fun u => Ascii.sameName u.name name) = some t := h
  rw [Database.table?, completed, List.find?_append, hfound]
  rfl

/-- A table is missing afterwards just if it was missing and is not among the new ones. -/
theorem table?_completed_eq_none {name : String} :
    (s.completed us db).table? name = none ↔
      db.table? name = none ∧ ∀ u ∈ us, Ascii.fold u.1 ≠ Ascii.fold name := by
  constructor
  · intro hnone
    cases hdb : db.table? name with
    | some t =>
      rw [table?_completed_of_some hdb] at hnone
      cases hnone
    | none =>
      refine ⟨rfl, ?_⟩
      intro u hu hfold
      -- A table of that name would be missing and so have been added.
      have hu' : db.table? u.1 = none := by
        rw [Database.table?_congr (Ascii.sameName_iff.2 hfold), hdb]
      rw [Database.table?_eq_none] at hnone
      exact hnone _ (List.mem_append_right _ (List.mem_map_of_mem (mem_absent.2 ⟨hu, hu'⟩))) hfold
  · rintro ⟨hdb, hnew⟩
    rw [Database.table?_eq_none] at hdb ⊢
    intro t ht
    rcases List.mem_append.1 ht with ht | ht
    · exact hdb t ht
    · rcases List.mem_map.1 ht with ⟨u, hu, rfl⟩
      exact hnew u (mem_absent.1 hu).1

/-- Every table of the list is there afterwards. -/
theorem isSome_table?_completed {u : String × Table} (hu : u ∈ us) :
    ((s.completed us db).table? u.1).isSome = true := by
  cases htable : (s.completed us db).table? u.1 with
  | some t => rfl
  | none => exact absurd rfl ((table?_completed_eq_none.1 htable).2 u hu)

/-- Tables of other names are found as before. -/
theorem table?_completed_of_ne {name : String} (h : ∀ u ∈ us, Ascii.fold u.1 ≠ Ascii.fold name) :
    (s.completed us db).table? name = db.table? name := by
  cases hdb : db.table? name with
  | some t => exact table?_completed_of_some hdb
  | none => exact table?_completed_eq_none.2 ⟨hdb, h⟩

/-- An index is missing afterwards just if it was missing and belongs to no new table. -/
theorem hasIndex_completed_eq_false {name : String} :
    (s.completed us db).hasIndex name = false ↔ db.hasIndex name = false ∧
      ∀ u ∈ us, u.1 ≠ s.mainTable → Ascii.fold (parentIndex u.1) ≠ Ascii.fold name := by
  simp only [Database.hasIndex_eq_false, completed, List.forall_mem_append, List.forall_mem_map]
  refine and_congr_right fun hdb => ?_
  constructor
  · intro hnew u hu hm hfold
    -- An index of that name would be missing and so have been added.
    refine hnew u ?_ hfold
    rw [unindexed, List.mem_filter, List.mem_filter, decide_eq_true_eq, Bool.not_eq_true',
      Database.hasIndex_eq_false]
    refine ⟨⟨hu, hm⟩, ?_⟩
    intro i hi hi'
    exact hdb i hi (hi'.trans hfold)
  · intro hnew u hu
    have hmem := (List.mem_filter.1 (List.mem_filter.1 hu).1)
    exact hnew u hmem.1 (of_decide_eq_true hmem.2)

/-- Nothing is missing twice. -/
theorem completed_completed : s.completed us (s.completed us db) = s.completed us db := by
  have htables : absent us (s.completed us db) = [] := by
    rw [absent, List.filter_eq_nil_iff]
    intro u hu
    have hsome : ((s.completed us db).table? u.1).isSome = true := isSome_table?_completed hu
    simpa [Option.isSome_iff_ne_none] using hsome
  have hindexes : unindexed (us.filter fun u => u.1 ≠ s.mainTable) (s.completed us db) = [] := by
    rw [unindexed, List.filter_eq_nil_iff]
    intro u hu
    have hmem := List.mem_filter.1 hu
    rw [Bool.not_eq_true', hasIndex_completed_eq_false]
    rintro ⟨-, hnew⟩
    exact hnew u hmem.1 (of_decide_eq_true hmem.2) rfl
  rw [completed, htables, hindexes, List.map_nil, List.map_nil, List.append_nil, List.append_nil]

/-- A table that was not found before is one that was created. -/
theorem exists_of_table?_completed {name : String} {t : Database.Table}
    (hnone : db.table? name = none) (h : (s.completed us db).table? name = some t) :
    ∃ u ∈ us, Ascii.sameName u.1 name = true ∧ t = s.created u := by
  have hold : db.tables.find? (fun u => Ascii.sameName u.name name) = none := hnone
  have hname : Ascii.sameName t.name name = true := Database.table?_name h
  rw [Database.table?, completed, List.find?_append, hold, Option.none_or] at h
  rcases List.mem_map.1 (List.mem_of_find?_eq_some h) with ⟨u, hu, rfl⟩
  exact ⟨u, (mem_absent.1 hu).1, hname, rfl⟩

/-- What was free stays free: all tables are there, and they took no name of an index. -/
theorem Vacant.completed (h : s.Vacant us db) : s.Vacant us (s.completed us db) where
  tables u hu hnone := absurd rfl ((table?_completed_eq_none.1 hnone).2 u hu)
  indexes u hu hm := by
    rcases h.indexes u hu hm with ⟨hinternal, hnone⟩
    exact ⟨hinternal, table?_completed_eq_none.2 ⟨hnone, h.apart u hu hm⟩⟩
  apart := h.apart

section Cons

variable {u : String × Table} (hdistinct : ∀ v ∈ us, Ascii.fold u.1 ≠ Ascii.fold v.1)

include hdistinct

/-- One table more does not change how another one is found. -/
theorem table?_completed_single {v : String × Table} (hv : v ∈ us) :
    (s.completed [u] db).table? v.1 = db.table? v.1 :=
  table?_completed_of_ne (List.forall_mem_singleton.2 (hdistinct v hv))

/-- Tables are added one after the other. -/
theorem completed_cons : s.completed us (s.completed [u] db) = s.completed (u :: us) db := by
  have htables : absent us (s.completed [u] db) = absent us db := by
    refine List.filter_congr fun v hv => ?_
    rw [table?_completed_single hdistinct hv]
  -- Tables with different names have indexes with different names.
  have hindexes : unindexed (us.filter fun v => v.1 ≠ s.mainTable) (s.completed [u] db) =
      unindexed (us.filter fun v => v.1 ≠ s.mainTable) db := by
    refine List.filter_congr fun v hv => ?_
    have hother : Ascii.fold (parentIndex u.1) ≠ Ascii.fold (parentIndex v.1) :=
      fun hfold => hdistinct v (List.mem_filter.1 hv).1 (fold_parentIndex_inj hfold)
    have hsame :
        (s.completed [u] db).hasIndex (parentIndex v.1) = db.hasIndex (parentIndex v.1) := by
      rw [Bool.eq_iff_iff, ← not_iff_not, Bool.not_eq_true, Bool.not_eq_true,
        hasIndex_completed_eq_false]
      simp [hother]
    rw [hsame]
  have hover : (unindexed (us.filter fun v => v.1 ≠ s.mainTable) db).map
      (indexOver (s.completed [u] db)) =
        (unindexed (us.filter fun v => v.1 ≠ s.mainTable) db).map (indexOver db) := by
    refine List.map_congr_left fun v hv => ?_
    have hv := (List.mem_filter.1 (List.mem_filter.1 hv).1).1
    rw [indexOver, indexOver, table?_completed_single hdistinct hv]
  rw [completed, htables, hindexes, hover]
  have hsplit : ∀ p : String × Table → Bool, (u :: us).filter p = [u].filter p ++ us.filter p :=
    fun p => List.filter_append [u] us
  simp only [completed, absent, unindexed, hsplit, List.filter_append, List.map_append,
    List.append_assoc]

/-- The names are free for all tables if they are free for the first, and for the others after the
first has been added. -/
theorem vacant_cons : s.Vacant (u :: us) db ↔
    s.Vacant [u] db ∧ s.Vacant us (s.completed [u] db) := by
  constructor
  · intro h
    have hu : u ∈ u :: us := List.mem_cons_self
    have hus : ∀ v ∈ us, v ∈ u :: us := fun v hv => List.mem_cons_of_mem u hv
    constructor
    · refine ⟨?_, ?_, ?_⟩
      · exact List.forall_mem_singleton.2 (h.tables u hu)
      · exact List.forall_mem_singleton.2 (h.indexes u hu)
      · exact List.forall_mem_singleton.2 fun hm =>
          List.forall_mem_singleton.2 (h.apart u hu hm u hu)
    · refine ⟨?_, ?_, ?_⟩
      · intro v hv hnone
        rw [table?_completed_single hdistinct hv] at hnone
        refine hasIndex_completed_eq_false.2 ⟨h.tables v (hus v hv) hnone, ?_⟩
        exact List.forall_mem_singleton.2 fun hm => (h.apart u hu hm v (hus v hv)).symm
      · intro v hv hm
        rcases h.indexes v (hus v hv) hm with ⟨hinternal, hnone⟩
        refine ⟨hinternal, table?_completed_eq_none.2 ⟨hnone, ?_⟩⟩
        exact List.forall_mem_singleton.2 (h.apart v (hus v hv) hm u hu)
      · exact fun v hv hm w hw => h.apart v (hus v hv) hm w (hus w hw)
  · rintro ⟨hfirst, hrest⟩
    have hu : u ∈ [u] := List.mem_singleton_self u
    have htables : ∀ v ∈ us, db.table? v.1 = none →
        (s.completed [u] db).hasIndex v.1 = false := by
      intro v hv hnone
      exact hrest.tables v hv ((table?_completed_single hdistinct hv).trans hnone)
    refine ⟨?_, ?_, ?_⟩
    · refine List.forall_mem_cons.2 ⟨hfirst.tables u hu, ?_⟩
      intro v hv hnone
      exact (hasIndex_completed_eq_false.1 (htables v hv hnone)).1
    · refine List.forall_mem_cons.2 ⟨hfirst.indexes u hu, ?_⟩
      intro v hv hm
      rcases hrest.indexes v hv hm with ⟨hinternal, hnone⟩
      exact ⟨hinternal, (table?_completed_eq_none.1 hnone).1⟩
    · -- A later table that has the name of the first index is missing, and meets that index.
      have hlater : u.1 ≠ s.mainTable →
          ∀ v ∈ us, Ascii.fold v.1 ≠ Ascii.fold (parentIndex u.1) := by
        intro hm v hv hfold
        have hnone : db.table? v.1 = none := by
          rw [Database.table?_congr (Ascii.sameName_iff.2 hfold)]
          exact (hfirst.indexes u hu hm).2
        have hindex := (hasIndex_completed_eq_false.1 (htables v hv hnone)).2 u hu hm
        exact hindex hfold.symm
      refine List.forall_mem_cons.2 ⟨?_, ?_⟩
      · intro hm
        exact List.forall_mem_cons.2 ⟨fold_parentIndex_ne_self u.1, hlater hm⟩
      · intro v hv hm
        refine List.forall_mem_cons.2 ⟨?_, hrest.apart v hv hm⟩
        exact (table?_completed_eq_none.1 (hrest.indexes v hv hm).2).2 u hu

end Cons

end Completed

/-! ## One table -/

/-- Creating a table adds it if it is missing. -/
theorem createTable_creation {s : Schema} {db : Database} {u : String × Table}
    (hu : Table.Sound u.1 u.2) (h : db.table? u.1 = none → db.hasIndex u.1 = false) :
    db.createTable (s.creation u.1 u.2) =
      .ok { db with tables := db.tables ++ (absent [u] db).map s.created } := by
  have hinhabited : (s.creation u.1 u.2).columns ≠ [] := by simp [creation, layout_eq]
  refine Database.createTable_eq_ok.2 ⟨hinhabited, hu.unreserved, ?_⟩
  cases htable : db.table? u.1 with
  | some t =>
    refine .inl ⟨by rw [creation, htable]; rfl, rfl, ?_⟩
    simp [absent, htable]
  | none =>
    refine .inr ⟨htable, h htable, areColumns_layout hu, ?_⟩
    simp [absent, htable, created]

/-- A table is not created where an index has its name. -/
theorem createTable_creation_error {s : Schema} {db : Database} {u : String × Table}
    (hnone : db.table? u.1 = none) (hindex : db.hasIndex u.1 = true) :
    db.createTable (s.creation u.1 u.2) = .error .statement := by
  cases h : db.createTable (s.creation u.1 u.2) with
  | error f => rw [Database.createTable_eq_error h]
  | ok db' =>
    rcases Database.createTable_eq_ok.1 h with ⟨-, -, ⟨hsome, -, -⟩ | ⟨-, hfree, -, -⟩⟩
    · have hsome : (db.table? u.1).isSome = true := hsome
      rw [hnone] at hsome
      cases hsome
    · have hfree : db.hasIndex u.1 = false := hfree
      rw [hindex] at hfree
      cases hfree

/-- The index of a table that has just been created or was there before. -/
theorem createIndex_indexing {s : Schema} {db : Database} {u : String × Table}
    (hm : u.1 ≠ s.mainTable) :
    Database.createIndex { db with tables := db.tables ++ (absent [u] db).map s.created }
        (indexing u.1) =
      if Database.isInternal (parentIndex u.1) || (db.table? (parentIndex u.1)).isSome then
        .error .statement
      else .ok (s.completed [u] db) := by
  obtain ⟨db₁, hdb₁⟩ : ∃ db₁ : Database,
      db₁ = { db with tables := db.tables ++ (absent [u] db).map s.created } := ⟨_, rfl⟩
  -- The tables of this database are those of the completed one.
  have hlookup : ∀ name, db₁.table? name = (s.completed [u] db).table? name := by
    intro name
    rw [hdb₁]
    rfl
  obtain ⟨t, ht, hname⟩ : ∃ t, db₁.table? u.1 = some t ∧
      t.name = ((db.table? u.1).map Database.Table.name).getD u.1 := by
    rw [hlookup]
    cases hdb : db.table? u.1 with
    | some t => exact ⟨t, table?_completed_of_some hdb, rfl⟩
    | none =>
      have hfresh : absent [u] db = [u] := by simp [absent, hdb]
      have hfind : db.tables.find? (fun v => Ascii.sameName v.name u.1) = none := hdb
      have hself : Ascii.sameName (s.created u).name u.1 = true := Ascii.sameName_refl u.1
      refine ⟨s.created u, ?_, rfl⟩
      rw [Database.table?, completed, hfresh, List.find?_append, hfind, List.map_singleton,
        List.find?_singleton, hself]
      rfl
  have hother : db₁.table? (parentIndex u.1) = db.table? (parentIndex u.1) := by
    rw [hlookup]
    exact table?_completed_of_ne (List.forall_mem_singleton.2 (fold_parentIndex_ne_self u.1))
  have hindexes : db₁.hasIndex (parentIndex u.1) = db.hasIndex (parentIndex u.1) := by
    rw [hdb₁]
    rfl
  rw [← hdb₁, Database.createIndex_eq]
  simp only [indexing, ht, hother, hindexes, hname]
  refine if_congr Iff.rfl rfl ?_
  rw [hdb₁]
  cases hindex : db.hasIndex (parentIndex u.1) <;>
    simp [completed, unindexed, indexOver, hm, hindex]

def defining (s : Schema) (u : String × Table) : Action Store.Failure Unit :=
  (s.definitions u.1 u.2).forM fun d =>
    (Action.define d).reporting fun f => .query .provision u.1 (.database f)

/-- A table that cannot be created fails the provision under its name. -/
theorem run_defining_of_error {s : Schema} {u : String × Table} {db : Database}
    {f : Database.Failure} (h : db.createTable (s.creation u.1 u.2) = .error f) :
    ((s.defining u).run db).1 = .error (.query .provision u.1 (.database f)) := by
  have hrun := Action.run_define_of_error (d := .table (s.creation u.1 u.2)) h
  rw [defining, definitions]
  split
  all_goals
    rw [List.forM_eq_forM, List.forM_cons, Action.run_bind, Action.run_reporting, hrun]
    rfl

theorem run_defining_of_main {s : Schema} {u : String × Table} {db db' : Database}
    (hm : u.1 = s.mainTable) (h : db.createTable (s.creation u.1 u.2) = .ok db') :
    (s.defining u).run db = (.ok (), db') := by
  have hrun := Action.run_define_of_ok (d := .table (s.creation u.1 u.2)) h
  rw [defining, definitions, if_pos hm, List.forM_eq_forM, List.forM_cons, Action.run_bind,
    Action.run_reporting, hrun]
  rfl

/-- A branch is created first and gets its index then. -/
theorem run_defining_of_secondary {s : Schema} {u : String × Table} {db db' : Database}
    (hm : u.1 ≠ s.mainTable) (h : db.createTable (s.creation u.1 u.2) = .ok db') :
    (s.defining u).run db =
      match db'.createIndex (indexing u.1) with
      | .ok db'' => (.ok (), db'')
      | .error f => (.error (.query .provision u.1 (.database f)), db') := by
  have hrun := Action.run_define_of_ok (d := .table (s.creation u.1 u.2)) h
  rw [defining, definitions, if_neg hm, List.forM_eq_forM, List.forM_cons, Action.run_bind,
    Action.run_reporting, hrun]
  dsimp only [Except.mapError]
  rw [List.forM_cons, Action.run_bind, Action.run_reporting]
  cases hi : db'.createIndex (indexing u.1) with
  | error f =>
    rw [Action.run_define_of_error (d := .index (indexing u.1)) hi]
    rfl
  | ok db'' =>
    rw [Action.run_define_of_ok (d := .index (indexing u.1)) hi]
    rfl

/-- The definitions of a table add what is missing if the names are free, and fail otherwise. -/
theorem run_defining {s : Schema} {u : String × Table} (hu : Table.Sound u.1 u.2) (db : Database) :
    (s.Vacant [u] db → (s.defining u).run db = (.ok (), s.completed [u] db)) ∧
    (¬ s.Vacant [u] db → ((s.defining u).run db).1 =
      .error (.query .provision u.1 (.database .statement))) := by
  have hmem : u ∈ [u] := List.mem_singleton_self u
  by_cases htaken : db.table? u.1 = none ∧ db.hasIndex u.1 = true
  · -- An index has the name of the table.
    refine ⟨?_, fun _ => run_defining_of_error (createTable_creation_error htaken.1 htaken.2)⟩
    intro h
    have hfree := h.tables u hmem htaken.1
    rw [htaken.2] at hfree
    cases hfree
  · have hfree : db.table? u.1 = none → db.hasIndex u.1 = false :=
      fun hnone => Bool.not_eq_true _ ▸ fun hindex => htaken ⟨hnone, hindex⟩
    have htable := createTable_creation (s := s) hu hfree
    by_cases hm : u.1 = s.mainTable
    · have hvacant : s.Vacant [u] db := by
        refine ⟨List.forall_mem_singleton.2 hfree, ?_, ?_⟩
        · exact List.forall_mem_singleton.2 fun hne => absurd hm hne
        · exact List.forall_mem_singleton.2 fun hne => absurd hm hne
      have hlast : s.completed [u] db =
          { db with tables := db.tables ++ (absent [u] db).map s.created } := by
        simp [completed, unindexed, hm]
      refine ⟨fun _ => ?_, fun h => absurd hvacant h⟩
      rw [hlast]
      exact run_defining_of_main hm htable
    · have hvacant : s.Vacant [u] db ↔ ¬ (Database.isInternal (parentIndex u.1) ||
          (db.table? (parentIndex u.1)).isSome) = true := by
        rw [Bool.not_eq_true, Bool.or_eq_false_iff, Option.isSome_eq_false_iff,
          Option.isNone_iff_eq_none]
        constructor
        · intro h
          exact h.indexes u hmem hm
        · intro h
          refine ⟨List.forall_mem_singleton.2 hfree, ?_, ?_⟩
          · exact List.forall_mem_singleton.2 fun _ => h
          · exact List.forall_mem_singleton.2 fun _ =>
              List.forall_mem_singleton.2 (fold_parentIndex_ne_self u.1)
      have hrun := run_defining_of_secondary hm htable
      rw [createIndex_indexing hm] at hrun
      rw [hvacant, not_not]
      constructor
      · intro hgood
        rw [hrun, if_neg hgood]
      · intro hbad
        rw [hrun, if_pos hbad]

/-! ## All tables -/

/-- The definitions of tables of different names add what is missing if the names are free, and fail
otherwise, whatever the database is. -/
theorem run_defining_all {s : Schema} {us : List (String × Table)}
    (hsound : ∀ u ∈ us, Table.Sound u.1 u.2) (hdistinct : (us.map fun u => Ascii.fold u.1).Nodup)
    (db : Database) :
    (s.Vacant us db → Action.run (us.forM s.defining) db = (.ok (), s.completed us db)) ∧
    (¬ s.Vacant us db → ∃ n, (Action.run (us.forM s.defining) db).1 =
      .error (.query .provision n (.database .statement))) := by
  -- Induction over the tables, for every database that the ones before may have left.
  induction us generalizing db with
  | nil =>
    refine ⟨fun _ => ?_, fun h => absurd ⟨by simp, by simp, by simp⟩ h⟩
    simp [completed, absent, unindexed]
    rfl
  | cons u us ih =>
    rw [List.map_cons, List.nodup_cons] at hdistinct
    have happart : ∀ v ∈ us, Ascii.fold u.1 ≠ Ascii.fold v.1 := by
      intro v hv hfold
      exact hdistinct.1 (List.mem_map.2 ⟨v, hv, hfold.symm⟩)
    rcases run_defining (s := s) (hsound u List.mem_cons_self) db with ⟨hgood, hbad⟩
    obtain ⟨hrest, hstop⟩ := ih (fun v hv => hsound v (List.mem_cons_of_mem u hv)) hdistinct.2
      (s.completed [u] db)
    rw [vacant_cons happart, ← completed_cons happart, List.forM_eq_forM, List.forM_cons,
      Action.run_bind]
    rw [List.forM_eq_forM] at hrest hstop
    by_cases hfirst : s.Vacant [u] db
    · rw [hgood hfirst]
      exact ⟨fun h => hrest h.2, fun h => hstop fun h' => h ⟨hfirst, h'⟩⟩
    · refine ⟨fun h => absurd h.1 hfirst, fun _ => ⟨u.1, ?_⟩⟩
      have herror := hbad hfirst
      rcases hrun : (s.defining u).run db with ⟨e | a, db'⟩
      · rw [hrun] at herror
        exact herror
      · rw [hrun] at herror
        cases herror

/-! ## Empty databases -/

/-- A blank database has no table. -/
theorem table?_of_blank {db : Database} (h : db.Blank) (name : String) : db.table? name = none := by
  rw [Database.table?, h.tables, List.find?_nil]

/-- A blank database has no index. -/
theorem hasIndex_of_blank {db : Database} (h : db.Blank) (name : String) :
    db.hasIndex name = false := by
  rw [Database.hasIndex, h.indexes, List.any_nil]

theorem completed_blank (s : Schema) {db : Database} (h : db.Blank) (us : List (String × Table)) :
    s.completed us db = s.provisioned db us := by
  simp [completed, provisioned, absent, unindexed, table?_of_blank h, hasIndex_of_blank h,
    indexOver, h.tables, h.indexes]

/-- In an empty database only the names of the schema itself can be in the way. -/
theorem vacant_blank {s : Schema} (hsound : s.Sound) {db : Database} (h : db.Blank) :
    s.Vacant s.tables db ↔ s.IndexNamesFree := by
  have hinternal : ∀ v ∈ s.tables, Database.isInternal (parentIndex v.1) = false ↔
      Ascii.fold v.1 ≠ "sqlite" := by
    intro v hv
    rw [← Bool.not_eq_true, isInternal_parentIndex (hsound.tables v hv).unreserved]
  constructor
  · intro hvacant v hv
    rcases mem_secondaryTables.1 hv with ⟨hv, hm⟩
    exact ⟨(hinternal v hv).1 (hvacant.indexes v hv hm).1, hvacant.apart v hv hm⟩
  · intro hfree
    refine ⟨fun _ _ _ => hasIndex_of_blank h _, ?_, ?_⟩
    · intro v hv hm
      exact ⟨(hinternal v hv).2 (hfree v (mem_secondaryTables.2 ⟨hv, hm⟩)).1, table?_of_blank h _⟩
    · intro v hv hm
      exact (hfree v (mem_secondaryTables.2 ⟨hv, hm⟩)).2

end Schema

/-- Plants with a list that is called like the function that tells columns. -/
def Schema.shadowing : Schema :=
  .ofTables "plant"
    [("plant", { fields := [⟨"name", .string⟩] }),
      ("pragma_table_info", { isList := true, valueField := some ⟨"label", .string⟩ })]

/-- Plants with tags, and a list that is called like the index of the tags. -/
def Schema.entangled : Schema :=
  .ofTables "plant"
    [("plant", { fields := [⟨"name", .string⟩] }),
      ("tags", { isList := true, valueField := some ⟨"label", .string⟩ }),
      ("tags_parent_id_idx", { isList := true, valueField := some ⟨"label", .string⟩ })]

namespace Store

/-! ## Stores -/

def shadowing : Store :=
  ⟨Schema.shadowing, Schema.shadowing.plan, by decide, rfl⟩

def entangled : Store :=
  ⟨Schema.entangled, Schema.entangled.plan, by decide, rfl⟩

/-- A plan provisions table by table, in order. -/
theorem plan_provision (s : Store) :
    s.plan.provision = s.schema.tables.forM s.schema.defining := by
  rw [plan_eq]
  exact List.forM_map

/-- Provisioning adds what is missing if the names are free, and otherwise fails and leaves the
database as it was. -/
theorem run_provision (s : Store) (db : Database) :
    (s.schema.Vacant s.schema.tables db →
      s.provision.run db = (.ok (), s.schema.completed s.schema.tables db)) ∧
    (¬ s.schema.Vacant s.schema.tables db → ∃ n, s.provision.run db =
      (.error (.query .provision n (.database .statement)), db)) := by
  have hsound := s.schema_sound
  have hrun := Schema.run_defining_all (s := s.schema) hsound.tables hsound.distinct db
  rw [← plan_provision] at hrun
  refine ⟨fun h => Action.transaction_eq_ok.2 (hrun.1 h), ?_⟩
  intro h
  rcases hrun.2 h with ⟨n, hn⟩
  refine ⟨n, Prod.ext ?_ (Action.after_transaction_of_error hn)⟩
  exact (Action.result_transaction _ db).trans hn

/-- A provisioned database fits the layout, so it verifies if columns can be asked for at all. -/
theorem verify_provisioned (s : Store) (db : Database) :
    s.verify.result (s.schema.provisioned db s.schema.tables) =
      if s.schema.Shadows then .error (.query .verify s.schema.mainTable (.database .statement))
      else .ok () := by
  have hsound := s.schema_sound
  have hnamed : (s.schema.provisioned db s.schema.tables).Named := by
    constructor
    · intro t ht
      rcases List.mem_map.1 ht with ⟨u, hu, rfl⟩
      refine (Database.Table.formed_empty ?_ (Schema.areColumns_layout (hsound.tables u hu))).named
      simp [Schema.creation, Schema.layout_eq]
    · rw [Schema.provisioned, List.map_map]
      exact hsound.distinct
  have hshadows : (s.schema.provisioned db s.schema.tables).Shadowed ↔ s.schema.Shadows := by
    constructor
    · rintro ⟨t, ht, hname⟩
      rcases List.mem_map.1 ht with ⟨u, hu, rfl⟩
      exact ⟨u, hu, hname⟩
    · rintro ⟨u, hu, hname⟩
      exact ⟨s.schema.created u, List.mem_map_of_mem hu, hname⟩
  split
  · rename_i h
    exact s.verify_of_shadowed (hshadows.2 h)
  · rename_i h
    refine (s.verify_eq_ok hnamed).2 ⟨fun hdb => h (hshadows.1 hdb), ?_⟩
    exact fun u hu => s.schema.fits_created (List.mem_map_of_mem hu)

/--
The store of a schema can be provisioned in an empty database exactly when the names of its indexes
are free; then the database holds the tables of the schema and one index for each secondary table.
It verifies unless one of the tables is called like the function that tells columns: then the query
for the columns of the main table fails.
-/
theorem provision_empty (s : Store) {db : Database} (h : db.Blank) :
    (s.schema.IndexNamesFree →
      s.provision.result db = .ok () ∧
      (s.provision.after db).tables.map Database.Table.name = s.schema.tables.map Prod.fst ∧
      (s.provision.after db).indexes =
        s.schema.secondaryTables.map (fun v => ⟨Schema.parentIndex v.1, v.1⟩) ∧
      s.verify.result (s.provision.after db) =
        if s.schema.Shadows then .error (.query .verify s.schema.mainTable (.database .statement))
        else .ok ()) ∧
    (¬ s.schema.IndexNamesFree →
      (∃ table, s.provision.result db =
        .error (.query .provision table (.database .statement))) ∧
      s.provision.after db = db) := by
  have hrun := s.run_provision db
  -- In a blank database every table is missing, so only the names of the indexes matter.
  rw [Schema.vacant_blank s.schema_sound h, Schema.completed_blank _ h] at hrun
  rcases hrun with ⟨hgood, hbad⟩
  constructor
  · intro hfree
    have hafter : s.provision.after db = s.schema.provisioned db s.schema.tables :=
      congrArg Prod.snd (hgood hfree)
    rw [hafter]
    refine ⟨congrArg Prod.fst (hgood hfree), ?_, rfl, s.verify_provisioned db⟩
    rw [Schema.provisioned, List.map_map]
    rfl
  · intro hnot
    rcases hbad hnot with ⟨n, hn⟩
    exact ⟨⟨n, congrArg Prod.fst hn⟩, congrArg Prod.snd hn⟩

/-- Plants can be provisioned and verified.  With a list that is called like the index of another
they cannot be provisioned, and with one that is called like the function they cannot be
verified. -/
theorem provision_empty_plants :
    Database.Blank {} ∧
    (plants.provision.result {} = .ok () ∧
      plants.verify.result (plants.provision.after {}) = .ok ()) ∧
    (∃ table, entangled.provision.result {} =
      .error (.query .provision table (.database .statement))) ∧
    shadowing.provision.result {} = .ok () ∧
    shadowing.verify.result (shadowing.provision.after {}) =
      .error (.query .verify "plant" (.database .statement)) := by
  have hblank : Database.Blank {} := ⟨rfl, rfl⟩
  rcases (provision_empty plants hblank).1 (by decide) with ⟨hok, -, -, hverify⟩
  rcases (provision_empty shadowing hblank).1 (by decide) with ⟨hok', -, -, hverify'⟩
  rw [if_neg (by decide)] at hverify
  rw [if_pos (by decide)] at hverify'
  exact ⟨hblank, ⟨hok, hverify⟩, ((provision_empty entangled hblank).2 (by decide)).1, hok',
    hverify'⟩

end Store
end Espalier
