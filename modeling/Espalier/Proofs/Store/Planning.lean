import Espalier.Proofs.Entries
import Espalier.Proofs.Schema.Soundness
import Espalier.Store.Basic

/-!
# The plan of a store

A plan is made in steps that can fail.  Here it is written out: once the schema is sound and its
types are known, columns, definitions and statements are plain functions of the tables, and
`Store.plan_eq` says that the plan of a store consists of those.  What follows about stores starts
from this form and opens no step of the planning again.
-/

namespace Espalier

/-! ## Columns -/

/-- The type of the column of a known field. -/
def Field.columnType (f : Field) : ColumnType :=
  (ColumnType.ofFieldType? f.type).getD .text

def Field.column (f : Field) : Column :=
  { name := f.name, type := f.columnType }

def Field.codec (f : Field) : Store.Codec :=
  (Store.Codec.ofFieldType? f.type).getD .text

def Field.dataColumn (f : Field) : Store.DataColumn :=
  ⟨f.name, f.codec⟩

/-- A field that has a column has its own. -/
theorem Column.eq_of_ofField {table : String} {f : Field} {c : Column}
    (h : Column.ofField table f = .ok c) : c = f.column := by
  unfold Column.ofField at h
  cases ht : ColumnType.ofFieldType? f.type with
  | none => simp [ht] at h
  | some type =>
    simp only [ht, Except.ok.injEq] at h
    simp [← h, Field.column, Field.columnType, ht]

/-- A field that has a codec has its own. -/
theorem Store.Codec.eq_of_ofField {table : String} {f : Field} {c : Store.Codec}
    (h : Store.Codec.ofField table f = .ok c) : c = f.codec := by
  unfold Store.Codec.ofField at h
  cases ht : Store.Codec.ofFieldType? f.type with
  | none => simp [ht] at h
  | some codec =>
    simp only [ht, Except.ok.injEq] at h
    simp [← h, Field.codec, ht]

/-- A field has a codec only if its type is known. -/
theorem Store.Codec.fieldType_of_ofField {table : String} {f : Field} {c : Store.Codec}
    (h : Store.Codec.ofField table f = .ok c) : f.codec.fieldType = f.type := by
  unfold Store.Codec.ofField at h
  unfold Field.codec
  cases ht : f.type with
  | unknown name => simp [ht, Store.Codec.ofFieldType?] at h
  | _ => rfl

namespace Schema

/-! ## Tables written out -/

def mainFields (s : Schema) : List Field :=
  match s.main? with
  | some m => m.dataFields
  | none => []

def layout (s : Schema) (name : String) (t : Table) : List Column :=
  s.syntheticColumns name t ++ t.dataFields.map Field.column

/-- The statement that creates a table. -/
def creation (s : Schema) (name : String) (t : Table) : Sql.CreateTable where
  ifAbsent := true
  table := name
  columns := (s.layout name t).map Column.spec

def indexing (name : String) : Sql.CreateIndex where
  index := parentIndex name
  table := name
  column := parentColumn

def definitions (s : Schema) (name : String) (t : Table) : List Sql.Definition :=
  if name = s.mainTable then [.table (s.creation name t)]
  else [.table (s.creation name t), .index (indexing name)]

def mainPlan (s : Schema) : Store.TablePlan where
  name := s.mainTable
  columns := s.mainFields.map Field.dataColumn
  layout := Column.id :: s.mainFields.map Field.column
  insert := ⟨s.mainTable, s.mainFields.map Field.name⟩
  select := Store.TablePlan.selectMain s.mainTable (s.mainFields.map Field.name)

def branchPlan (s : Schema) (name : String) (t : Table) : Store.TablePlan where
  name := name
  columns := t.dataFields.map Field.dataColumn
  layout := Column.id :: Column.parent s.mainTable :: t.dataFields.map Field.column
  insert := ⟨name, parentColumn :: t.dataFields.map Field.name⟩
  select := Store.TablePlan.selectSecondary name (t.dataFields.map Field.name)

def branch (s : Schema) (u : String × Table) : Store.Branch where
  kind := if u.2.isList then .list else .object
  table := s.branchPlan u.1 u.2

/-- The plan of a schema that is sound and whose types are known. -/
def plan (s : Schema) : Store.Plan where
  definitions := s.tables.map fun u => (u.1, s.definitions u.1 u.2)
  main := s.mainPlan
  branches := s.secondaryTables.map s.branch
  list := Store.Plan.selectWindow s.mainPlan

theorem kindOf_eq_main {s : Schema} {name : String} {t : Table} :
    s.kindOf name t = .main ↔ name = s.mainTable := by
  unfold kindOf
  by_cases h : name = s.mainTable
  · simp [h]
  · cases t.isList <;> simp [h]

/-! ## Look-up of tables -/

/-- A table that is found is one of the tables. -/
theorem mem_of_table? {s : Schema} {name : String} {t : Table} (h : s.table? name = some t) :
    (name, t) ∈ s.tables :=
  Entries.mem_of_get? h

/-- Each table is found under its name. -/
theorem table?_of_mem {s : Schema} {u : String × Table} (h : u ∈ s.tables) :
    s.table? u.1 = some u.2 :=
  Entries.get?_of_mem s.distinct h

/-- Secondary tables are all but the main one. -/
theorem mem_secondaryTables {s : Schema} {u : String × Table} :
    u ∈ s.secondaryTables ↔ u ∈ s.tables ∧ u.1 ≠ s.mainTable := by
  simp [secondaryTables]

theorem mainFields_eq {s : Schema} {m : Table} (h : s.main? = some m) :
    s.mainFields = m.dataFields := by
  simp [mainFields, h]

theorem compileSound_eq_ok {α : Type} {x : Except SchemaError α} {a : α} :
    compileSound x = .ok a ↔ x = .ok a := by
  cases x <;> simp [compileSound]

/-- A table is looked up under its name. -/
theorem table_eq_ok {s : Schema} {name : String} {t : Table} :
    s.table name = .ok t ↔ s.table? name = some t := by
  unfold Schema.table
  cases s.table? name <;> simp

/-! ## The planning steps -/

/-- Columns are those of the layout, if there are any. -/
theorem columnsOf_eq {s : Schema} {name : String} {t : Table} {columns : List Column}
    (h : s.columnsOf name t = .ok columns) : columns = s.layout name t := by
  rcases Outcome.bind_eq_ok.1 h with ⟨data, hdata, hcolumns⟩
  have hdata' : data = t.dataFields.map Field.column :=
    (Outcome.eq_map_of_mapM (fun _ _ _ hc => Column.eq_of_ofField hc) hdata).1
  cases hcolumns
  rw [hdata', layout]

/-- Definitions are those of the table, if there are any. -/
theorem definitionsOf_eq {s : Schema} {name : String} {t : Table} {ds : List Sql.Definition}
    (h : s.definitionsOf name t = .ok ds) : ds = s.definitions name t := by
  rcases Outcome.bind_eq_ok.1 h with ⟨columns, hcolumns, hds⟩
  rw [columnsOf_eq hcolumns] at hds
  cases hds
  by_cases hm : name = s.mainTable
  · have hk : s.kindOf name t = .main := kindOf_eq_main.2 hm
    rw [if_pos hk, definitions, if_pos hm, creation]
  · have hk : s.kindOf name t ≠ .main := fun hk => hm (kindOf_eq_main.1 hk)
    rw [if_neg hk, definitions, if_neg hm, creation, indexing]

/-- What compiles is the definitions of each table under its name. -/
theorem compile_eq {s : Schema} {ds : List (String × List Sql.Definition)}
    (h : s.compile = .ok ds) : ds = s.tables.map fun u => (u.1, s.definitions u.1 u.2) := by
  rcases Outcome.bind_eq_ok.1 h with ⟨_, -, htables⟩
  refine (Outcome.eq_map_of_mapM ?_ htables).1
  intro u _ r hr
  rcases Outcome.bind_eq_ok.1 hr with ⟨d, hd, hr⟩
  cases hr
  rw [definitionsOf_eq hd]

end Schema

namespace Store

open Schema

/-- A planned table, its columns written out; its types are known. -/
theorem TablePlan.eq_of_ofTable {s : Schema} {name : String} {t : Table} {p : TablePlan}
    (ht : s.table? name = some t) (h : TablePlan.ofTable s name = .ok p) :
    (∀ f ∈ t.dataFields, f.codec.fieldType = f.type) ∧
      if name = s.mainTable then p = s.mainPlan else p = s.branchPlan name t := by
  rcases Outcome.bind_eq_ok.1 h with ⟨t', ht', h⟩
  have htt : t' = t := by
    have := table_eq_ok.1 (compileSound_eq_ok.1 ht')
    simpa [ht] using this.symm
  subst htt
  rcases Outcome.bind_eq_ok.1 h with ⟨layout, hlayout, h⟩
  rcases Outcome.bind_eq_ok.1 h with ⟨columns, hcolumns, h⟩
  -- The layout is that of the same table, looked up once more.
  have hlayout' : layout = s.layout name t' := by
    rcases Outcome.bind_eq_ok.1 hlayout with ⟨_, -, hl⟩
    rcases Outcome.bind_eq_ok.1 hl with ⟨t'', ht'', hl⟩
    have : t'' = t' := by
      have := table_eq_ok.1 (compileSound_eq_ok.1 ht'')
      simpa [ht] using this.symm
    subst this
    exact columnsOf_eq hl
  -- A field gives one data column, and only if its type is known.
  have hfield : ∀ f c, (do
      let codec ← Codec.ofField name f
      return ({ name := f.name, codec } : DataColumn)) = .ok c →
      c = f.dataColumn ∧ f.codec.fieldType = f.type := by
    intro f c hc
    rcases Outcome.bind_eq_ok.1 hc with ⟨codec, hcodec, hc⟩
    cases hc
    exact ⟨by rw [Codec.eq_of_ofField hcodec]; rfl, Codec.fieldType_of_ofField hcodec⟩
  obtain ⟨hcolumns', hknown⟩ :=
    Outcome.eq_map_of_mapM (fun f _ c hc => (hfield f c hc).1) hcolumns
  refine ⟨fun f hf => (hfield f _ (hknown f hf)).2, ?_⟩
  have hnames : columns.map DataColumn.name = t'.dataFields.map Field.name := by
    rw [hcolumns', List.map_map]
    rfl
  -- The main table is found by its own id, the others by that of their parent.
  by_cases hm : name = s.mainTable
  · have hmain : s.mainFields = t'.dataFields := mainFields_eq (by rw [Schema.main?, ← hm, ht])
    rw [if_pos (kindOf_eq_main.2 hm)] at h
    rw [if_pos hm]
    cases h
    simp [mainPlan, hmain, ← hm, hlayout', hcolumns', Schema.layout, syntheticColumns,
      kindOf_eq_main.2 hm, Function.comp_def, Field.dataColumn]
  · have hk : s.kindOf name t' ≠ .main := fun hk => hm (kindOf_eq_main.1 hk)
    rw [if_neg hk] at h
    rw [if_neg hm]
    cases h
    simp [branchPlan, hlayout', hcolumns', Schema.layout, syntheticColumns, hk,
      Function.comp_def, Field.dataColumn]

/-- A plan, written out; every type of its schema is known. -/
theorem Plan.eq_of_ofSchema {s : Schema} {p : Plan} {m : Table} (hm : s.main? = some m)
    (h : Plan.ofSchema s = .ok p) :
    p = s.plan ∧ ∀ u ∈ s.tables, ∀ f ∈ u.2.dataFields, f.codec.fieldType = f.type := by
  rcases Outcome.bind_eq_ok.1 h with ⟨definitions, hdefinitions, h⟩
  rcases Outcome.bind_eq_ok.1 h with ⟨main, hmain, h⟩
  rcases Outcome.bind_eq_ok.1 h with ⟨branches, hbranches, h⟩
  rcases TablePlan.eq_of_ofTable hm hmain with ⟨hmainKnown, hmainPlan⟩
  rw [if_pos rfl] at hmainPlan
  -- A secondary table is not the main one, so its plan is that of a branch.
  have hbranch : ∀ u ∈ s.secondaryTables, ∀ b, (do
      let table ← TablePlan.ofTable s u.1
      return ({ kind := if u.2.isList then .list else .object, table } : Branch)) = .ok b →
      b = s.branch u ∧ ∀ f ∈ u.2.dataFields, f.codec.fieldType = f.type := by
    intro u hu b hb
    rcases mem_secondaryTables.1 hu with ⟨hu, hne⟩
    rcases Outcome.bind_eq_ok.1 hb with ⟨table, htable, hb⟩
    rcases TablePlan.eq_of_ofTable (table?_of_mem hu) htable with ⟨hknown, hplan⟩
    rw [if_neg hne] at hplan
    cases hb
    exact ⟨by rw [hplan]; rfl, hknown⟩
  obtain ⟨hbranches', hsteps⟩ :=
    Outcome.eq_map_of_mapM (fun u hu b hb => (hbranch u hu b hb).1) hbranches
  cases h
  refine ⟨?_, ?_⟩
  · rw [compile_eq hdefinitions, hmainPlan, hbranches']
    rfl
  · intro u hu f hf
    by_cases hne : u.1 = s.mainTable
    · have hum : u.2 = m := by
        have := table?_of_mem hu
        rw [hne] at this
        exact Option.some.inj (this.symm.trans hm)
      exact hmainKnown f (hum ▸ hf)
    · have hu' : u ∈ s.secondaryTables := mem_secondaryTables.2 ⟨hu, hne⟩
      exact (hbranch u hu' _ (hsteps u hu')).2 f hf

/-! ## Stores -/

/-- What is known of the schema of a store. -/
theorem schema_sound (s : Store) : s.schema.Sound :=
  Schema.validate_eq_ok.1 s.sound

theorem plan_eq (s : Store) : s.plan = s.schema.plan := by
  rcases s.schema_sound.main with ⟨m, hm, -⟩
  exact (Plan.eq_of_ofSchema hm s.planned).1

/-- The codec of a field is that of its type. -/
theorem fieldType_codec (s : Store) {u : String × Table} (hu : u ∈ s.schema.tables) {f : Field}
    (hf : f ∈ u.2.dataFields) : f.codec.fieldType = f.type := by
  rcases s.schema_sound.main with ⟨m, hm, -⟩
  exact (Plan.eq_of_ofSchema hm s.planned).2 u hu f hf

theorem fieldType_mainCodec (s : Store) :
    ∀ f ∈ s.schema.mainFields, f.codec.fieldType = f.type := by
  rcases s.schema_sound.main with ⟨m, hm, -⟩
  intro f hf
  rw [Schema.mainFields_eq hm] at hf
  exact s.fieldType_codec (Schema.mem_of_table? hm) hf

end Store

/-! ## A store of plants -/

/-- Plants with tags and leaves. -/
def Schema.plants : Schema :=
  .ofTables "plant"
    [("plant", { fields := [⟨"name", .string⟩, ⟨"height", .float⟩] }),
      ("tags", { isList := true, valueField := some ⟨"label", .string⟩ }),
      ("leaves", { fields := [⟨"shape", .string⟩, ⟨"count", .integer⟩] })]

def Store.plants : Store :=
  ⟨Schema.plants, Schema.plants.plan, by decide, rfl⟩

end Espalier
