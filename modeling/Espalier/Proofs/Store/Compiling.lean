import Espalier.Proofs.Store.Conformity
import Espalier.Proofs.Store.RoundTrip

/-!
# All ways to a layout agree

A schema is compiled table by table in its own order, table by table on demand, once more for the
plan with the main table first, and once more for a store.  Each way checks the schema and looks for
unknown types again.  They all fail alike: `fault?` is the one error, that of validation or the
first data field of an unknown type, and where there is none they all give the same layout.
-/

namespace Espalier

namespace Schema

/-! ## The one fault -/

def dataFields (s : Schema) : List (String × Field) :=
  s.tables.flatMap fun u => u.2.dataFields.map fun f => (u.1, f)

def unknownField? (s : Schema) : Option (String × Field) :=
  s.dataFields.find? fun x => !x.2.type.isKnown

def unknownType (x : String × Field) : CompileError :=
  .unknownType x.1 x.2.name x.2.type.name

def fault? (s : Schema) : Option CompileError :=
  match s.validate with
  | .error e => some (.schema e)
  | .ok () => s.unknownField?.map unknownType

/-- A schema is at fault for its structure just if it does not validate. -/
theorem fault?_eq_schema {s : Schema} {e : SchemaError} :
    s.fault? = some (.schema e) ↔ s.validate = .error e := by
  unfold fault?
  cases s.validate with
  | error e' => simp
  | ok _ => simp [unknownType]

/-- A schema is at fault for a word just if it validates and the first unknown type is that one. -/
theorem fault?_eq_unknownType {s : Schema} {table field word : String} :
    s.fault? = some (.unknownType table field word) ↔ s.validate = .ok () ∧
      ∃ f, s.unknownField? = some (table, f) ∧ f.name = field ∧ f.type.name = word := by
  unfold fault?
  cases s.validate with
  | error e => simp
  | ok _ =>
    simp only [Option.map_eq_some_iff, true_and, unknownType]
    constructor
    · rintro ⟨⟨t, f⟩, hf, heq⟩
      cases heq
      exact ⟨f, hf, rfl, rfl⟩
    · rintro ⟨f, hf, rfl, rfl⟩
      exact ⟨_, hf, rfl⟩

/-- A schema has no fault just if it validates and every type in it is known. -/
theorem fault?_eq_none {s : Schema} : s.fault? = none ↔
    s.validate = .ok () ∧ ∀ x ∈ s.dataFields, x.2.type.isKnown = true := by
  unfold fault?
  cases s.validate with
  | error e => simp
  | ok _ => simp [unknownField?, List.find?_eq_none]

/-! ## Columns and definitions -/

/-- A field has a column exactly if its type is known. -/
theorem error?_ofField (table : String) (f : Field) :
    Outcome.error? (Column.ofField table f) =
      if f.type.isKnown then none else some (unknownType (table, f)) := by
  rcases f with ⟨name, type⟩
  cases type <;> rfl

/-- A table is refused for the first of its fields that is. -/
theorem error?_definitionsOf (s : Schema) (name : String) (t : Table) :
    Outcome.error? (s.definitionsOf name t) =
      t.dataFields.findSome? fun f => Outcome.error? (Column.ofField name f) := by
  rw [definitionsOf, columnsOf, Outcome.error?_bind_pure, Outcome.error?_bind_pure,
    Outcome.error?_mapM]

/-- The first of a list that fails a test is what a search for failures finds. -/
theorem findSome?_guard {α β : Type} (p : α → Bool) (g : α → β) (l : List α) :
    (l.findSome? fun a => if p a then none else some (g a)) = (l.find? fun a => !p a).map g := by
  induction l with
  | nil => rfl
  | cons a l ih =>
    rw [List.findSome?_cons, List.find?_cons, ih]
    cases p a <;> rfl

/-- Compilation fails with the one fault. -/
theorem error?_compile (s : Schema) : Outcome.error? s.compile = s.fault? := by
  have htables : (s.tables.findSome? fun u => Outcome.error? (do
      let definitions ← s.definitionsOf u.1 u.2
      return (u.1, definitions))) = s.unknownField?.map unknownType := by
    rw [unknownField?, ← findSome?_guard, dataFields, findSome?_flatMap]
    refine congrArg (List.findSome? · s.tables) (funext fun u => ?_)
    rw [Outcome.error?_bind_pure, error?_definitionsOf, List.findSome?_map]
    exact congrArg (List.findSome? · u.2.dataFields) (funext fun f => error?_ofField u.1 f)
  rw [compile, Outcome.error?_bind, fault?]
  cases s.validate with
  | error e => rfl
  | ok _ =>
    rw [← htables, ← Outcome.error?_mapM]
    rfl

section Sound

variable {s : Schema} (hvalid : s.validate = .ok ())
  (hknown : ∀ x ∈ s.dataFields, x.2.type.isKnown = true) {u : String × Table} (hu : u ∈ s.tables)

theorem mem_dataFields {u : String × Table} (hu : u ∈ s.tables) {f : Field}
    (hf : f ∈ u.2.dataFields) : (u.1, f) ∈ s.dataFields :=
  List.mem_flatMap.2 ⟨u, hu, List.mem_map_of_mem hf⟩

include hknown hu

theorem columnsOf_known : s.columnsOf u.1 u.2 = .ok (s.layout u.1 u.2) := by
  have hdata : u.2.dataFields.mapM (Column.ofField u.1) =
      .ok (u.2.dataFields.map Field.column) := by
    refine Outcome.mapM_eq_map fun f hf => ?_
    have hf := hknown _ (mem_dataFields hu hf)
    rcases f with ⟨name, type⟩
    cases type <;> first | rfl | cases hf
  rw [columnsOf, hdata]
  rfl

theorem definitionsOf_known : s.definitionsOf u.1 u.2 = .ok (s.definitions u.1 u.2) := by
  rcases hd : s.definitionsOf u.1 u.2 with e | d
  · have hd' := hd
    rw [definitionsOf, columnsOf_known hknown hu] at hd'
    cases hd'
  · rw [definitionsOf_eq hd]

include hvalid

/-- The columns of a declared table. -/
theorem compileColumns_known : s.compileColumns u.1 = .ok (s.layout u.1 u.2) := by
  rw [compileColumns, hvalid, table_eq_ok.2 (table?_of_mem hu)]
  exact columnsOf_known hknown hu

/-- The definitions of a declared table. -/
theorem compileTable_known : s.compileTable u.1 = .ok (s.definitions u.1 u.2) := by
  rw [compileTable, hvalid, table_eq_ok.2 (table?_of_mem hu)]
  exact definitionsOf_known hknown hu

end Sound

end Schema

namespace Store

open Schema
open Database (Action)

section Sound

variable {s : Schema} (hvalid : s.validate = .ok ())
  (hknown : ∀ x ∈ s.dataFields, x.2.type.isKnown = true)

include hvalid hknown

/-- Once compilation has succeeded, no table can fail to be planned. -/
theorem TablePlan.exists_ofTable {u : String × Table} (hu : u ∈ s.tables) :
    ∃ p, TablePlan.ofTable s u.1 = .ok p := by
  have hdata : (u.2.dataFields.mapM fun f => do
      let codec ← Codec.ofField u.1 f
      return ({ name := f.name, codec } : DataColumn)) =
        .ok (u.2.dataFields.map Field.dataColumn) := by
    refine Outcome.mapM_eq_map fun f hf => ?_
    have hf := hknown _ (mem_dataFields hu hf)
    rcases f with ⟨name, type⟩
    cases type <;> first | rfl | cases hf
  rw [TablePlan.ofTable, table_eq_ok.2 (table?_of_mem hu)]
  simp only [compileSound, bind, Except.bind, compileColumns_known hvalid hknown hu]
  simp only [bind, Except.bind] at hdata
  rw [hdata]
  dsimp only
  split <;> exact ⟨_, rfl⟩

/-- The plan is there, and it is the one written out. -/
theorem Plan.ofSchema_known : Plan.ofSchema s = .ok s.plan := by
  have hsound := validate_eq_ok.1 hvalid
  rcases hsound.main with ⟨m, hm, -⟩
  rcases TablePlan.exists_ofTable hvalid hknown (mem_of_table? hm) with ⟨main, hmain⟩
  -- Only the plans of the tables are left to fail, and none does.
  have hbranches : (s.secondaryTables.mapM fun u => do
      let table ← TablePlan.ofTable s u.1
      return ({ kind := if u.2.isList then .list else .object, table } : Branch)) =
        .ok (s.secondaryTables.map s.branch) := by
    refine Outcome.mapM_eq_map fun u hu => ?_
    rcases mem_secondaryTables.1 hu with ⟨hmem, hne⟩
    rcases TablePlan.exists_ofTable hvalid hknown hmem with ⟨table, htable⟩
    have hplan := (TablePlan.eq_of_ofTable (table?_of_mem hmem) htable).2
    rw [if_neg hne] at hplan
    rw [htable, hplan]
    rfl
  obtain ⟨definitions, hdefinitions⟩ : ∃ ds, s.compile = .ok ds := by
    rw [← Outcome.error?_eq_none, error?_compile]
    exact fault?_eq_none.2 ⟨hvalid, hknown⟩
  obtain ⟨p, hp⟩ : ∃ p, Plan.ofSchema s = .ok p := by
    rw [Plan.ofSchema, hdefinitions]
    simp only [bind, Except.bind, hmain] at hbranches ⊢
    rw [hbranches]
    exact ⟨_, rfl⟩
  rw [hp, (Plan.eq_of_ofSchema hm hp).1]

end Sound

/-- A plan fails with the one fault. -/
theorem Plan.error?_ofSchema (s : Schema) : Outcome.error? (Plan.ofSchema s) = s.fault? := by
  cases hfault : s.fault? with
  | none =>
    rcases fault?_eq_none.1 hfault with ⟨hvalid, hknown⟩
    rw [Plan.ofSchema_known hvalid hknown]
    rfl
  | some e =>
    have hcompile := Outcome.error?_eq_some.1 ((error?_compile s).trans hfault)
    rw [Plan.ofSchema, hcompile]
    rfl

/-- The failure that reports a fault: a broken rule is named as such. -/
def Failure.ofFault : CompileError → Failure
  | .schema e => .schema e
  | e => .compile e

theorem Failure.ofFault_eq_schema {fault : CompileError} {e : SchemaError} :
    Failure.ofFault fault = .schema e ↔ fault = .schema e := by
  cases fault <;> simp [Failure.ofFault]

theorem Failure.ofFault_eq_unknownType {fault : CompileError} {table field word : String} :
    Failure.ofFault fault = .compile (.unknownType table field word) ↔
      fault = .unknownType table field word := by
  cases fault <;> simp [Failure.ofFault]

/-- A plan is made of the schemas without fault only, and it is theirs. -/
theorem Plan.ofSchema_eq_ok {s : Schema} {p : Plan} :
    Plan.ofSchema s = .ok p ↔ s.fault? = none ∧ p = s.plan := by
  constructor
  · intro h
    have hfault : s.fault? = none := by
      rw [← Plan.error?_ofSchema, h]
      rfl
    rcases fault?_eq_none.1 hfault with ⟨hvalid, hknown⟩
    exact ⟨hfault, Except.ok.inj (h.symm.trans (Plan.ofSchema_known hvalid hknown))⟩
  · rintro ⟨hfault, rfl⟩
    rcases fault?_eq_none.1 hfault with ⟨hvalid, hknown⟩
    exact Plan.ofSchema_known hvalid hknown

/-- A compilation succeeds for the schemas without fault only. -/
theorem compile_eq_ok {s : Schema} {definitions : List (String × List Sql.Definition)} :
    s.compile = .ok definitions ↔ s.fault? = none ∧ definitions = s.plan.definitions := by
  constructor
  · intro h
    refine ⟨?_, compile_eq h⟩
    rw [← error?_compile, h]
    rfl
  · rintro ⟨hfault, rfl⟩
    obtain ⟨definitions, h⟩ := Outcome.error?_eq_none.1 ((error?_compile s).trans hfault)
    rw [h, compile_eq h]
    rfl

/-- A store fails with the one fault. -/
theorem error?_ofSchema (s : Schema) :
    Outcome.error? (ofSchema s) = s.fault?.map Failure.ofFault := by
  unfold ofSchema
  split
  · rename_i e hvalid
    rw [fault?_eq_schema.2 hvalid]
    rfl
  · rename_i hvalid
    have hplan := Plan.error?_ofSchema s
    split
    · rename_i e hp
      rw [hp] at hplan
      rw [← hplan]
      cases e with
      | schema e =>
        -- Validation has passed, so the fault is no broken rule.
        rw [fault?_eq_schema.1 hplan.symm] at hvalid
        cases hvalid
      | unknownType table field word => rfl
    · rename_i p hp
      rw [hp] at hplan
      rw [← hplan]
      rfl

/-! ## Errors of the schema -/

/-- Whether a failure is anything but a broken rule of the schema. -/
def Failure.IsLate : Failure → Prop
  | .schema _ => False
  | _ => True

/-- Growing a checked branch fails late at most. -/
theorem Branch.failsOnly_grow {b : Branch} (hb : b.checkValue = .ok ()) (id : Int64) :
    (b.grow id).FailsOnly Failure.IsLate := by
  refine (Action.failsOnly_reporting _ fun _ => trivial).bind fun rows => ?_
  rw [hb]
  dsimp only
  cases rows.mapM b.decode with
  | ok items => exact Action.failsOnly_pure items
  | error cause => exact Action.failsOnly_throw trivial

/-- Reading fails for no rule of the schema. -/
theorem failsOnly_get (s : Store) (id : Int64) : (s.get id).FailsOnly Failure.IsLate := by
  rw [get, plan_eq]
  refine (Action.failsOnly_reporting _ fun _ => trivial).bind fun rows => ?_
  cases rows with
  | nil => exact Action.failsOnly_throw trivial
  | cons row rest =>
    dsimp only
    cases s.schema.plan.main.decodeMain row with
    | error cause => exact Action.failsOnly_throw trivial
    | ok trunk =>
      refine Action.failsOnly_foldlM fun entries b hb => ?_
      rcases List.mem_map.1 hb with ⟨u, hu, rfl⟩
      exact (Branch.failsOnly_grow (checkValue_branch s.schema_sound hu) id).bind fun items =>
        Action.failsOnly_pure _

/-- Inserting fails for no rule of the schema. -/
theorem failsOnly_insert (s : Store) (tree : Tree) :
    (s.insert tree).FailsOnly Failure.IsLate := by
  intro db e he
  obtain ⟨_, w, _, _, cause, -, -, -, rfl⟩ := (s.run_insert tree db).2 e he
  exact trivial

/-! ## Agreement -/

/-- Definitions stand under the names of the tables, in their order. -/
theorem keys_definitions (s : Schema) :
    Entries.keys s.plan.definitions = Entries.keys s.tables := by
  rw [Entries.keys, Entries.keys, Schema.plan, List.map_map]
  rfl

section Plan

variable {s : Schema} (hvalid : s.validate = .ok ())
  (hknown : ∀ x ∈ s.dataFields, x.2.type.isKnown = true)

include hvalid hknown

/-- Every table of the plan is laid out as its columns are compiled. -/
theorem compileColumns_plan {t : TablePlan} (ht : t ∈ s.plan.tables) :
    s.compileColumns t.name = .ok t.layout := by
  rcases (validate_eq_ok.1 hvalid).main with ⟨m, hm, -⟩
  rcases List.mem_cons.1 ht with rfl | ht
  · have hcolumns := compileColumns_known hvalid hknown (mem_of_table? hm)
    rw [layout_eq, planted, if_pos rfl, ← mainFields_eq hm] at hcolumns
    exact hcolumns
  · obtain ⟨b, hb, rfl⟩ := List.mem_map.1 ht
    rcases List.mem_map.1 hb with ⟨u, hu, rfl⟩
    rcases mem_secondaryTables.1 hu with ⟨hmem, hne⟩
    have hcolumns := compileColumns_known hvalid hknown hmem
    rw [layout_eq, planted, if_neg hne] at hcolumns
    exact hcolumns

omit hknown in
/-- The plan of a list has the column of its elements and no other. -/
theorem valueColumn_plan {b : Branch} (hb : b ∈ s.plan.branches) (hlist : b.kind = .list) :
    ∃ c, b.table.columns = [c] ∧ b.table.valueColumn = .ok c := by
  obtain ⟨u, hu, rfl⟩ := List.mem_map.1 hb
  have hmem := (mem_secondaryTables.1 hu).1
  have hisList : u.2.isList = true := by
    by_contra hnot
    simp [branch, hnot] at hlist
  rcases ((validate_eq_ok.1 hvalid).tables u hmem).shape hisList with ⟨hvalue, -⟩
  rcases Option.isSome_iff_exists.1 hvalue with ⟨f, hf⟩
  refine ⟨f.dataColumn, ?_⟩
  simp [branch, branchPlan, Table.dataFields, hisList, hf, TablePlan.valueColumn]

/-- The definitions of a declared table, in the plan and on demand. -/
theorem definitions_plan {u : String × Table} (hu : u ∈ s.tables) :
    Entries.get? s.plan.definitions u.1 = some (s.definitions u.1 u.2) ∧
      s.compileTable u.1 = .ok (s.definitions u.1 u.2) := by
  refine ⟨Entries.get?_of_mem ?_ (List.mem_map_of_mem hu), compileTable_known hvalid hknown hu⟩
  rw [keys_definitions]
  exact s.distinct

end Plan

/--
Compilation fails with an error of the schema exactly if validation gives that error, otherwise with
the first data field of an unknown type in the order of the schema, and otherwise it succeeds.  The
plan and the store fail exactly when compilation does and with its error.  Where compilation
succeeds, there are definitions for every table in the order of the schema, on demand the same ones;
every planned table has the columns that are compiled for it, the id first, for a secondary table
the reference to the main table, then the data fields; and the plan of a list has exactly one data
column, so no insertion and no reading fails for the want of it.
-/
theorem compile_agrees (s : Schema) :
    ((∀ e, s.compile = .error (.schema e) ↔ s.validate = .error e) ∧
      (∀ table field word, s.compile = .error (.unknownType table field word) ↔
        s.validate = .ok () ∧
          ∃ f, s.unknownField? = some (table, f) ∧ f.name = field ∧ f.type.name = word) ∧
      ((∃ definitions, s.compile = .ok definitions) ↔
        s.validate = .ok () ∧ ∀ x ∈ s.dataFields, x.2.type.isKnown = true)) ∧
    ((∀ e, Plan.ofSchema s = .error e ↔ s.compile = .error e) ∧
      ∀ definitions, s.compile = .ok definitions ↔
        ∃ p, Plan.ofSchema s = .ok p ∧ p.definitions = definitions) ∧
    ((∀ e, ofSchema s = .error (.schema e) ↔ s.validate = .error e) ∧
      (∀ table field word, ofSchema s = .error (.compile (.unknownType table field word)) ↔
        s.compile = .error (.unknownType table field word)) ∧
      ((∃ store, ofSchema s = .ok store) ↔ ∃ definitions, s.compile = .ok definitions)) ∧
    (∀ p, Plan.ofSchema s = .ok p →
      Entries.keys p.definitions = Entries.keys s.tables ∧
      (∀ u ∈ s.tables, ∃ definitions, Entries.get? p.definitions u.1 = some definitions ∧
        s.compileTable u.1 = .ok definitions ∧
        s.compileColumns u.1 = .ok (Column.id ::
          ((if u.1 = s.mainTable then [] else [Column.parent s.mainTable]) ++
            u.2.dataFields.map Field.column))) ∧
      p.tables.map TablePlan.name = s.mainTable :: s.branchNames ∧
      (∀ t ∈ p.tables, s.compileColumns t.name = .ok t.layout) ∧
      ∀ b ∈ p.branches, b.kind = .list →
        ∃ c, b.table.columns = [c] ∧ b.table.valueColumn = .ok c) ∧
    ∀ store, ofSchema s = .ok store → ∀ db e,
      (∀ tree, (store.insert tree).result db ≠ .error (.schema e)) ∧
        ∀ id, (store.get id).result db ≠ .error (.schema e) := by
  -- All three ways of compiling fail with the fault of the schema, so each equivalence is one about
  -- faults.
  have hcompile := error?_compile s
  have hplan := Plan.error?_ofSchema s
  have hstore := error?_ofSchema s
  refine ⟨⟨?_, ?_, ?_⟩, ⟨?_, ?_⟩, ⟨?_, ?_, ?_⟩, ?_, ?_⟩
  · intro e
    rw [← Outcome.error?_eq_some, hcompile, fault?_eq_schema]
  · intro table field word
    rw [← Outcome.error?_eq_some, hcompile, fault?_eq_unknownType]
  · rw [← Outcome.error?_eq_none, hcompile, fault?_eq_none]
  · intro e
    rw [← Outcome.error?_eq_some, ← Outcome.error?_eq_some, hplan, hcompile]
  · intro definitions
    simp only [compile_eq_ok, Plan.ofSchema_eq_ok]
    constructor
    · rintro ⟨hfault, rfl⟩
      exact ⟨_, ⟨hfault, rfl⟩, rfl⟩
    · rintro ⟨_, ⟨hfault, rfl⟩, rfl⟩
      exact ⟨hfault, rfl⟩
  · intro e
    rw [← Outcome.error?_eq_some, hstore, ← fault?_eq_schema]
    simp only [Option.map_eq_some_iff, Failure.ofFault_eq_schema, exists_eq_right]
  · intro table field word
    rw [← Outcome.error?_eq_some, hstore, ← Outcome.error?_eq_some, hcompile]
    simp only [Option.map_eq_some_iff, Failure.ofFault_eq_unknownType, exists_eq_right]
  · rw [← Outcome.error?_eq_none, hstore, Option.map_eq_none_iff, ← hcompile,
      Outcome.error?_eq_none]
  · intro p hp
    obtain ⟨hfault, rfl⟩ := Plan.ofSchema_eq_ok.1 hp
    rcases fault?_eq_none.1 hfault with ⟨hvalid, hknown⟩
    refine ⟨?_, ?_, ?_, ?_, ?_⟩
    · exact keys_definitions s
    · intro u hu
      rcases definitions_plan hvalid hknown hu with ⟨hget, htable⟩
      refine ⟨_, hget, htable, ?_⟩
      rw [compileColumns_known hvalid hknown hu, layout_eq, planted]
      split <;> rfl
    · rw [Plan.tables, List.map_cons, Schema.plan, List.map_map, List.map_map]
      rfl
    · intro t ht
      exact compileColumns_plan hvalid hknown ht
    · intro b hb hlist
      exact valueColumn_plan hvalid hb hlist
  · intro store _ db e
    refine ⟨fun tree h => ?_, fun id h => ?_⟩
    · exact store.failsOnly_insert tree db _ h
    · exact store.failsOnly_get id db _ h

/-- Plants with a list declared before them and a field of an unknown type in both tables. -/
def mistyped : Schema :=
  .ofTables "plant"
    [("tags", { isList := true, valueField := some ⟨"label", .unknown "colour"⟩ }),
      ("plant", { fields := [⟨"name", .string⟩, ⟨"height", .unknown "decimal"⟩] })]

/-- The list comes first for the plan too, which starts with the main table; and where the types are
known, the plan of the list has its column. -/
theorem compile_agrees_mistyped :
    mistyped.compile = .error (.unknownType "tags" "label" "colour") ∧
      Plan.ofSchema mistyped = .error (.unknownType "tags" "label" "colour") ∧
      ofSchema mistyped = .error (.compile (.unknownType "tags" "label" "colour")) ∧
      ∃ b ∈ Schema.plants.plan.branches, b.kind = .list ∧
        ∃ c, b.table.valueColumn = .ok c := by
  obtain ⟨⟨-, hunknown, -⟩, ⟨hplan, -⟩, ⟨-, hstore, -⟩, -⟩ := compile_agrees mistyped
  have hcompile := (hunknown "tags" "label" "colour").2
    ⟨by decide, ⟨"label", .unknown "colour"⟩, by decide, rfl, rfl⟩
  obtain ⟨-, -, -, hplants, -⟩ := compile_agrees Schema.plants
  obtain ⟨-, -, -, -, hvalue⟩ := hplants Schema.plants.plan rfl
  have htags : Schema.plants.branch ("tags", ⟨[], true, some ⟨"label", .string⟩⟩) ∈
      Schema.plants.plan.branches := by decide
  obtain ⟨c, -, hc⟩ := hvalue _ htags rfl
  exact ⟨hcompile, (hplan _).2 hcompile, (hstore _ _ _).2 hcompile, _, htags, rfl, c, hc⟩

end Store
end Espalier
