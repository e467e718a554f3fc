import Espalier.Proofs.Store.Completing
import Espalier.Proofs.Store.Fitting
import Espalier.Proofs.Store.Growing

/-!
# Reading what others have stored

In a database that verifies, every statement that reads finds its table and its columns, whoever
made them and whatever else they hold.  So a document can only be missing, or a cell that is read
can hold a value of another storage class than its column was declared for, or a text that is not
UTF-8: `read_verified` says that nothing else goes wrong, and where the cell is.  That a value is of
the right class is not enough: `garbled_refuses` gives a text in a column for texts that cannot be
read.
-/

namespace Espalier

open Database (Action Cell Reachable Row)

namespace Database

/-- Whether a value has the storage class of a column type. -/
def Cell.isOf : Cell → ColumnType → Bool
  | .int _, .integer => true
  | .real _, .real => true
  | .text _, .text => true
  | .garbled _, .text => true
  | _, _ => false

def Cell.isGarbled : Cell → Bool
  | .garbled _ => true
  | _ => false

/-- There is a value, but of another storage class than the type, or a text that is not UTF-8. -/
def Cell.Unreadable (v : Cell) (type : ColumnType) : Prop :=
  v ≠ .null ∧ (v.isOf type = false ∨ v.isGarbled = true)

/-- A row has an unreadable value in the column of a field. -/
def Table.Misread (t : Table) (f : Field) (r : Row) : Prop :=
  ∃ v, t.Shows f.name r v ∧ v.Unreadable f.columnType

end Database

/-- The rows that a page is made of, given all rows of the main table. -/
def Store.Window.rows (w : Window) (rows : List Row) : List Row :=
  Database.windowed (if w.limit = 0 then -1 else Window.clamp w.limit) (Window.clamp w.offset) rows

/-- A window shows some of the rows, in their order. -/
theorem Database.windowed_sublist {α : Type} (limit offset : Int64) (rows : List α) :
    (windowed limit offset rows).Sublist rows := by
  unfold windowed
  dsimp only
  split
  · exact List.drop_sublist _ rows
  · exact (List.take_sublist _ _).trans (List.drop_sublist _ rows)

/-- What the selection of a page answers. -/
theorem Database.selectWindow_eq {db : Database} {p : Store.TablePlan} {t : Database.Table}
    (ht : db.table? p.name = some t) (w : Store.Window) :
    db.select (Store.Plan.selectWindow p) w.arguments =
      .ok ((w.rows (t.sorted idColumn t.rows)).map fun r =>
        (idColumn :: p.columns.map Store.DataColumn.name).map fun n => (t.operand n).value r) := by
  have htable : db.table p.name = .ok t := Database.table_eq_ok.2 ht
  simp only [Database.select, Store.Plan.selectWindow, htable]
  rfl

namespace Schema

/-- The column by which the rows of a document are found. -/
def keyColumn (s : Schema) (name : String) : String :=
  if name = s.mainTable then idColumn else parentColumn

/-- The rows of a table that make up the document with an id: the main row that has it, or the
secondary rows that refer to it. -/
def Source (s : Schema) (id : Int64) (name : String) (t : Database.Table) (r : Row) : Prop :=
  r ∈ t.rows ∧ ∃ v, t.Shows (s.keyColumn name) r v ∧ v.equals (.int id) = true

/-- Among the rows that are read from a table of the schema is one with a misread cell. -/
def Misreads (db : Database) (u : String × Table) (read : Database.Table → Row → Prop) : Prop :=
  ∃ t, db.table? u.1 = some t ∧ ∃ r f, read t r ∧ f ∈ u.2.dataFields ∧ t.Misread f r

end Schema

namespace Store

/-! ## Decoding -/

/-- Only unreadable values are refused. -/
theorem Codec.decode_eq_error {c : Codec} {v : Cell} {cause : Cause}
    (h : c.decode v = .error cause) : cause = .undecodable ∧
      v.Unreadable ((ColumnType.ofFieldType? c.fieldType).getD .text) := by
  cases v with
  | garbled g => cases c <;> cases h <;> exact ⟨rfl, by simp, .inr rfl⟩
  | _ =>
    -- One case for each codec and each other kind of value.
    cases c <;> cases h <;> exact ⟨rfl, by simp, .inl rfl⟩

/-- A cell fails to decode only when it is unreadable at its type. -/
theorem decode_eq_error {f : Field} (hf : f.codec.fieldType = f.type) {v : Cell} {cause : Cause}
    (h : f.codec.decode v = .error cause) :
    cause = .undecodable ∧ v.Unreadable f.columnType := by
  rw [Field.columnType, ← hf]
  exact Codec.decode_eq_error h

section Fields

variable {fields : List Field} (hknown : ∀ f ∈ fields, f.codec.fieldType = f.type)
  {g : Field → Cell} {cause : Cause}

include hknown

/-- Cells fail to decode only when one of them is unreadable at its type. -/
theorem decodeEntries_eq_error {p : TablePlan} (hp : p.columns = fields.map Field.dataColumn)
    (h : p.decodeEntries (fields.map g) = .error cause) :
    cause = .undecodable ∧ ∃ f ∈ fields, (g f).Unreadable f.columnType := by
  rw [TablePlan.decodeEntries, hp, List.zip_map'] at h
  rcases Outcome.exists_of_mapM_eq_error h with ⟨x, hx, hdecode⟩
  rcases List.mem_map.1 hx with ⟨f, hf, rfl⟩
  -- A name is put to the value, which cannot fail.
  have hvalue : f.codec.decode (g f) = .error cause := by
    rw [← Outcome.error?_eq_some] at hdecode ⊢
    exact (Outcome.error?_bind_pure _ _).symm.trans hdecode
  rcases decode_eq_error (hknown f hf) hvalue with ⟨hcause, hunreadable⟩
  exact ⟨hcause, f, hf, hunreadable⟩

/-- A main row fails to decode only when one of its cells is unreadable at its type. -/
theorem decodeMain_eq_error {p : TablePlan} (hp : p.columns = fields.map Field.dataColumn)
    {id : Int64} (h : p.decodeMain (.int id :: fields.map g) = .error cause) :
    cause = .undecodable ∧ ∃ f ∈ fields, (g f).Unreadable f.columnType := by
  have hentries : p.decodeEntries (fields.map g) = .error cause := by
    rw [TablePlan.decodeMain, ← Outcome.error?_eq_some] at h
    rw [← Outcome.error?_eq_some, ← h]
    exact (Outcome.error?_bind_pure _ _).symm
  exact decodeEntries_eq_error hknown hp hentries

end Fields

/-- The values of a row under the names of fields, as a selection answers them. -/
theorem map_value (t : Database.Table) (fields : List Field) (r : Row) :
    (fields.map Field.name).map (fun n => (t.operand n).value r) =
      fields.map fun f => (t.operand f.name).value r := by
  rw [List.map_map]
  rfl

/-- The columns that are read of a branch: those of its fields, or the ids if it has none. -/
theorem select_branch (s : Schema) (u : String × Table) : (s.branch u).table.select.columns =
    if (u.2.dataFields.map Field.name).isEmpty then [idColumn] else u.2.dataFields.map Field.name :=
  rfl

section Elements

variable {s : Schema} {u : String × Table}
  (hknown : ∀ f ∈ u.2.dataFields, f.codec.fieldType = f.type) {t : Database.Table} {r : Row}
  {cause : Cause}

include hknown

/-- An element of a list is refused for its value. -/
theorem Branch.decode_list_eq_error (hsound : Table.Sound u.1 u.2) (hlist : u.2.isList = true)
    (h : (s.branch u).decode ((s.branch u).table.select.columns.map fun n =>
      (t.operand n).value r) = .error cause) :
    cause = .undecodable ∧ ∃ f ∈ u.2.dataFields,
      ((t.operand f.name).value r).Unreadable f.columnType := by
  -- A list has one field, and its value is the element.
  rcases Option.isSome_iff_exists.1 (hsound.shape hlist).1 with ⟨f, hf⟩
  have hfields : u.2.dataFields = [f] := by
    rw [Table.dataFields, if_pos hlist, hf]
    rfl
  have hcolumns : (s.branch u).table.columns = u.2.dataFields.map Field.dataColumn := rfl
  have hkind : (s.branch u).kind = .list := if_pos hlist
  rw [select_branch, Branch.decode, hkind, hfields] at h
  have hmem : f ∈ u.2.dataFields := hfields ▸ List.mem_cons_self
  have hvalue : f.codec.decode ((t.operand f.name).value r) = .error cause := by
    dsimp only at h
    unfold TablePlan.decodeElement at h
    rw [hcolumns, hfields] at h
    exact h
  rcases Store.decode_eq_error (hknown f hmem) hvalue with ⟨hcause, hunreadable⟩
  exact ⟨hcause, f, hmem, hunreadable⟩

/-- A mapping is refused for a value of one of its fields. -/
theorem Branch.decode_object_eq_error (hlist : u.2.isList = false)
    (h : (s.branch u).decode ((s.branch u).table.select.columns.map fun n =>
      (t.operand n).value r) = .error cause) :
    cause = .undecodable ∧ ∃ f ∈ u.2.dataFields,
      ((t.operand f.name).value r).Unreadable f.columnType := by
  have hcolumns : (s.branch u).table.columns = u.2.dataFields.map Field.dataColumn := rfl
  have hkind : (s.branch u).kind = .object := if_neg (by simp [hlist])
  rw [select_branch, Branch.decode, hkind] at h
  cases hfields : u.2.dataFields with
  | nil =>
    -- Without fields nothing is decoded.
    rw [hfields] at hcolumns
    simp [TablePlan.decodeEntries, hcolumns, Except.map, pure, Except.pure] at h
  | cons f rest =>
    rw [if_neg (by simp [hfields]), map_value] at h
    have hentries : (s.branch u).table.decodeEntries
        (u.2.dataFields.map fun f => (t.operand f.name).value r) = .error cause := by
      rw [← Outcome.error?_eq_some] at h ⊢
      rw [← h]
      cases (s.branch u).table.decodeEntries _ <;> rfl
    rw [← hfields]
    exact decodeEntries_eq_error hknown hcolumns hentries

/-- An element of a branch is refused for a value of one of its fields. -/
theorem Branch.decode_eq_error (hsound : Table.Sound u.1 u.2)
    (h : (s.branch u).decode ((s.branch u).table.select.columns.map fun n =>
      (t.operand n).value r) = .error cause) :
    cause = .undecodable ∧ ∃ f ∈ u.2.dataFields,
      ((t.operand f.name).value r).Unreadable f.columnType := by
  cases hlist : u.2.isList with
  | true => exact Branch.decode_list_eq_error hknown hsound hlist h
  | false => exact Branch.decode_object_eq_error hknown hlist h

end Elements

/-! ## Reading a branch -/

section Reading

variable {db : Database} {id : Int64} {e : Failure}

/-- Once its rows are selected, a branch fails only for a row that is refused. -/
theorem Branch.grow_eq_error {b : Branch} (hb : b.checkValue = .ok ()) {rows : List (List Cell)}
    (hselect : db.select b.table.select [.int id] = .ok rows)
    (h : (b.grow id).result db = .error e) :
    ∃ row ∈ rows, ∃ cause, b.decode row = .error cause ∧ e = .query .get b.table.name cause := by
  rw [Branch.grow, ((Action.reads_select _ _).reporting _).result_bind
    (Action.result_reporting_eq_ok.2 hselect), hb] at h
  dsimp only at h
  cases hrows : rows.mapM b.decode with
  | ok items =>
    rw [hrows] at h
    cases h
  | error cause =>
    rw [hrows] at h
    cases h
    rcases Outcome.exists_of_mapM_eq_error hrows with ⟨row, hrow, hdecode⟩
    exact ⟨row, hrow, cause, hdecode, rfl⟩

/-- Putting branches together fails only if one of them does. -/
theorem exists_branch_error {branches : List Branch} {trunk : Entries Tree}
    (h : Action.result (branches.foldlM (fun entries b => do
        let items ← b.grow id
        return Entries.put entries b.table.name (.seq items)) trunk) db = .error e) :
    ∃ b ∈ branches, (b.grow id).result db = .error e := by
  -- Induction over the branches, for every trunk that the ones before may have left.
  induction branches generalizing trunk with
  | nil => cases h
  | cons b branches ih =>
    rw [List.foldlM_cons] at h
    rcases ((b.reads_grow id).bind fun _ => Action.reads_pure _).bind_eq_error h with
      hfirst | ⟨entries, -, hrest⟩
    · rcases (b.reads_grow id).bind_eq_error hfirst with hgrow | ⟨items, -, hput⟩
      · exact ⟨b, List.mem_cons_self, hgrow⟩
      · cases hput
    · rcases ih hrest with ⟨b', hb', hgrow⟩
      exact ⟨b', List.mem_cons_of_mem b hb', hgrow⟩

/-- No main row, no document. -/
theorem Plan.growTree_of_nil {p : Plan} (hselect : db.select p.main.select [.int id] = .ok []) :
    (p.growTree id).result db = .error (.notFound p.main.name id) := by
  rw [Plan.growTree, ((Action.reads_select _ _).reporting _).result_bind
    (Action.result_reporting_eq_ok.2 hselect)]
  rfl

/-- With a main row, a document fails for what that row holds or for one of its branches. -/
theorem Plan.growTree_eq_error {p : Plan} {row : List Cell} {rest : List (List Cell)}
    (hselect : db.select p.main.select [.int id] = .ok (row :: rest))
    (h : (p.growTree id).result db = .error e) :
    (∃ cause, p.main.decodeMain row = .error cause ∧ e = .query .get p.main.name cause) ∨
      ∃ b ∈ p.branches, (b.grow id).result db = .error e := by
  rw [Plan.growTree, ((Action.reads_select _ _).reporting _).result_bind
    (Action.result_reporting_eq_ok.2 hselect)] at h
  dsimp only at h
  cases hrow : p.main.decodeMain row with
  | error cause =>
    rw [hrow] at h
    cases h
    exact .inl ⟨cause, rfl, rfl⟩
  | ok trunk =>
    rw [hrow] at h
    exact .inr (exists_branch_error h)

/-- Once its rows are selected, a page is what they are decoded into. -/
theorem Plan.listPage_eq_ok {p : Plan} {w : Window} {rows : List (List Cell)} {page : Page}
    (hselect : db.select p.list w.arguments = .ok rows) :
    (p.listPage w).result db = .ok page ↔
      rows.mapM p.main.decodeMain = .ok page.items ∧ page.offset = w.offset := by
  rw [Plan.listPage, ((Action.reads_select _ _).reporting _).result_bind
    (Action.result_reporting_eq_ok.2 hselect)]
  cases hrows : rows.mapM p.main.decodeMain with
  | ok items =>
    constructor
    · rintro ⟨⟩
      exact ⟨rfl, rfl⟩
    · rintro ⟨hitems, hoffset⟩
      rw [Except.ok.inj hitems, ← hoffset]
      rfl
  | error cause =>
    refine iff_of_false ?_ ?_
    · rintro ⟨⟩
    · rintro ⟨⟨⟩, -⟩

/-- Once its rows are selected, a page fails only for a row that is refused. -/
theorem Plan.listPage_eq_error {p : Plan} {w : Window} {rows : List (List Cell)}
    (hselect : db.select p.list w.arguments = .ok rows) (h : (p.listPage w).result db = .error e) :
    ∃ row ∈ rows, ∃ cause, p.main.decodeMain row = .error cause ∧
      e = .query .list p.main.name cause := by
  rw [Plan.listPage, ((Action.reads_select _ _).reporting _).result_bind
    (Action.result_reporting_eq_ok.2 hselect)] at h
  cases hrows : rows.mapM p.main.decodeMain with
  | ok items =>
    rw [hrows] at h
    cases h
  | error cause =>
    rw [hrows] at h
    cases h
    rcases Outcome.exists_of_mapM_eq_error hrows with ⟨row, hrow, hdecode⟩
    exact ⟨row, hrow, cause, hdecode, rfl⟩

end Reading

/-! ## Tables that fit -/

section Fitted

variable {s : Store} {db : Database} {id : Int64} {e : Failure}

/-- A branch of a fitting table fails only for a misread cell. -/
theorem misreads_of_grow {u : String × Table} (hu : u ∈ s.schema.secondaryTables)
    {t : Database.Table} (ht : db.table? u.1 = some t)
    (hfitted : t.Fitted (s.schema.planted u.1 u.2))
    (h : ((s.schema.branch u).grow id).result db = .error e) :
    e = .query .get u.1 .undecodable ∧ Schema.Misreads db u (s.schema.Source id u.1) := by
  rcases Schema.mem_secondaryTables.1 hu with ⟨hmem, hne⟩
  have hplanted : s.schema.planted u.1 u.2 =
      Column.parent s.schema.mainTable :: u.2.dataFields.map Field.column := if_neg hne
  have hcolumns : ∀ c ∈ Column.parent s.schema.mainTable :: u.2.dataFields.map Field.column,
      c ∈ Column.id :: s.schema.planted u.1 u.2 :=
    fun c hc => List.mem_cons_of_mem _ (hplanted ▸ hc)
  have hselect : db.select (s.schema.branch u).table.select [.int id] = _ :=
    Database.selectSecondary_eq ht (u.2.dataFields.map Field.name) (.int id)
  rcases Branch.grow_eq_error (Schema.checkValue_branch s.schema_sound hu) hselect h with
    ⟨row, hrow, cause, hdecode, rfl⟩
  rcases List.mem_map.1 hrow with ⟨r, hr, rfl⟩
  rcases Branch.decode_eq_error (fun f hf => s.fieldType_codec hmem hf)
    (s.schema_sound.tables u hmem) hdecode with ⟨rfl, f, hf, hunreadable⟩
  rw [hfitted.sorted_eq List.filter_sublist, List.mem_filter] at hr
  -- The row was selected for its `parent_id`, and what is refused is in the column of a field.
  refine ⟨rfl, t, ht, r, f, ⟨hr.1, ?_⟩, hf, ?_⟩
  · have hparent := hcolumns _ List.mem_cons_self
    refine ⟨(t.operand parentColumn).value r, ?_, ?_⟩
    · rw [Schema.keyColumn, if_neg hne]
      exact (hfitted.shows_iff hparent).2 rfl
    · have hholds : t.holds parentColumn (.int id) r =
          ((t.operand parentColumn).value r).equals (.int id) := hfitted.holds_integer hparent rfl
      exact hholds ▸ hr.2
  · have hfield := hcolumns _ (List.mem_cons_of_mem _ (List.mem_map_of_mem hf))
    exact ⟨_, (hfitted.shows_iff hfield).2 rfl, hunreadable⟩

/-- The values that a main row is decoded from: its number and what it shows in the columns of the
main fields. -/
def mainCells (s : Store) (t : Database.Table) (r : Row) : List Cell :=
  .int r.number :: s.schema.mainFields.map fun f => (t.operand f.name).value r

section Main

variable {m : Table} (hm : s.schema.main? = some m) {t : Database.Table}
  (ht : db.table? s.schema.mainTable = some t)
  (hfitted : t.Fitted (s.schema.planted s.schema.mainTable m))

include hfitted

/-- A main selection takes the main cells of a row. -/
theorem map_mainColumns {r : Row} (hr : r ∈ t.rows) :
    (idColumn :: s.schema.mainFields.map Field.name).map (fun n => (t.operand n).value r) =
      s.mainCells t r := by
  rw [List.map_cons, hfitted.value_id hr, map_value]
  rfl

include hm

/-- A main row of a fitting table is refused only for a misread cell. -/
theorem misread_of_decodeMain {r : Row} {cause : Cause}
    (h : s.schema.mainPlan.decodeMain (s.mainCells t r) = .error cause) :
    cause = .undecodable ∧ ∃ f ∈ m.dataFields, t.Misread f r := by
  rcases decodeMain_eq_error s.fieldType_mainCodec rfl h with ⟨hcause, f, hf, hunreadable⟩
  rw [Schema.mainFields_eq hm] at hf
  have hcolumn : f.column ∈ Column.id :: s.schema.planted s.schema.mainTable m := by
    rw [Schema.planted, if_pos rfl]
    exact List.mem_cons_of_mem _ (List.mem_map_of_mem hf)
  exact ⟨hcause, f, hf, _, (hfitted.shows_iff hcolumn).2 rfl, hunreadable⟩

include ht

omit hm in
/-- The main row of an id is selected by it. -/
theorem select_main {r : Row} (hr : r ∈ t.rows) :
    db.select s.schema.plan.main.select [.int r.number] = .ok [s.mainCells t r] := by
  have hselect := Database.selectMain_eq ht (s.schema.mainFields.map Field.name) (.int r.number)
  rwa [hfitted.filter_id hr, List.map_singleton, map_mainColumns hfitted hr] at hselect

omit hm in
/-- A page is selected in the order of the ids. -/
theorem select_list (w : Window) :
    db.select s.schema.plan.list w.arguments = .ok ((w.rows t.rows).map (s.mainCells t)) := by
  have hselect := Database.selectWindow_eq (p := s.schema.mainPlan) ht w
  have hnames : s.schema.mainPlan.columns.map DataColumn.name =
      s.schema.mainFields.map Field.name := List.map_map
  rw [hfitted.sorted_eq (List.Sublist.refl _), hnames] at hselect
  refine hselect.trans (congrArg Except.ok (List.map_congr_left fun r hr => ?_))
  exact map_mainColumns hfitted ((Database.windowed_sublist _ _ t.rows).subset hr)

omit hm in
/-- Without a main row of the id there is no document. -/
theorem get_of_missing (hnone : ∀ r ∈ t.rows, r.number ≠ id) :
    (s.get id).result db = .error (.notFound s.schema.mainTable id) := by
  have hfilter : t.rows.filter (t.holds idColumn (.int id)) = [] := by
    rw [List.filter_eq_nil_iff]
    intro r hr hholds
    exact hnone r hr ((hfitted.holds_id hr).1 hholds)
  have hselect := Database.selectMain_eq ht (s.schema.mainFields.map Field.name) (.int id)
  rw [hfilter] at hselect
  have hget : s.get id = s.schema.plan.growTree id := by rw [get, s.plan_eq]
  rw [hget]
  exact Plan.growTree_of_nil (p := s.schema.plan) hselect

/-- With a main row of the id, a document fails only for a misread cell. -/
theorem misreads_of_get {r : Row} (hr : r ∈ t.rows)
    (hbranches : ∀ u ∈ s.schema.secondaryTables, ∃ t, db.table? u.1 = some t ∧
      t.Fitted (s.schema.planted u.1 u.2))
    (h : (s.get r.number).result db = .error e) :
    ∃ u ∈ s.schema.tables, e = .query .get u.1 .undecodable ∧
      Schema.Misreads db u (s.schema.Source r.number u.1) := by
  rw [get, s.plan_eq] at h
  rcases Plan.growTree_eq_error (select_main ht hfitted hr) h with
    ⟨cause, hrow, rfl⟩ | ⟨b, hb, hgrow⟩
  · rcases misread_of_decodeMain hm hfitted hrow with ⟨rfl, f, hf, hmisread⟩
    refine ⟨_, Schema.mem_of_table? hm, rfl, t, ht, r, f, ⟨hr, ?_⟩, hf, hmisread⟩
    rw [Schema.keyColumn, if_pos rfl]
    exact ⟨_, (hfitted.shows_id hr).2 rfl, Cell.equals_int.2 rfl⟩
  · rcases List.mem_map.1 hb with ⟨u, hu, rfl⟩
    rcases hbranches u hu with ⟨tu, htu, hfittedu⟩
    rcases misreads_of_grow hu htu hfittedu hgrow with ⟨rfl, hmisreads⟩
    exact ⟨u, (Schema.mem_secondaryTables.1 hu).1, rfl, hmisreads⟩

/-- The document of an id stands or falls with the main row that has it. -/
theorem get_found_or_missing (hbranches : ∀ u ∈ s.schema.secondaryTables, ∃ t,
    db.table? u.1 = some t ∧ t.Fitted (s.schema.planted u.1 u.2)) (id : Int64) :
    ((∀ r ∈ t.rows, r.number ≠ id) ∧
      (s.get id).result db = .error (.notFound s.schema.mainTable id)) ∨
    ((∃ r ∈ t.rows, r.number = id) ∧ ∀ e, (s.get id).result db = .error e →
      ∃ u ∈ s.schema.tables, e = .query .get u.1 .undecodable ∧
        Schema.Misreads db u (s.schema.Source id u.1)) := by
  by_cases hrow : ∃ r ∈ t.rows, r.number = id
  · rcases hrow with ⟨r, hr, rfl⟩
    exact .inr ⟨⟨r, hr, rfl⟩, fun e he => misreads_of_get hm ht hfitted hr hbranches he⟩
  · have hnone : ∀ r ∈ t.rows, r.number ≠ id := fun r hr hid => hrow ⟨r, hr, hid⟩
    exact .inl ⟨hnone, get_of_missing ht hfitted hnone⟩

/-- A page fails only for a misread cell of a row that it shows. -/
theorem misreads_of_list {w : Window} (h : (s.list w).result db = .error e) :
    e = .query .list s.schema.mainTable .undecodable ∧
      Schema.Misreads db (s.schema.mainTable, m) fun t r => r ∈ w.rows t.rows := by
  rw [list, s.plan_eq] at h
  rcases Plan.listPage_eq_error (select_list ht hfitted w) h with ⟨row, hrow, cause, hdecode, rfl⟩
  rcases List.mem_map.1 hrow with ⟨r, hr, rfl⟩
  rcases misread_of_decodeMain hm hfitted hdecode with ⟨rfl, f, hf, hmisread⟩
  exact ⟨rfl, t, ht, r, f, hr, hf, hmisread⟩

end Main

end Fitted

/--
In a database that statements have led to and that verifies, a document is found, or it is missing,
which it is exactly when no main row has its id, or a cell that it is read from is unreadable: it
holds a value of another storage class than its column is for, or a text that is not UTF-8.  Then
the failure names the table of that cell.  A page is found or fails for such a cell of the main
table.
-/
theorem read_verified (s : Store) {db : Database} (h : Reachable db)
    (hverify : s.verify.result db = .ok ()) :
    (∀ id, (∃ entries, (s.get id).result db = .ok entries) ∨
      (s.get id).result db = .error (.notFound s.schema.mainTable id) ∨
      ∃ u ∈ s.schema.tables, (s.get id).result db = .error (.query .get u.1 .undecodable) ∧
        Schema.Misreads db u (s.schema.Source id u.1)) ∧
    (∀ id, (s.get id).result db = .error (.notFound s.schema.mainTable id) ↔
      ∀ t, db.table? s.schema.mainTable = some t →
        ∀ r ∈ t.rows, ¬ t.Shows idColumn r (.int id)) ∧
    (∀ w, (∃ page, (s.list w).result db = .ok page) ∨
      ∃ u ∈ s.schema.tables, u.1 = s.schema.mainTable ∧
        (s.list w).result db = .error (.query .list u.1 .undecodable) ∧
        Schema.Misreads db u fun t r => r ∈ w.rows t.rows) := by
  rcases s.schema_sound.main with ⟨m, hm, -⟩
  -- Verifying succeeds, so every table that is read has the columns it is read by.
  have hbranches : ∀ u ∈ s.schema.secondaryTables, ∃ t, db.table? u.1 = some t ∧
      t.Fitted (s.schema.planted u.1 u.2) :=
    fun u hu => s.exists_fitted h hverify (Schema.mem_secondaryTables.1 hu).1
  rcases s.exists_fitted h hverify (Schema.mem_of_table? hm) with ⟨t, ht, hfitted⟩
  have hget := get_found_or_missing hm ht hfitted hbranches
  refine ⟨?_, ?_, ?_⟩
  · intro id
    rcases hget id with ⟨-, hmissing⟩ | ⟨-, herrors⟩
    · exact .inr (.inl hmissing)
    · cases hresult : (s.get id).result db with
      | ok entries => exact .inl ⟨entries, rfl⟩
      | error e =>
        rcases herrors e hresult with ⟨u, hu, rfl, hmisreads⟩
        exact .inr (.inr ⟨u, hu, rfl, hmisreads⟩)
  · intro id
    have hmain : (∀ t', db.table? s.schema.mainTable = some t' →
        ∀ r ∈ t'.rows, ¬ t'.Shows idColumn r (.int id)) ↔ ∀ r ∈ t.rows, r.number ≠ id := by
      constructor
      · intro hnone r hr hid
        exact hnone t ht r hr ((hfitted.shows_id hr).2 hid)
      · intro hnone t' ht' r hr hshows
        obtain rfl : t = t' := Option.some.inj (ht.symm.trans ht')
        exact hnone r hr ((hfitted.shows_id hr).1 hshows)
    rw [hmain]
    rcases hget id with ⟨hnone, hmissing⟩ | ⟨⟨r, hr, hid⟩, herrors⟩
    · exact iff_of_true hmissing hnone
    · refine iff_of_false ?_ fun hnone => hnone r hr hid
      intro hmissing
      rcases herrors _ hmissing with ⟨u, -, hquery, -⟩
      cases hquery
  · intro w
    cases hresult : (s.list w).result db with
    | ok page => exact .inl ⟨page, rfl⟩
    | error e =>
      rcases misreads_of_list hm ht hfitted hresult with ⟨rfl, hmisreads⟩
      exact .inr ⟨_, Schema.mem_of_table? hm, rfl, rfl, hmisreads⟩

/-- A garden in which others have written: a plant with a number of their own, and for it a leaf
that they counted in words. -/
def scribbled : Database :=
  (Action.insert ⟨"leaves", ["parent_id", "count"]⟩ [.int (-4), .text "many"]).after
    ((Action.insert ⟨"plant", ["id", "name"]⟩ [.int (-4), .text "fern"]).after
      (plants.provision.after {}))

/-- The fern cannot be read for its leaf, and no other plant is there. -/
theorem read_verified_scribbled : Reachable scribbled ∧ plants.verify.result scribbled = .ok () ∧
    (∃ u ∈ Schema.plants.tables,
      (plants.get (-4)).result scribbled = .error (.query .get u.1 .undecodable) ∧
      Schema.Misreads scribbled u (Schema.plants.Source (-4) u.1)) ∧
    (plants.get 1).result scribbled = .error (.notFound "plant" 1) := by
  have hprovisioned : Reachable (plants.provision.after {}) :=
    plants.reachable_provision (.empty true)
  have hreachable : Reachable scribbled :=
    (hprovisioned.after_insert _ _).after_insert _ _
  have hverify : plants.verify.result scribbled = .ok () := by decide +kernel
  rcases read_verified plants hreachable hverify with ⟨hget, hmissing, -⟩
  have herror : Outcome.error? ((plants.get (-4)).result scribbled) =
      some (.query .get "leaves" .undecodable) := by decide +kernel
  refine ⟨hreachable, hverify, ?_, (hmissing 1).2 ?_⟩
  · rcases hget (-4) with ⟨entries, hok⟩ | hnone | hmisread
    · rw [hok] at herror
      cases herror
    · rw [hnone] at herror
      cases herror
    · exact hmisread
  · have hrows : (scribbled.table? "plant").map Database.Table.rows =
        some [⟨-4, [.int (-4), .text "fern", .null]⟩] := by decide +kernel
    rintro t ht r hr ⟨i, c, -, -, hcell⟩
    have ht : scribbled.table? "plant" = some t := ht
    rw [ht, Option.map_some] at hrows
    rw [Option.some.inj hrows, List.mem_singleton] at hr
    rw [hr] at hcell
    rcases i with _ | _ | _ | i <;> cases hcell

/-- Plants under a name that others have stored in bytes that are not UTF-8. -/
def blotted : Database :=
  (Action.insert ⟨"plant", ["id", "name"]⟩ [.int 1, .garbled ⟨[0xff], by decide⟩]).after
    (plants.provision.after {})

/-- Neither a document nor a page is found, although every value has the storage class that its
column is for. -/
theorem garbled_refuses : Reachable blotted ∧ plants.verify.result blotted = .ok () ∧
    (∀ u ∈ Schema.plants.tables, ∀ t ∈ blotted.table? u.1, ∀ r ∈ t.rows, ∀ f ∈ u.2.dataFields,
      ∀ v, t.Shows f.name r v → v = .null ∨ v.isOf f.columnType = true) ∧
    Outcome.error? ((plants.get 1).result blotted) = some (.query .get "plant" .undecodable) ∧
    Outcome.error? ((plants.list ⟨0, 10⟩).result blotted) =
      some (.query .list "plant" .undecodable) := by
  have hcells : ∀ u ∈ Schema.plants.tables, ∀ t ∈ blotted.table? u.1, ∀ r ∈ t.rows,
      ∀ f ∈ u.2.dataFields, ∀ x ∈ t.columns.zipIdx, x.1.name = f.name →
        r.cell x.2 = .null ∨ (r.cell x.2).isOf f.columnType = true := by
    decide +kernel
  refine ⟨(plants.reachable_provision (.empty true)).after_insert _ _, by decide +kernel, ?_,
    by decide +kernel, by decide +kernel⟩
  rintro u hu t ht r hr f hf v ⟨i, c, hc, hname, rfl⟩
  exact hcells u hu t ht r hr f hf (c, i) (List.mem_zipIdx_iff_getElem?.2 hc) hname

end Store
end Espalier
