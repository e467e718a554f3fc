import Espalier.Proofs.Sql.Layouts
import Espalier.Proofs.Sql.Rows
import Espalier.Proofs.Store.Gathering

/-!
# Statements and their arguments

A plan makes its statements once, and the code that sends them counts places: arguments stand in
the order of the question marks, and the values of a row in the order of the columns selected.
`Plan.texts_agree` says that the counting is right for every plan.  Read as SQL reads it, each text
gives every argument to the column that it is the value of, and every value that comes back is
decoded as what the column of its name holds.
-/

namespace Espalier

open Database (Action Cell)

/-! ## Statements sent as texts -/

namespace Database

/-- Inserts a row as a text with arguments asks for it. -/
def insertBy (db : Database) (text : String) (arguments : List Cell) :
    Except Failure (Int64 × Database) :=
  match Sql.request? text arguments with
  | some (.insert table values) => db.insert ⟨table, values.map Prod.fst⟩ (values.map Prod.snd)
  | _ => .error .statement

/-- Answers a selection as a text with arguments asks for it. -/
def selectBy (db : Database) (text : String) (arguments : List Cell) :
    Except Failure (List (List Cell)) :=
  match Sql.request? text arguments with
  | some (.select table columns key orderBy window) =>
    db.select ⟨table, columns, key.map Prod.fst, orderBy, window.isSome⟩
      (Sql.selectArguments key window)
  | _ => .error .statement

/-- Sending its text is sending an insertion. -/
theorem insertBy_text {s : Sql.Insert} (htable : Sql.Plain s.table)
    (hcolumns : ∀ c ∈ s.columns, Sql.Plain c) {arguments : List Cell}
    (h : arguments.length = s.columns.length) (db : Database) :
    db.insertBy s.text arguments = db.insert s arguments := by
  have hfst : (s.columns.zip arguments).map Prod.fst = s.columns := List.map_fst_zip (by omega)
  have hsnd : (s.columns.zip arguments).map Prod.snd = arguments := List.map_snd_zip (by omega)
  rw [insertBy, Sql.request?_insert htable hcolumns h]
  dsimp only
  rw [hfst, hsnd]

/-- Sending its text is sending a selection. -/
theorem selectBy_text {s : Sql.Select} (hs : s.Readable) {key : Option (String × Cell)}
    {window : Option (Cell × Cell)} (hkey : s.key = key.map Prod.fst)
    (hwindow : s.window = window.isSome) (db : Database) :
    db.selectBy s.text (Sql.selectArguments key window) =
      db.select s (Sql.selectArguments key window) := by
  rw [selectBy, Sql.request?_select hs hkey hwindow]
  dsimp only
  rw [← hkey, ← hwindow]

/-- The rows of an answer hold the values of the columns selected, in their order. -/
theorem exists_values {db : Database} {s : Sql.Select} {arguments : List Cell}
    {rows : List (List Cell)} (h : db.select s arguments = .ok rows) :
    ∃ values : List (String → Cell), rows = values.map fun value => s.columns.map value := by
  rcases Outcome.bind_eq_ok.1 h with ⟨t, -, h⟩
  obtain ⟨rs, hrows⟩ : ∃ rs : List Row, rows = rs.map fun r =>
      s.columns.map fun name => (t.operand name).value r := ⟨_, (Except.ok.inj h).symm⟩
  refine ⟨rs.map fun r name => (t.operand name).value r, ?_⟩
  rw [hrows, List.map_map]
  rfl

/-- Rows decoded by their places are values decoded by the names of the columns selected. -/
theorem exists_rows_iff {ε α : Type} {db : Database} {s : Sql.Select} {arguments : List Cell}
    {decode : List Cell → Except ε α} {decodeNamed : (String → Cell) → Except ε α}
    (hdecode : ∀ value, decode (s.columns.map value) = decodeNamed value) {items : List α} :
    (∃ rows, db.select s arguments = .ok rows ∧ rows.mapM decode = .ok items) ↔
      ∃ values : List (String → Cell),
        db.select s arguments = .ok (values.map fun value => s.columns.map value) ∧
          values.mapM decodeNamed = .ok items := by
  have hvalues : ∀ values : List (String → Cell),
      (values.map fun value => s.columns.map value).mapM decode = .ok items ↔
        values.mapM decodeNamed = .ok items := by
    intro values
    rw [Outcome.mapM_eq_ok, Outcome.mapM_eq_ok, List.forall₂_map_left_iff]
    simp only [hdecode]
  constructor
  · rintro ⟨rows, hrows, hitems⟩
    obtain ⟨values, rfl⟩ := exists_values hrows
    exact ⟨values, hrows, (hvalues values).1 hitems⟩
  · rintro ⟨values, hrows, hitems⟩
    exact ⟨_, hrows, (hvalues values).2 hitems⟩

end Database

namespace Store

/-! ## Rows by the names of their columns -/

def TablePlan.names (t : TablePlan) : List String :=
  t.columns.map DataColumn.name

/-- The text of a table asks for a row in which the reference to the main row, if there is one, has
its id, and the data columns have cells in order. -/
def TablePlan.Gives (t : TablePlan) (parent : Option Int64) (cells : List Cell) : Prop :=
  Sql.Asks t.insert.text (parent.toList.map Cell.int ++ cells)
    (.insert t.name (parent.toList.map (fun id => (parentColumn, Cell.int id)) ++
      t.names.zip cells))

/--
An action inserts one row of a table, in which each data column has a value: what it sends is the
text of the table with the id of the main row, if there is one, and the encoded values, and the text
gives each of them to its column.
-/
structure TablePlan.Inserts (t : TablePlan) (parent : Option Int64) (value : DataColumn → Tree)
    (cells : List Cell) (act : Action Failure Int64) : Prop where
  encoded : List.Forall₂ (fun c cell => c.codec.encode c.name (value c) = .ok cell) t.columns cells
  gives : t.Gives parent cells
  sent : act = (Action.change fun db =>
    db.insertBy t.insert.text (parent.toList.map Cell.int ++ cells)).reporting
      fun f => t.insertFailure (.database f)

/-- What an element of a branch has for a data column: an element of a list is its one value. -/
def Branch.part (b : Branch) (element : Tree) (c : DataColumn) : Tree :=
  match b.kind, element with
  | .object, .map entries => (Entries.get? entries c.name).getD .null
  | .object, _ => .null
  | .list, element => element

/-- The columns that are read of a branch: those of its data, or the ids if it has none. -/
def Branch.projection (b : Branch) : List String :=
  if b.table.names.isEmpty then [idColumn] else b.table.names

/-- The entries of the data columns, each decoded from the value of its name. -/
def TablePlan.decodeNamed (t : TablePlan) (value : String → Cell) : Except Cause (Entries Tree) :=
  t.columns.mapM fun c => do
    let tree ← c.codec.decode (value c.name)
    return (c.name, tree)

/-- The entries of a main row, its id under that name. -/
def TablePlan.decodeMainNamed (t : TablePlan) (value : String → Cell) :
    Except Cause (Entries Tree) :=
  match value idColumn with
  | .int id => do
    let entries ← t.decodeNamed value
    return Entries.merge [(idColumn, .int id)] entries
  | _ => .error .undecodable

/-- Row cells in the order of the columns decode as the cells under their names. -/
theorem TablePlan.decodeEntries_map (t : TablePlan) (value : String → Cell) :
    t.decodeEntries (t.names.map value) = t.decodeNamed value := by
  unfold decodeEntries decodeNamed names
  induction t.columns with
  | nil => rfl
  | cons c cs ih =>
    rw [List.map_cons, List.map_cons, List.zip_cons_cons, List.mapM_cons, List.mapM_cons, ih]

/-- Main cells in the order of the columns decode as the cells under their names. -/
theorem TablePlan.decodeMain_map (t : TablePlan) (value : String → Cell) :
    t.decodeMain ((idColumn :: t.names).map value) = t.decodeMainNamed value := by
  unfold decodeMain decodeMainNamed
  rw [List.map_cons]
  cases value idColumn with
  | int id => simp only [decodeEntries_map]
  | _ => rfl

/-- The element of a branch, decoded from the values of the names of its columns. -/
def Branch.decodeNamed (b : Branch) (value : String → Cell) : Except Cause Tree :=
  match b.kind, b.table.columns with
  | .list, c :: _ => c.codec.decode (value c.name)
  | .list, [] => .error .undecodable
  | .object, _ => (b.table.decodeNamed value).map fun entries => .map (Entries.ofPairs entries)

/-- Branch cells in the order of the projection decode as the cells under their names. -/
theorem Branch.decode_map (b : Branch) (value : String → Cell) :
    b.decode (b.projection.map value) = b.decodeNamed value := by
  rcases b with ⟨kind, table⟩
  have hentries := table.decodeEntries_map value
  unfold decode decodeNamed projection TablePlan.decodeElement
  unfold TablePlan.names at hentries ⊢
  cases hcolumns : table.columns with
  | nil =>
    -- A table without data is read by its ids, and none of them is decoded.
    cases kind with
    | list => rfl
    | object => simp [TablePlan.decodeEntries, TablePlan.decodeNamed, hcolumns]
  | cons c cs =>
    rw [hcolumns] at hentries
    cases kind with
    | list => rfl
    | object =>
      exact congrArg (Except.map fun entries => Tree.map (Entries.ofPairs entries)) hentries

/-! ## Texts of a plan -/

section Inserting

variable {t : TablePlan} {parent : Option Int64}
  (hinsert : t.insert = ⟨t.name, parent.toList.map (fun _ => parentColumn) ++ t.names⟩)
  (hname : Sql.Plain t.name) (hnames : ∀ n ∈ t.names, Sql.Plain n) {cells : List Cell}

include hinsert hname hnames

/-- A text that names the reference to the main row, if there is one, and the data columns in order
gives them the id and the cells. -/
theorem TablePlan.insertBy_text (hlength : cells.length = t.columns.length) :
    t.Gives parent cells ∧
      ∀ db : Database, db.insertBy t.insert.text (parent.toList.map Cell.int ++ cells) =
        db.insert t.insert (parent.toList.map Cell.int ++ cells) := by
  have htable : Sql.Plain t.insert.table := by
    rw [hinsert]
    exact hname
  have hcolumns : ∀ c ∈ t.insert.columns, Sql.Plain c := by
    rw [hinsert]
    intro c hc
    rcases List.mem_append.1 hc with hc | hc
    · rcases List.mem_map.1 hc with ⟨_, -, rfl⟩
      exact plain_parentColumn
    · exact hnames c hc
  have harguments : (parent.toList.map Cell.int ++ cells).length = t.insert.columns.length := by
    rw [hinsert]
    simp [names, hlength]
  refine ⟨Sql.asks_of_request? ?_, Database.insertBy_text htable hcolumns harguments⟩
  rw [Sql.request?_insert htable hcolumns harguments, hinsert]
  cases parent <;> rfl

/-- A row with encoded values is inserted by the text of its table. -/
theorem TablePlan.inserts_insertCells {value : DataColumn → Tree}
    (hencoded : List.Forall₂ (fun c cell => c.codec.encode c.name (value c) = .ok cell) t.columns
      cells) :
    t.Inserts parent value cells (t.insertCells parent cells) := by
  obtain ⟨hgives, hsend⟩ :=
    TablePlan.insertBy_text hinsert hname hnames hencoded.length_eq.symm
  refine ⟨hencoded, hgives, ?_⟩
  simp only [hsend]
  rfl

end Inserting

/-- The data columns of fields have their names. -/
theorem map_name_dataColumn (fields : List Field) :
    (fields.map Field.dataColumn).map DataColumn.name = fields.map Field.name :=
  List.map_map

section Planned

variable {s : Schema}

theorem insert_main : s.plan.main.insert = ⟨s.plan.main.name, s.plan.main.names⟩ :=
  congrArg (Sql.Insert.mk s.mainTable) (map_name_dataColumn _).symm

theorem select_mainNames :
    s.plan.main.select = TablePlan.selectMain s.plan.main.name s.plan.main.names :=
  congrArg (TablePlan.selectMain s.mainTable) (map_name_dataColumn _).symm

section Branches

variable {b : Branch} (hb : b ∈ s.plan.branches)

include hb

theorem insert_branchTable :
    b.table.insert = ⟨b.table.name, parentColumn :: b.table.names⟩ := by
  rcases List.mem_map.1 hb with ⟨u, -, rfl⟩
  exact congrArg (fun names => Sql.Insert.mk u.1 (parentColumn :: names))
    (map_name_dataColumn _).symm

theorem select_branchTable :
    b.table.select = TablePlan.selectSecondary b.table.name b.table.names := by
  rcases List.mem_map.1 hb with ⟨u, -, rfl⟩
  exact congrArg (TablePlan.selectSecondary u.1) (map_name_dataColumn _).symm

end Branches

variable (hsound : s.Sound)

include hsound

theorem plain_mainNames : ∀ n ∈ s.plan.main.names, Sql.Plain n := by
  rcases Schema.mainSound hsound with ⟨m, hm, -, hmain⟩
  have hnames : s.plan.main.names = s.mainFields.map Field.name := map_name_dataColumn _
  rw [hnames, Schema.mainFields_eq hm]
  intro n hn
  rcases List.mem_map.1 hn with ⟨f, hf, rfl⟩
  exact Ascii.plain_of_isIdentifier (hmain.fields f hf).1

theorem readable_main : s.plan.main.select.Readable := by
  rw [select_mainNames]
  exact
    { table := Schema.plain_mainTable hsound
      columns := List.forall_mem_cons.2 ⟨plain_idColumn, plain_mainNames hsound⟩
      nonempty := List.cons_ne_nil _ _
      key := by
        rintro k ⟨⟩
        exact plain_idColumn
      orderBy := nofun }

theorem readable_list : s.plan.list.Readable where
  table := Schema.plain_mainTable hsound
  columns := List.forall_mem_cons.2 ⟨plain_idColumn, plain_mainNames hsound⟩
  nonempty := List.cons_ne_nil _ _
  key := nofun
  orderBy := by
    rintro k ⟨⟩
    exact plain_idColumn

variable {b : Branch} (hb : b ∈ s.plan.branches)

include hb

/-- The names of a branch and its columns can be quoted. -/
theorem plain_branchTable : Sql.Plain b.table.name ∧ ∀ n ∈ b.table.names, Sql.Plain n := by
  rcases List.mem_map.1 hb with ⟨u, hu, rfl⟩
  have hu' := (Schema.mem_secondaryTables.1 hu).1
  have hnames : (s.branch u).table.names = u.2.dataFields.map Field.name := map_name_dataColumn _
  refine ⟨Schema.plain_table hsound hu', ?_⟩
  rw [hnames]
  intro n hn
  rcases List.mem_map.1 hn with ⟨f, hf, rfl⟩
  exact Ascii.plain_of_isIdentifier ((hsound.tables u hu').fields f hf).1

theorem readable_branch : b.table.select.Readable := by
  obtain ⟨htable, hnames⟩ := plain_branchTable hsound hb
  rw [select_branchTable hb]
  refine ⟨htable, ?_, ?_, ?_, ?_⟩
  · intro c hc
    rw [TablePlan.selectSecondary] at hc
    split at hc
    · exact List.mem_singleton.1 hc ▸ plain_idColumn
    · exact hnames c hc
  · rw [TablePlan.selectSecondary]
    dsimp only
    split
    · exact List.cons_ne_nil _ _
    · rename_i h
      exact fun hnil => h (List.isEmpty_iff.2 hnil)
  · rintro k ⟨⟩
    exact plain_parentColumn
  · rintro n ⟨⟩
    exact plain_idColumn

end Planned

/-! ## Insertions -/

section Insertions

variable {s : Schema} (hsound : s.Sound)

include hsound

/-- The text of the main table gives cells to the main fields and is sent as the insertion is. -/
theorem insertBy_main {cells : List Cell} (hlength : cells.length = s.plan.main.columns.length) :
    s.plan.main.Gives none cells ∧ ∀ db : Database,
      db.insertBy s.plan.main.insert.text cells = db.insert s.plan.main.insert cells :=
  TablePlan.insertBy_text insert_main (Schema.plain_mainTable hsound)
    (plain_mainNames hsound) hlength

/-- The main row of a document is inserted by the text of the main table. -/
theorem inserts_main {entries : Entries Tree} {cells : List Cell}
    (h : s.plan.main.encodeEntries entries = .ok cells) :
    s.plan.main.Inserts none (fun c => (Entries.get? entries c.name).getD .null) cells
      (s.plan.main.insertEntries none entries) := by
  have hact : s.plan.main.insertEntries none entries = s.plan.main.insertCells none cells := by
    rw [TablePlan.insertEntries, h]
  rw [hact]
  exact TablePlan.inserts_insertCells insert_main (Schema.plain_mainTable hsound)
    (plain_mainNames hsound) (Outcome.mapM_eq_ok.1 h)

/-- The text of a branch gives an id to the reference and cells to the data columns, and is sent as
the insertion is. -/
theorem insertBy_branch {b : Branch} (hb : b ∈ s.plan.branches) (id : Int64) {cells : List Cell}
    (hlength : cells.length = b.table.columns.length) :
    b.table.Gives (some id) cells ∧ ∀ db : Database,
      db.insertBy b.table.insert.text (.int id :: cells) =
        db.insert b.table.insert (.int id :: cells) := by
  obtain ⟨htable, hnames⟩ := plain_branchTable hsound hb
  exact TablePlan.insertBy_text (insert_branchTable hb) htable hnames hlength

/-- An element of a branch is inserted by the text of its table. -/
theorem inserts_branch {b : Branch} (hb : b ∈ s.plan.branches) (id : Int64) {element : Tree}
    {cells : List Cell} (h : b.encode element = .ok cells) :
    b.table.Inserts (some id) (b.part element) cells (b.insertElement id element) := by
  obtain ⟨htable, hnames⟩ := plain_branchTable hsound hb
  have hact : b.insertElement id element = b.table.insertCells (some id) cells := by
    have hcolumn : b.kind = .list → ∃ c, b.table.columns = [c] := fun hlist =>
      (valueColumn_plan (Schema.validate_eq_ok.2 hsound) hb hlist).imp fun _ hc => hc.1
    rw [Branch.insertElement_eq hcolumn, Writing.act, h]
  have hencoded : List.Forall₂ (fun c cell =>
      c.codec.encode c.name (b.part element c) = .ok cell) b.table.columns cells := by
    unfold Branch.encode at h
    unfold Branch.part
    split at h
    · rename_i hkind
      rw [hkind]
      exact Outcome.mapM_eq_ok.1 h
    · rename_i hkind
      rw [hkind]
      exact Outcome.mapM_eq_ok.1 h
    · cases h
  rw [hact]
  exact TablePlan.inserts_insertCells (insert_branchTable hb) htable hnames hencoded

/-- Rows of branches that refer to a main row, sent one after the other. -/
inductive SentBy (id : Int64) : Database → List Writing → Database → Prop
  | nil (db : Database) : SentBy id db [] db
  | cons {w : Writing} {ws : List Writing} {cells : List Cell} {n : Int64}
      {db db' db'' : Database} (hcells : w.cells = .ok cells)
      (hsent : db.insertBy w.table.insert.text (.int id :: cells) = .ok (n, db'))
      (h : SentBy id db' ws db'') : SentBy id db (w :: ws) db''

/-- A row of a branch is written by the text of its table. -/
theorem insertBy_writing {b : Branch} (hb : b ∈ s.plan.branches) {value : Option Tree}
    {w : Writing} (hw : w ∈ b.writings value) {cells : List Cell} (hcells : w.cells = .ok cells)
    (id : Int64) (db : Database) : db.insertBy w.table.insert.text (.int id :: cells) =
      db.insert w.table.insert (.int id :: cells) := by
  rcases Branch.exists_item hw hcells with ⟨items, item, -, rfl⟩
  have hlength := (inserts_branch hsound hb id hcells).encoded.length_eq
  exact (insertBy_branch hsound hb id hlength.symm).2 db

/-- The writings after the main row are rows sent by texts. -/
theorem written_iff_sentBy {id : Int64} {ws : List Writing}
    (hws : ∀ w ∈ ws, ∃ b ∈ s.plan.branches, ∃ value, w ∈ b.writings value) {db db' : Database} :
    Written ⟨some id, db⟩ ws ⟨some id, db'⟩ ↔ SentBy id db ws db' := by
  induction ws generalizing db with
  | nil =>
    rw [written_nil_iff]
    constructor
    · rintro ⟨⟩
      exact .nil _
    · rintro ⟨⟩
      rfl
  | cons w ws ih =>
    rw [List.forall_mem_cons] at hws
    rcases hws with ⟨⟨b, hb, value, hw⟩, hws⟩
    rw [written_cons_iff]
    constructor
    · rintro ⟨⟨parent, db₁⟩, hwrite, hrest⟩
      rcases Writing.write_eq_ok.1 hwrite with ⟨cells, n, hcells, hinsert, hparent⟩
      cases hparent
      exact .cons hcells ((insertBy_writing hsound hb hw hcells id db).trans hinsert)
        ((ih hws).1 hrest)
    · rintro (_ | @⟨_, _, cells, n, _, db₁, _, hcells, hsent, hrest⟩)
      rw [insertBy_writing hsound hb hw hcells id db] at hsent
      exact ⟨⟨some id, db₁⟩, Writing.write_eq_ok.2 ⟨cells, n, hcells, hsent, rfl⟩,
        (ih hws).2 hrest⟩

/-- A document is inserted by sending the text of the main table and then those of its branches. -/
theorem insertTree_eq_ok {entries : Entries Tree} {db db' : Database} {id : Int64} :
    (s.plan.insertTree entries).run db = (.ok id, db') ↔
      ∃ cells db₁, s.plan.main.encodeEntries entries = .ok cells ∧
        db.insertBy s.plan.main.insert.text cells = .ok (id, db₁) ∧
        SentBy id db₁ (s.plan.branches.flatMap fun b =>
          b.writings (Entries.get? entries b.table.name)) db' := by
  have hregular : s.plan.Regular := fun b hb hlist =>
    (valueColumn_plan (Schema.validate_eq_ok.2 hsound) hb hlist).imp fun _ hc => hc.1
  have hws : ∀ w ∈ s.plan.branches.flatMap
      (fun b => b.writings (Entries.get? entries b.table.name)),
      ∃ b ∈ s.plan.branches, ∃ value, w ∈ b.writings value := by
    intro w hw
    rcases List.mem_flatMap.1 hw with ⟨b, hb, hw⟩
    exact ⟨b, hb, _, hw⟩
  rw [(run_insertTree hregular entries db).1, Plan.writings, written_cons_iff]
  have hmain : ∀ {cells}, s.plan.main.encodeEntries entries = .ok cells →
      db.insertBy s.plan.main.insert.text cells = db.insert s.plan.main.insert cells := by
    intro cells hcells
    have hlength := (inserts_main hsound hcells).encoded.length_eq
    exact (insertBy_main hsound hlength.symm).2 db
  constructor
  · rintro ⟨⟨parent, db₁⟩, hwrite, hrest⟩
    rcases Writing.write_eq_ok.1 hwrite with ⟨cells, n, hcells, hinsert, hparent⟩
    cases hparent
    -- The id is the number of the first row, and no later row changes it.
    obtain rfl : id = n := Option.some.inj (hrest.parent_eq rfl)
    exact ⟨cells, db₁, hcells, (hmain hcells).trans hinsert,
      (written_iff_sentBy hsound hws).1 hrest⟩
  · rintro ⟨cells, db₁, hcells, hsent, hrest⟩
    rw [hmain hcells] at hsent
    exact ⟨⟨some id, db₁⟩, Writing.write_eq_ok.2 ⟨cells, id, hcells, hsent, rfl⟩,
      (written_iff_sentBy hsound hws).2 hrest⟩

end Insertions

/-! ## Selections -/

/-- A selection by a key asks for the rows with the one argument that it is sent with. -/
theorem asks_key {s : Sql.Select} (hs : s.Readable) {k : String} (hkey : s.key = some k)
    (hwindow : s.window = false) (a : Cell) :
    Sql.Asks s.text [a] (.select s.table s.columns (some (k, a)) s.orderBy none) ∧
      ∀ db : Database, db.selectBy s.text [a] = db.select s [a] := by
  have harguments : Sql.selectArguments (some (k, a)) none = [a] := rfl
  have hkey' : s.key = (some (k, a)).map Prod.fst := hkey
  have hwindow' : s.window = (none : Option (Cell × Cell)).isSome := hwindow
  have hread := Sql.request?_select hs hkey' hwindow'
  have hselect := Database.selectBy_text hs hkey' hwindow'
  rw [harguments] at hread hselect
  exact ⟨Sql.asks_of_request? hread, hselect⟩

section Selections

variable {s : Schema} (hsound : s.Sound)

include hsound

/-- The main row of a document is selected by its text and the id. -/
theorem asks_main (id : Int64) :
    Sql.Asks s.plan.main.select.text [Cell.int id] (.select s.plan.main.name
        (idColumn :: s.plan.main.names) (some (idColumn, .int id)) none none) ∧
      ∀ db : Database, db.selectBy s.plan.main.select.text [.int id] =
        db.select s.plan.main.select [.int id] := by
  have hreadable := readable_main hsound
  rw [select_mainNames] at hreadable ⊢
  exact asks_key hreadable rfl rfl (.int id)

/-- The rows of a branch are selected by its text and the id of the main row. -/
theorem asks_branch {b : Branch} (hb : b ∈ s.plan.branches) (id : Int64) :
    Sql.Asks b.table.select.text [Cell.int id] (.select b.table.name b.projection
        (some (parentColumn, .int id)) (some idColumn) none) ∧
      ∀ db : Database, db.selectBy b.table.select.text [.int id] =
        db.select b.table.select [.int id] := by
  have hreadable := readable_branch hsound hb
  rw [select_branchTable hb] at hreadable ⊢
  exact asks_key hreadable rfl rfl (.int id)

/-- A page is selected by its text, the limit and the offset. -/
theorem asks_list (w : Window) :
    Sql.Asks s.plan.list.text w.arguments (.select s.plan.main.name
        (idColumn :: s.plan.main.names) none (some idColumn)
        (some (.int (if w.limit = 0 then -1 else Window.clamp w.limit),
          .int (Window.clamp w.offset)))) ∧
      ∀ db : Database, db.selectBy s.plan.list.text w.arguments =
        db.select s.plan.list w.arguments := by
  have hreadable := readable_list hsound
  rw [Window.arguments]
  generalize Cell.int (if w.limit = 0 then -1 else Window.clamp w.limit) = limit
  generalize Cell.int (Window.clamp w.offset) = offset
  have hkey : s.plan.list.key = (none : Option (String × Cell)).map Prod.fst := rfl
  have hwindow : s.plan.list.window = (some (limit, offset)).isSome := rfl
  have harguments : Sql.selectArguments (none : Option (String × Cell)) (some (limit, offset)) =
    [limit, offset] := rfl
  have hread := Sql.request?_select hreadable hkey hwindow
  have hselect := Database.selectBy_text hreadable hkey hwindow
  rw [harguments] at hread hselect
  exact ⟨Sql.asks_of_request? hread, hselect⟩

end Selections

/-- A page is what the rows of its window are decoded into. -/
theorem exists_rows_of_listPage {p : Plan} {w : Window} {db : Database} {page : Page} :
    (p.listPage w).result db = .ok page ↔ (∃ rows, db.select p.list w.arguments = .ok rows ∧
      rows.mapM p.main.decodeMain = .ok page.items) ∧ page.offset = w.offset := by
  constructor
  · intro h
    rcases ((Action.reads_select _ _).reporting _).bind_eq_ok.1 h with ⟨rows, hrows, -⟩
    have hselect := Action.result_reporting_eq_ok.1 hrows
    obtain ⟨hitems, hoffset⟩ := (Plan.listPage_eq_ok hselect).1 h
    exact ⟨⟨rows, hselect, hitems⟩, hoffset⟩
  · rintro ⟨⟨rows, hselect, hitems⟩, hoffset⟩
    exact (Plan.listPage_eq_ok hselect).2 ⟨hitems, hoffset⟩

/-! ## Plans whose texts agree with the code -/

namespace Plan

/-- Documents are inserted by the texts of a plan. -/
structure InsertsByText (p : Plan) : Prop where
  /-- Inserting a document sends the text of the main table and then those of the branches, with the
  id of the main row before the values of each row. -/
  document : ∀ entries db id db', (p.insertTree entries).run db = (.ok id, db') ↔
    ∃ cells db₁, p.main.encodeEntries entries = .ok cells ∧
      db.insertBy p.main.insert.text cells = .ok (id, db₁) ∧
      SentBy id db₁ (p.branches.flatMap fun b =>
        b.writings (Entries.get? entries b.table.name)) db'
  /-- Whatever the cells are, each has its question mark and its column. -/
  mainText : ∀ cells, cells.length = p.main.columns.length → p.main.Gives none cells
  branchText : ∀ b ∈ p.branches, ∀ id cells, cells.length = b.table.columns.length →
    b.table.Gives (some id) cells
  main : ∀ entries cells, p.main.encodeEntries entries = .ok cells →
    p.main.Inserts none (fun c => (Entries.get? entries c.name).getD .null) cells
      (p.main.insertEntries none entries)
  /-- A main table without data columns has a form of its own that takes no arguments. -/
  bare : p.main.columns = [] →
    p.main.insert.text = "INSERT INTO " ++ Sql.quoted p.main.name ++ " DEFAULT VALUES" ∧
      Sql.Asks p.main.insert.text ([] : List Cell) (.insert p.main.name [])
  branch : ∀ b ∈ p.branches, ∀ id element cells, b.encode element = .ok cells →
    b.table.Inserts (some id) (b.part element) cells (b.insertElement id element)

/-- Documents and pages are selected by the texts of a plan: a document and its branches by the id,
a page by the limit and the offset.  Each row that comes back is decoded as what stands under the
names of the columns selected. -/
structure SelectsByText (p : Plan) : Prop where
  document : ∀ id, Sql.Asks p.main.select.text [Cell.int id]
      (.select p.main.name (idColumn :: p.main.names) (some (idColumn, .int id)) none none) ∧
    ∀ db entries, (p.growTree id).result db = .ok entries ↔
      ∃ value rest trunk grown, db.selectBy p.main.select.text [.int id] =
          .ok ((idColumn :: p.main.names).map value :: rest) ∧
        p.main.decodeMainNamed value = .ok trunk ∧
        List.Forall₂ (fun b items => (b.grow id).result db = .ok items) p.branches grown ∧
        entries = Entries.merge trunk
          ((p.branches.zip grown).map fun x => (x.1.table.name, .seq x.2))
  branch : ∀ b ∈ p.branches, ∀ id, Sql.Asks b.table.select.text [Cell.int id]
      (.select b.table.name b.projection (some (parentColumn, .int id)) (some idColumn) none) ∧
    ∀ db items, (b.grow id).result db = .ok items ↔
      ∃ values : List (String → Cell), db.selectBy b.table.select.text [.int id] =
          .ok (values.map fun value => b.projection.map value) ∧
        values.mapM b.decodeNamed = .ok items
  page : ∀ w : Window, Sql.Asks p.list.text w.arguments
      (.select p.main.name (idColumn :: p.main.names) none (some idColumn)
        (some (.int (if w.limit = 0 then -1 else Window.clamp w.limit),
          .int (Window.clamp w.offset)))) ∧
    ∀ db page, (p.listPage w).result db = .ok page ↔
      ∃ values : List (String → Cell), db.selectBy p.list.text w.arguments =
          .ok (values.map fun value => (idColumn :: p.main.names).map value) ∧
        values.mapM p.main.decodeMainNamed = .ok page.items ∧ page.offset = w.offset

section Sound

variable {s : Schema} (hsound : s.Sound)

include hsound

theorem insertsByText : s.plan.InsertsByText where
  document _ _ _ _ := insertTree_eq_ok hsound
  mainText _ hlength := (insertBy_main hsound hlength).1
  branchText _ hb id _ hlength := (insertBy_branch hsound hb id hlength).1
  main _ _ hcells := inserts_main hsound hcells
  bare := by
    intro hcolumns
    have hnames : s.plan.main.names = [] := congrArg (List.map DataColumn.name) hcolumns
    have hinsert : s.plan.main.insert = ⟨s.plan.main.name, []⟩ := hnames ▸ insert_main
    have hlength : ([] : List Cell).length = s.plan.main.columns.length :=
      (congrArg List.length hcolumns).symm
    have hgives := (insertBy_main hsound hlength).1
    rw [TablePlan.Gives, hnames, hinsert] at hgives
    rw [hinsert]
    exact ⟨rfl, hgives⟩
  branch _ hb id _ _ hcells := inserts_branch hsound hb id hcells

theorem selectsByText : s.plan.SelectsByText where
  document := by
    intro id
    obtain ⟨hasks, hselect⟩ := asks_main hsound id
    -- The plan decodes cells by place and the statement gives them by name; the two agree as the
    -- selected columns are the decoded ones.
    have hcolumns : s.plan.main.select.columns = idColumn :: s.plan.main.names := by
      rw [select_mainNames]
      rfl
    refine ⟨hasks, fun db entries => ?_⟩
    rw [hselect, Plan.growTree_eq_ok]
    constructor
    · rintro ⟨row, rest, trunk, grown, hrows, hdecode, hgrown, hentries⟩
      rcases Database.exists_values hrows with ⟨_ | ⟨value, values⟩, hvalues⟩
      · cases hvalues
      obtain ⟨rfl, rfl⟩ := List.cons.inj hvalues
      rw [hcolumns] at hrows hdecode
      rw [TablePlan.decodeMain_map] at hdecode
      exact ⟨value, _, trunk, grown, hrows, hdecode, hgrown, hentries⟩
    · rintro ⟨value, rest, trunk, grown, hrows, hdecode, hgrown, hentries⟩
      rw [← TablePlan.decodeMain_map] at hdecode
      exact ⟨_, rest, trunk, grown, hrows, hdecode, hgrown, hentries⟩
  branch := by
    intro b hb id
    obtain ⟨hasks, hselect⟩ := asks_branch hsound hb id
    have hcolumns : b.table.select.columns = b.projection := by
      rw [select_branchTable hb]
      rfl
    refine ⟨hasks, fun db items => ?_⟩
    rw [hselect, ← hcolumns]
    have hdecode : ∀ value, b.decode (b.table.select.columns.map value) = b.decodeNamed value := by
      rw [hcolumns]
      exact b.decode_map
    rw [← Database.exists_rows_iff hdecode]
    rcases List.mem_map.1 hb with ⟨u, hu, rfl⟩
    exact Branch.grow_eq_ok (Schema.checkValue_branch hsound hu)
  page := by
    intro w
    obtain ⟨hasks, hselect⟩ := asks_list hsound w
    refine ⟨hasks, fun db page => ?_⟩
    rw [hselect, exists_rows_of_listPage,
      Database.exists_rows_iff (s := s.plan.list) s.plan.main.decodeMain_map]
    simp only [exists_and_right, ← and_assoc]
    rfl

end Sound

/--
The texts of every plan and the code that uses them agree.  An insertion names the reference to the
main row, if there is one, and the data columns in order, and its arguments are the id and the
encodings of what the row has under those names.  The selections take the arguments that they are
sent with, one for each question mark and in that order, and the values that come back are decoded
as those of the columns that the texts select.
-/
theorem texts_agree (s : Schema) (p : Plan) (h : Plan.ofSchema s = .ok p) :
    p.InsertsByText ∧ p.SelectsByText := by
  obtain ⟨hfault, rfl⟩ := Plan.ofSchema_eq_ok.1 h
  have hsound := Schema.validate_eq_ok.1 (Schema.fault?_eq_none.1 hfault).1
  exact ⟨insertsByText hsound, selectsByText hsound⟩

end Plan
end Store

/-- Plots without data of their own, with a list of tags, and with stakes that have none either. -/
def Schema.plots : Schema :=
  .ofTables "plot"
    [("plot", {}),
      ("tags", { isList := true, valueField := some ⟨"label", .string⟩ }),
      ("stakes", {})]

/-- A plot is inserted without arguments, a tag after the id of its plot, and the stakes of a plot
are selected by their ids. -/
theorem Store.Plan.texts_agree_plots :
    Plan.ofSchema Schema.plots = .ok Schema.plots.plan ∧
      Schema.plots.plan.main.insert.text = "INSERT INTO \"plot\" DEFAULT VALUES" ∧
      Sql.Asks "INSERT INTO \"tags\" (\"parent_id\", \"label\") VALUES (?, ?)"
        [Cell.int 1, .text "old"] (.insert "tags" [("parent_id", .int 1), ("label", .text "old")]) ∧
      Sql.Asks "SELECT \"id\" FROM \"stakes\" WHERE \"parent_id\" = ? ORDER BY \"id\""
        [Cell.int 1] (.select "stakes" ["id"] (some ("parent_id", .int 1)) (some "id") none) := by
  have hplan : Plan.ofSchema Schema.plots = .ok Schema.plots.plan := rfl
  obtain ⟨hinserts, hselects⟩ := Plan.texts_agree Schema.plots Schema.plots.plan hplan
  have htags : Schema.plots.branch ("tags", ⟨[], true, some ⟨"label", .string⟩⟩) ∈
      Schema.plots.plan.branches := by decide
  have hstakes : Schema.plots.branch ("stakes", ⟨[], false, none⟩) ∈
      Schema.plots.plan.branches := by decide
  exact ⟨hplan, (hinserts.bare rfl).1,
    (hinserts.branch _ htags 1 (.text "old") [.text "old"] rfl).gives,
    (hselects.branch _ hstakes 1).1⟩

end Espalier
