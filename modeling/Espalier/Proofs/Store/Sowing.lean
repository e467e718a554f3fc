import Espalier.Proofs.Store.Tending
import Espalier.Proofs.Store.Writing

/-!
# Sowing a document

What an insertion does to a tended database: the main row goes to the end of the main table under
the next id, and each element of a branch becomes a row at the end of the table of the branch, with
that id in front of its values.  `Grew` collects what is known when all rows are written.
-/

namespace Espalier

open Database (Cell Row)

namespace Schema

/-! ## One row -/

/-- One row more at the end of a table, under the number that its counter has come to. -/
structure Sows (name : String) (r : Row) (db db' : Database) : Prop where
  number : r.number.toInt = db.counterOf name + 1
  rows : ∀ other, db'.rowsOf other =
    db.rowsOf other ++ if Ascii.sameName name other then [r] else []
  counter : ∀ other, db'.counterOf other =
    if Ascii.sameName name other then db.counterOf name + 1 else db.counterOf other
  tables : ∀ other, (db'.table? other).isSome = (db.table? other).isSome

/-- A row of a secondary table leaves the counter of the main table alone. -/
theorem Sows.counterOf_main {s : Schema} (hsound : s.Sound) {u : String × Table}
    (hu : u ∈ s.secondaryTables) {r : Row} {db db' : Database} (h : Sows u.1 r db db') :
    db'.counterOf s.mainTable = db.counterOf s.mainTable := by
  have hne := sameName_main hsound hu
  rw [Ascii.sameName_comm] at hne
  rw [h.counter, hne, if_neg Bool.false_ne_true]

/-- An insertion into a table of the schema sows a row. -/
theorem Tended.insert {s : Schema} (hsound : s.Sound) {db db' : Database} (h : s.Tended db)
    {u : String × Table} (hu : u ∈ s.tables) {arguments : List Cell}
    (hlength : arguments.length = (s.planted u.1 u.2).length) {n : Int64}
    (hinsert : db.insert ⟨u.1, (s.planted u.1 u.2).map Column.name⟩ arguments = .ok (n, db')) :
    Sows u.1 (Column.sown (s.planted u.1 u.2) n arguments) db db' ∧
      ∀ v ∈ s.tables, ∀ t, db'.table? v.1 = some t → t.Planted (s.planted v.1 v.2) := by
  rcases Database.insert_eq_ok.1 hinsert with ⟨t, -, -, ht, -⟩
  have hplanted := h.planted u hu t ht
  have htrailing := trailing_planted (s := s) (hsound.tables u hu)
  rcases hplanted.insert htrailing ht hlength hinsert with ⟨hn, hdb⟩
  -- The grown table under a name of its own, so that replacing it is not opened below.
  obtain ⟨next, hnext⟩ : ∃ next : Database.Table, next = { t with
      rows := t.rows ++ [Column.sown (s.planted u.1 u.2) n arguments], counter := n } := ⟨_, rfl⟩
  have hname : next.name = t.name := by rw [hnext]
  rw [← hnext] at hdb
  rw [hdb]
  refine ⟨⟨?_, ?_, ?_, Database.isSome_table?_replace db next⟩, ?_⟩
  · rw [Database.counterOf_eq ht]
    exact hn
  · intro other
    rw [Database.rowsOf_replace ht hname]
    split
    · rename_i hsame
      rw [← Database.rowsOf_congr hsame, Database.rowsOf_eq ht, hnext]
    · rw [List.append_nil]
  · intro other
    rw [Database.counterOf_replace ht hname, Database.counterOf_eq ht, hnext, hn]
  · intro v hv t' ht'
    rw [Database.table?_replace_eq ht hname] at ht'
    split at ht'
    · rename_i hsame
      rcases eq_of_sameName hsound hu hv hsame with rfl
      rw [← Option.some.inj ht', hnext]
      exact hplanted.sow hn arguments
    · exact h.planted v hv t' ht'

/-- The columns of the main table after the number. -/
theorem planted_main {s : Schema} {m : Table} (hm : s.main? = some m) :
    s.planted s.mainTable m = s.mainFields.map Field.column := by
  rw [planted, if_pos rfl, mainFields_eq hm]

/-- The columns of a secondary table after the number. -/
theorem planted_secondary {s : Schema} {u : String × Table} (hu : u ∈ s.secondaryTables) :
    s.planted u.1 u.2 = Column.parent s.mainTable :: u.2.dataFields.map Field.column := by
  rw [planted, if_neg (mem_secondaryTables.1 hu).2]

/-- A number is kept as it is in the reference to the main row. -/
theorem keep_parent (main : String) (k : Int64) :
    (Column.parent main).keep (.int k) = .int k := by
  have haffinity : Database.Affinity.ofDeclared (Column.parent main).type.name = .numeric :=
    Database.Table.Fitted.affinity_integer
  rw [Column.keep, haffinity]
  rfl

/-- The row of a secondary table for the data values of an element. -/
def branchRow (s : Schema) (u : String × Table) (k n : Int64) (cells : List Cell) : Row :=
  Column.sown (s.planted u.1 u.2) n (.int k :: cells)

def mainRow (s : Schema) (n : Int64) (cells : List Cell) : Row :=
  Column.sown (s.mainFields.map Field.column) n cells

/-- The cells of a branch row are its number, its parent and the values it keeps. -/
theorem cells_branchRow {s : Schema} {u : String × Table} (hu : u ∈ s.secondaryTables)
    (k n : Int64) (cells : List Cell) :
    (s.branchRow u k n cells).cells =
      [.int n, .int k] ++ List.zipWith Column.keep (u.2.dataFields.map Field.column) cells := by
  rw [branchRow, planted_secondary hu, Column.sown, List.zipWith_cons_cons, keep_parent]
  rfl

/-! ## The rows of a document -/

/-- Entries are encoded to one cell for each column. -/
theorem length_encodeEntries {t : Store.TablePlan} {entries : Entries Tree} {cells : List Cell}
    (h : t.encodeEntries entries = .ok cells) : cells.length = t.columns.length :=
  (Outcome.mapM_eq_ok.1 h).length_eq.symm

/-- An element is encoded to one cell for each column. -/
theorem length_encode {b : Store.Branch} {item : Tree} {cells : List Cell}
    (h : b.encode item = .ok cells) : cells.length = b.table.columns.length := by
  unfold Store.Branch.encode at h
  split at h
  · exact (Outcome.mapM_eq_ok.1 h).length_eq.symm
  · exact length_encodeEntries h
  · cases h

/-- The main row of a document goes to the end of the main table and gives its id. -/
theorem Tended.write_main {s : Schema} (hsound : s.Sound) {db : Database} (h : s.Tended db)
    {entries : Entries Tree} {q : Store.Progress}
    (hw : (Store.Writing.mk s.mainPlan (s.mainPlan.encodeEntries entries)).write ⟨none, db⟩ =
      .ok q) :
    ∃ cells id, s.mainPlan.encodeEntries entries = .ok cells ∧ q.parent = some id ∧
      Sows s.mainTable (s.mainRow id cells) db q.db ∧ s.Tended q.db := by
  rcases hsound.main with ⟨m, hm, -⟩
  rcases Store.Writing.write_eq_ok.1 hw with ⟨cells, id, hcells, hinsert, hparent⟩
  have hcells : s.mainPlan.encodeEntries entries = .ok cells := hcells
  have hlength : cells.length = (s.planted s.mainTable m).length := by
    rw [length_encodeEntries hcells, planted_main hm]
    simp [mainPlan]
  have hstatement : s.mainPlan.insert =
      ⟨s.mainTable, (s.planted s.mainTable m).map Column.name⟩ := by
    rw [planted_main hm, List.map_map]
    rfl
  have hinsert : db.insert ⟨s.mainTable, (s.planted s.mainTable m).map Column.name⟩ cells =
      .ok (id, q.db) := hstatement ▸ hinsert
  rcases h.insert hsound (mem_of_table? hm) hlength hinsert with ⟨hsows, hplanted⟩
  have hsows : Sows s.mainTable (s.mainRow id cells) db q.db := by
    rw [mainRow, ← planted_main hm]
    exact hsows
  refine ⟨cells, id, hcells, hparent, hsows, hplanted, ?_⟩
  -- The secondary tables are untouched, and the bound on their references has grown.
  intro u hu r hr
  rw [hsows.rows, sameName_main hsound hu, if_neg Bool.false_ne_true, List.append_nil] at hr
  rcases h.owned u hu r hr with ⟨k, hcell, hk⟩
  refine ⟨k, hcell, ?_⟩
  rw [hsows.counter, if_pos (Ascii.sameName_refl s.mainTable)]
  omega

/-- A row of a branch goes to the end of its table and refers to the id. -/
theorem Tended.write_branch {s : Schema} (hsound : s.Sound) {db : Database} (h : s.Tended db)
    {u : String × Table} (hu : u ∈ s.secondaryTables) {id : Int64}
    (hid : id.toInt ≤ db.counterOf s.mainTable) {item : Tree} {q : Store.Progress}
    (hw : (Store.Writing.mk (s.branch u).table ((s.branch u).encode item)).write ⟨some id, db⟩ =
      .ok q) :
    ∃ cells n, (s.branch u).encode item = .ok cells ∧ q.parent = some id ∧
      Sows u.1 (s.branchRow u id n cells) db q.db ∧ s.Tended q.db := by
  have htable := (mem_secondaryTables.1 hu).1
  rcases Store.Writing.write_eq_ok.1 hw with ⟨cells, n, hcells, hinsert, hparent⟩
  have hcells : (s.branch u).encode item = .ok cells := hcells
  have hlength : (Cell.int id :: cells).length = (s.planted u.1 u.2).length := by
    rw [planted_secondary hu, List.length_cons, List.length_cons, length_encode hcells]
    simp [branch, branchPlan]
  have hstatement : (s.branch u).table.insert =
      ⟨u.1, (s.planted u.1 u.2).map Column.name⟩ := by
    rw [planted_secondary hu, List.map_cons, List.map_map]
    rfl
  have hinsert : db.insert ⟨u.1, (s.planted u.1 u.2).map Column.name⟩ (.int id :: cells) =
      .ok (n, q.db) := hstatement ▸ hinsert
  rcases h.insert hsound htable hlength hinsert with ⟨hsows, hplanted⟩
  have hmain := hsows.counterOf_main hsound hu
  refine ⟨cells, n, hcells, hparent, hsows, hplanted, ?_⟩
  -- The one new row refers to an id that was given.
  intro v hv r hr
  rw [hmain]
  rw [hsows.rows, List.mem_append] at hr
  rcases hr with hr | hr
  · exact h.owned v hv r hr
  · split at hr
    · refine ⟨id, ?_, hid⟩
      rw [List.mem_singleton.1 hr]
      have hcells := cells_branchRow hu id n cells
      rw [Row.cell]
      exact congrArg (fun cs => List.getD cs 1 Cell.null) hcells
    · cases hr

/-! ## All rows of a document -/

/-- Rows at the end of the table of a branch, one for each element. -/
def Bears (s : Schema) (u : String × Table) (id : Int64) (items : List Tree) (rows : List Row) :
    Prop :=
  List.Forall₂ (fun item r => ∃ cells n, (s.branch u).encode item = .ok cells ∧
    r = s.branchRow u id n cells) items rows

/-- The elements of a branch become rows at the end of its table. -/
theorem Tended.write_items {s : Schema} (hsound : s.Sound) {db : Database} (h : s.Tended db)
    {u : String × Table} (hu : u ∈ s.secondaryTables) {id : Int64}
    (hid : id.toInt ≤ db.counterOf s.mainTable) {items : List Tree} {q : Store.Progress}
    (hw : Store.Written ⟨some id, db⟩
      (items.map fun item => ⟨(s.branch u).table, (s.branch u).encode item⟩) q) :
    ∃ rows, s.Bears u id items rows ∧ s.Tended q.db ∧ q.parent = some id ∧
      q.db.counterOf s.mainTable = db.counterOf s.mainTable ∧
      (∀ other, q.db.rowsOf other =
        db.rowsOf other ++ if Ascii.sameName u.1 other then rows else []) ∧
      ∀ other, (q.db.table? other).isSome = (db.table? other).isSome := by
  -- Induction over the elements; each row is sown in the database that the last one left.
  induction items generalizing db with
  | nil =>
    rcases Store.written_nil_iff.1 hw with rfl
    exact ⟨[], .nil, h, rfl, rfl, fun other => by simp, fun other => rfl⟩
  | cons item items ih =>
    rcases Store.written_cons_iff.1 hw with ⟨p, hfirst, hrest⟩
    rcases h.write_branch hsound hu hid hfirst with ⟨cells, n, hcells, hparent, hsows, htended⟩
    have hmain := hsows.counterOf_main hsound hu
    rcases p with ⟨parent, db₁⟩
    obtain rfl : parent = some id := hparent
    obtain ⟨rows, hbears, htended', hparent', hmain', hrows, htables⟩ :=
      ih htended (hmain.symm ▸ hid) hrest
    refine ⟨s.branchRow u id n cells :: rows, .cons ⟨cells, n, hcells, rfl⟩ hbears, htended',
      hparent', hmain'.trans hmain, ?_, fun other => (htables other).trans (hsows.tables other)⟩
    intro other
    rw [hrows, hsows.rows]
    split <;> simp

/-- The branches become rows at the end of their tables, and no other table gets a row. -/
theorem Tended.write_branches {s : Schema} (hsound : s.Sound) {db : Database} (h : s.Tended db)
    {us : List (String × Table)} (hus : ∀ u ∈ us, u ∈ s.secondaryTables) (hnodup : us.Nodup)
    {id : Int64} (hid : id.toInt ≤ db.counterOf s.mainTable) {entries : Entries Tree}
    {q : Store.Progress}
    (hw : Store.Written ⟨some id, db⟩
      (us.flatMap fun u => (s.branch u).writings (Entries.get? entries u.1)) q) :
    s.Tended q.db ∧ q.db.counterOf s.mainTable = db.counterOf s.mainTable ∧
      (∀ u ∈ us, ∃ items rows, (s.branch u).elements (Entries.get? entries u.1) = .ok items ∧
        s.Bears u id items rows ∧ q.db.rowsOf u.1 = db.rowsOf u.1 ++ rows) ∧
      (∀ other, (∀ u ∈ us, Ascii.sameName u.1 other = false) →
        q.db.rowsOf other = db.rowsOf other) ∧
      ∀ other, (q.db.table? other).isSome = (db.table? other).isSome := by
  induction us generalizing db with
  | nil =>
    rcases Store.written_nil_iff.1 hw with rfl
    refine ⟨h, rfl, ?_, fun _ _ => rfl, fun _ => rfl⟩
    intro u hu
    cases hu
  | cons u us ih =>
    have hu := hus u List.mem_cons_self
    rcases List.nodup_cons.1 hnodup with ⟨hnew, hnodup⟩
    rw [List.flatMap_cons] at hw
    rcases Store.written_append_iff.1 hw with ⟨p, hfirst, hrest⟩
    rw [Store.Branch.writings] at hfirst
    cases helements : (s.branch u).elements (Entries.get? entries u.1) with
    | error cause =>
      rw [helements] at hfirst
      rcases Store.written_cons_iff.1 hfirst with ⟨p', hp', -⟩
      cases hp'
    | ok items =>
      rw [helements] at hfirst
      obtain ⟨rows, hbears, htended, hparent, hmain, hrows, htables⟩ :=
        h.write_items hsound hu hid hfirst
      rcases p with ⟨parent, db₁⟩
      obtain rfl : parent = some id := hparent
      obtain ⟨htended', hmain', hbranches, hothers, htables'⟩ :=
        ih htended (fun v hv => hus v (List.mem_cons_of_mem u hv)) hnodup (hmain.symm ▸ hid) hrest
      -- No two branches have one name, so what is sown for one is not sown for another.
      have happart : ∀ v ∈ us, Ascii.sameName v.1 u.1 = false := by
        intro v hv
        have hv' := (mem_secondaryTables.1 (hus v (List.mem_cons_of_mem u hv))).1
        refine sameName_of_ne hsound hv' (mem_secondaryTables.1 hu).1 ?_
        rintro rfl
        exact hnew hv
      refine ⟨htended', hmain'.trans hmain, ?_, ?_, fun other => (htables' other).trans
        (htables other)⟩
      · intro v hv
        rcases List.mem_cons.1 hv with rfl | hv
        · refine ⟨items, rows, helements, hbears, ?_⟩
          rw [hothers v.1 happart, hrows, if_pos (Ascii.sameName_refl v.1)]
        · rcases hbranches v hv with ⟨items', rows', helements', hbears', hrows'⟩
          refine ⟨items', rows', helements', hbears', ?_⟩
          have hne := happart v hv
          rw [Ascii.sameName_comm] at hne
          rw [hrows', hrows, hne, if_neg Bool.false_ne_true, List.append_nil]
      · intro other hother
        have hne := hother u List.mem_cons_self
        rw [hothers other fun v hv => hother v (List.mem_cons_of_mem u hv), hrows, hne,
          if_neg Bool.false_ne_true, List.append_nil]

/-- What an insertion that succeeds has done: the rows of the document stand at the ends of their
tables, under an id that had not been given. -/
structure Grew (s : Schema) (entries : Entries Tree) (id : Int64) (db db' : Database) : Prop where
  number : id.toInt = db.counterOf s.mainTable + 1
  counter : db'.counterOf s.mainTable = id.toInt
  main : ∃ cells, s.mainPlan.encodeEntries entries = .ok cells ∧
    db'.rowsOf s.mainTable = db.rowsOf s.mainTable ++ [s.mainRow id cells]
  branches : ∀ u ∈ s.secondaryTables, ∃ items rows,
    (s.branch u).elements (Entries.get? entries u.1) = .ok items ∧ s.Bears u id items rows ∧
      db'.rowsOf u.1 = db.rowsOf u.1 ++ rows
  tables : ∀ other, (db'.table? other).isSome = (db.table? other).isSome

/-- Rows of a document have its identifier as their parent. -/
theorem Bears.cell {s : Schema} {u : String × Table} (hu : u ∈ s.secondaryTables) {id : Int64}
    {items : List Tree} {rows : List Row} (h : s.Bears u id items rows) {r : Row} (hr : r ∈ rows) :
    r.cell 1 = .int id := by
  induction h with
  | nil => cases hr
  | cons hrow _ ih =>
    rcases List.mem_cons.1 hr with rfl | hr
    · rcases hrow with ⟨cells, n, -, rfl⟩
      rw [Row.cell, cells_branchRow hu]
      rfl
    · exact ih hr

/-- Growing a document is a step that follows. -/
theorem Grew.follows {s : Schema} {entries : Entries Tree} {id : Int64} {db db' : Database}
    (h : s.Grew entries id db db') : s.Follows db db' := by
  have hnumber := h.number
  refine ⟨by rw [h.counter]; omega, ?_⟩
  intro u hu r hr
  rcases h.branches u hu with ⟨items, rows, -, hbears, hrows⟩
  rw [hrows, List.mem_append] at hr
  rcases hr with hr | hr
  · exact .inl hr
  · exact .inr ⟨id, hbears.cell hu hr, by omega⟩

/-- Writing a tree grows a document and leaves the database tended. -/
theorem Tended.written {s : Store} {db db' : Database} (h : s.schema.Tended db) {tree : Tree}
    {id : Int64} (hw : Store.Written ⟨none, db⟩ (s.plan.writings tree) ⟨some id, db'⟩) :
    s.schema.Tended db' ∧ ∃ entries, tree = .map entries ∧ s.schema.Grew entries id db db' := by
  have hsound := s.schema_sound
  rw [s.plan_eq] at hw
  cases tree with
  | map entries =>
    rw [Store.Plan.writings_map] at hw
    rcases Store.written_cons_iff.1 hw with ⟨p, hfirst, hrest⟩
    rcases h.write_main hsound hfirst with ⟨cells, id', hcells, hparent, hsows, htended⟩
    rcases p with ⟨parent, db₁⟩
    obtain rfl : parent = some id' := hparent
    obtain rfl : id = id' := Option.some.inj (hrest.parent_eq rfl)
    have hcounter : db₁.counterOf s.schema.mainTable = id.toInt := by
      rw [hsows.counter, if_pos (Ascii.sameName_refl _)]
      exact hsows.number.symm
    -- The main row has come first, so its id is what the counter of the main table shows.
    have hnodup : s.schema.secondaryTables.Nodup :=
      (List.Nodup.of_map _ s.schema.distinct).filter _
    obtain ⟨htended', hmain, hbranches, hothers, htables⟩ :=
      htended.write_branches hsound (fun u hu => hu) hnodup (Int.le_of_eq hcounter.symm) hrest
    refine ⟨htended', entries, rfl, hsows.number, hmain.trans hcounter, ⟨cells, hcells, ?_⟩, ?_, ?_⟩
    · rw [hothers, hsows.rows, if_pos (Ascii.sameName_refl _)]
      intro u hu
      rw [Ascii.sameName_comm]
      exact sameName_main hsound hu
    · intro u hu
      rcases hbranches u hu with ⟨items, rows, helements, hbears, hrows⟩
      refine ⟨items, rows, helements, hbears, ?_⟩
      rw [hrows, hsows.rows, sameName_main hsound hu, if_neg Bool.false_ne_true, List.append_nil]
    · intro other
      exact (htables other).trans (hsows.tables other)
  | _ =>
    rcases Store.written_cons_iff.1 hw with ⟨p, hp, -⟩
    cases hp

end Schema
end Espalier
