import Espalier.Proofs.Store.Completing
import Espalier.Proofs.Store.Elements
import Espalier.Proofs.Store.Grafting

/-!
# Writing where others have planted

Verifying looks for what the schema asks of a table and tolerates what it does not ask for.  Of that
two things stand in the way of a document: a data column that needs a value, which the document may
lack, and a reference to a table other than the main one.  `insert_verified` says that nothing else
does, as long as the tables have no further columns and numbers are left; `verified_refuses` shows
both.
-/

namespace Espalier

open Database (Action Cell Reachable Row)

/-! ## Values that are needed -/

/-- A table of the database has a column of the name that needs a value. -/
def Database.Needs (db : Database) (table column : String) : Prop :=
  ∃ c ∈ db.columns table, c.name = column ∧ c.notNull = true

namespace Schema

/-- The tables of the schema have no columns but those of their layouts. -/
def Exact (s : Schema) (db : Database) : Prop :=
  ∀ u ∈ s.tables, ∀ c ∈ db.columns u.1, ∃ e ∈ s.layout u.1 u.2, c.name = e.name

/-- Where references are checked, the tables of the schema have none but those of their layouts:
from `parent_id` to the main table. -/
def RefersHome (s : Schema) (db : Database) : Prop :=
  db.checked = true → ∀ u ∈ s.tables, ∀ c ∈ db.columns u.1, ∀ parent ∈ c.references,
    c.name = parentColumn ∧ Ascii.sameName parent s.mainTable = true

/-- The tables of the schema have numbers left for the rows of a document. -/
def LeavesRoom (s : Schema) (db : Database) (tree : Tree) : Prop :=
  ∀ u ∈ s.tables, ∀ t ∈ db.table? u.1, t.HasRoom (s.elementsOf u.1 tree).length

/-- An element gives a value to every field of a table whose column needs one. -/
def Feeds (db : Database) (u : String × Table) (x : Tree) : Prop :=
  ∀ f ∈ u.2.dataFields, db.Needs u.1 f.name → (u.2.given f x).isVoid = false

/-- All elements of a document that become rows of a table give the values that are needed. -/
def Supplies (s : Schema) (db : Database) (tree : Tree) (u : String × Table) : Prop :=
  ∀ x ∈ s.elementsOf u.1 tree, Feeds db u x

instance (db : Database) (table column : String) : Decidable (db.Needs table column) :=
  inferInstanceAs (Decidable (∃ c ∈ db.columns table, c.name = column ∧ c.notNull = true))

instance (s : Schema) (db : Database) : Decidable (s.Exact db) :=
  inferInstanceAs (Decidable (∀ u ∈ s.tables, ∀ c ∈ db.columns u.1,
    ∃ e ∈ s.layout u.1 u.2, c.name = e.name))

instance (s : Schema) (db : Database) : Decidable (s.RefersHome db) :=
  inferInstanceAs (Decidable (db.checked = true → ∀ u ∈ s.tables, ∀ c ∈ db.columns u.1,
    ∀ parent ∈ c.references, c.name = parentColumn ∧ Ascii.sameName parent s.mainTable = true))

instance (s : Schema) (db : Database) (tree : Tree) : Decidable (s.LeavesRoom db tree) :=
  inferInstanceAs (Decidable (∀ u ∈ s.tables, ∀ t ∈ db.table? u.1,
    t.HasRoom (s.elementsOf u.1 tree).length))

instance (s : Schema) (db : Database) (tree : Tree) (u : String × Table) :
    Decidable (s.Supplies db tree u) :=
  inferInstanceAs (Decidable (∀ x ∈ s.elementsOf u.1 tree, ∀ f ∈ u.2.dataFields,
    db.Needs u.1 f.name → (u.2.given f x).isVoid = false))

/-! ## The course of an insertion -/

variable {s : Schema} {u : String × Table}

/-- How far an insertion into a database has come when the rows `ys` are still to be written: the
columns of all tables are as they were, the tables of the schema fit and have numbers left for those
rows, and the id of the document is that of a main row. -/
structure Course (s : Schema) (db : Database) (p : Store.Progress)
    (ys : List ((String × Table) × Tree)) : Prop where
  checked : p.db.checked = db.checked
  columns : ∀ name, p.db.columns name = db.columns name
  tables : ∀ u ∈ s.tables, ∃ t, p.db.table? u.1 = some t ∧ t.Fitted (s.planted u.1 u.2) ∧
    t.HasRoom (ys.countP fun y => Ascii.sameName y.1.1 u.1)
  main : ∀ id ∈ p.parent, ∃ t, p.db.table? s.mainTable = some t ∧ t.hasNumber id = true

/-! ### Writings -/

theorem name_writing (s : Schema) (y : (String × Table) × Tree) :
    (s.writing y).table.name = y.1.1 := by
  rw [writing]
  dsimp only
  split
  · rename_i hmain
    exact hmain.symm
  · rfl

/-- A row names all columns but the row number. -/
theorem insert_writing {y : (String × Table) × Tree} (hy : y.1 ∈ s.tables) :
    (s.writing y).table.insert = ⟨y.1.1, (s.planted y.1.1 y.1.2).map Column.name⟩ := by
  rw [writing]
  dsimp only
  split
  · rename_i hmain
    have htable : s.main? = some y.1.2 := by
      rw [main?, ← hmain, table?_of_mem hy]
    rw [planted, if_pos hmain, List.map_map, hmain]
    rw [mainPlan, mainFields_eq htable]
    rfl
  · rename_i hne
    rw [planted, if_neg hne, List.map_cons, List.map_map]
    rfl

/-! ### Arguments -/

section Arguments

variable {parent : Option Int64} (hparent : parent = none ↔ u.1 = s.mainTable) {cells : List Cell}

include hparent

/-- The columns of a table with their arguments: the id of the main row goes to `parent_id`, the
values go to the columns of the fields. -/
theorem zip_planted :
    (s.planted u.1 u.2).zip (parent.toList.map Cell.int ++ cells) =
      parent.toList.map (fun id => (Column.parent s.mainTable, .int id)) ++
        (u.2.dataFields.zip cells).map fun z => (z.1.column, z.2) := by
  have hzip : (u.2.dataFields.map Field.column).zip cells =
      (u.2.dataFields.zip cells).map fun z => (z.1.column, z.2) := List.zip_map_left
  rw [planted, ← hzip]
  cases parent with
  | none =>
    rw [if_pos (hparent.1 rfl)]
    rfl
  | some id =>
    rw [if_neg fun hmain => Option.some_ne_none id (hparent.2 hmain)]
    rfl

/-- An insertion has an argument for each planted column. -/
theorem length_arguments (hlength : cells.length = u.2.dataFields.length) :
    (parent.toList.map Cell.int ++ cells).length = (s.planted u.1 u.2).length := by
  rw [planted]
  cases parent with
  | none =>
    rw [if_pos (hparent.1 rfl)]
    simp [hlength]
  | some id =>
    rw [if_neg fun hmain => Option.some_ne_none id (hparent.2 hmain)]
    simp [hlength]

/-- A table is supplied exactly if the element gives the values that are needed. -/
theorem supplied_iff {db : Database} {t : Database.Table} (hcolumns : db.columns u.1 = t.columns)
    {x : Tree}
    (hcells : (u.2.dataFields.mapM fun f => f.codec.encode f.name (u.2.given f x)) = .ok cells) :
    t.Supplied (s.planted u.1 u.2) (parent.toList.map Cell.int ++ cells) ↔ Feeds db u x := by
  have hencoded := Outcome.mapM_eq_ok.1 hcells
  have hvalue : ∀ z ∈ u.2.dataFields.zip cells, z.2 ≠ .null ↔ (u.2.given z.1 x).isVoid = false :=
    fun z hz => Store.Codec.encode_ne_null (List.forall₂_zip hencoded hz)
  rw [Database.Table.Supplied, zip_planted hparent, ← hcolumns]
  constructor
  · rintro hsupplied f hf ⟨c, hc, hname, hneeds⟩
    have hfst : f ∈ (u.2.dataFields.zip cells).map Prod.fst := by
      rwa [List.map_fst_zip hencoded.length_eq.le]
    rcases List.mem_map.1 hfst with ⟨⟨f, v⟩, hz, rfl⟩
    have hmem := List.mem_map_of_mem (f := fun z : Field × Cell => (z.1.column, z.2)) hz
    exact (hvalue _ hz).1 (hsupplied _ (List.mem_append_right _ hmem) c hc hname hneeds)
  · intro hfeeds y hy c hc hname hneeds
    rcases List.mem_append.1 hy with hy | hy
    · rcases List.mem_map.1 hy with ⟨id, -, rfl⟩
      exact Cell.noConfusion
    · rcases List.mem_map.1 hy with ⟨z, hz, rfl⟩
      exact (hvalue z hz).2 (hfeeds z.1 (List.of_mem_zip hz).1 ⟨c, hc, hname, hneeds⟩)

end Arguments

/-! ### Steps -/

/-- Once a row is there the course goes on without it. -/
theorem Course.after_row (hsound : s.Sound) {db : Database} {p : Store.Progress}
    {y : (String × Table) × Tree} {ys : List ((String × Table) × Tree)}
    (h : s.Course db p (y :: ys)) (hy : y.1 ∈ s.tables)
    (hparent : p.parent = none ↔ y.1.1 = s.mainTable) {t : Database.Table}
    (ht : p.db.table? y.1.1 = some t) {r : Row}
    (hfitted : (t.add r).Fitted (s.planted y.1.1 y.1.2))
    (hroom : (t.add r).HasRoom (ys.countP fun z => Ascii.sameName z.1.1 y.1.1)) :
    s.Course db ⟨some (p.parent.getD r.number), p.db.replace (t.add r)⟩ ys := by
  have hname : Ascii.sameName t.name y.1.1 = true := Database.table?_name ht
  have hself : (p.db.replace (t.add r)).table? y.1.1 = some (t.add r) :=
    Database.table?_replace_self ht hname
  have hother : ∀ name, Ascii.sameName y.1.1 name = false →
      (p.db.replace (t.add r)).table? name = p.db.table? name := by
    intro name hne
    have hne' : Ascii.sameName t.name name = false :=
      (Ascii.sameName_congr_left hname name).trans hne
    exact Database.table?_replace_of_ne hne'
  -- Of what the course promises only the table of the row and the id of the document are new.
  refine ⟨h.checked, ?_, ?_, ?_⟩
  · intro name
    have hadd : (t.add r).name = t.name ∧ (t.add r).columns = t.columns := ⟨rfl, rfl⟩
    exact (Database.columns_replace ht hadd.1 hadd.2 name).trans (h.columns name)
  · intro v hv
    by_cases hv' : v = y.1
    · rw [hv']
      exact ⟨_, hself, hfitted, hroom⟩
    · have hne := sameName_of_ne hsound hy hv (Ne.symm hv')
      rcases h.tables v hv with ⟨t', ht', hfitted', hroom'⟩
      rw [List.countP_cons, hne] at hroom'
      exact ⟨t', (hother v.1 hne).trans ht', hfitted', hroom'⟩
  · intro id hid
    obtain rfl : p.parent.getD r.number = id := Option.some.inj hid
    cases hp : p.parent with
    | none =>
      -- The row is the main row.
      rw [← hparent.1 hp]
      exact ⟨_, hself, List.any_eq_true.2 ⟨r, Database.mem_place.2 (.inl rfl), beq_self_eq_true _⟩⟩
    | some id =>
      have hmain : y.1 ∈ s.secondaryTables := mem_secondaryTables.2
        ⟨hy, fun hmain => Option.some_ne_none id (hp.symm.trans (hparent.2 hmain))⟩
      have hne : Ascii.sameName y.1.1 s.mainTable = false := by
        rw [Ascii.sameName_comm, sameName_main hsound hmain]
      rw [hother _ hne]
      exact h.main id hp

section Step

variable (hsound : s.Sound) {db : Database} (hexact : s.Exact db) (hhome : s.RefersHome db)
  {p : Store.Progress} {y : (String × Table) × Tree} {ys : List ((String × Table) × Tree)}

include hsound hexact hhome

/-- References are only from rows of secondary tables, and those get the number of the main row. -/
theorem Course.home (h : s.Course db p (y :: ys)) (hy : y.1 ∈ s.tables)
    (hparent : p.parent = none ↔ y.1.1 = s.mainTable) {tm : Database.Table}
    (htm : p.db.table? s.mainTable = some tm) (cells : List Cell) :
    p.db.checked = true → ∀ c ∈ p.db.columns y.1.1, ∀ parent ∈ c.references,
      Ascii.sameName parent s.mainTable = true ∧ ∃ e : Column, e.name = c.name ∧
        e.type = .integer ∧ ∃ r ∈ tm.rows, (e, Cell.int r.number) ∈
          (s.planted y.1.1 y.1.2).zip (p.parent.toList.map Cell.int ++ cells) := by
  intro hchecked c hc parent hreference
  rw [h.columns] at hc
  rcases hhome (h.checked ▸ hchecked) y.1 hy c hc parent hreference with ⟨hname, hmain⟩
  refine ⟨hmain, ?_⟩
  cases hp : p.parent with
  | none =>
    -- The main table has no column of that name.
    rcases hexact y.1 hy c hc with ⟨e, he, hce⟩
    rw [layout_eq, planted, if_pos (hparent.1 hp)] at he
    rw [hce] at hname
    rcases List.mem_cons.1 he with rfl | he
    · exact absurd hname (by decide)
    · rcases List.mem_map.1 he with ⟨f, hf, rfl⟩
      have hsynthetic := ((hsound.tables y.1 hy).fields f hf).2
      exact absurd (congrArg Ascii.fold hname) (isSynthetic_eq_false.1 hsynthetic).2
  | some id =>
    -- The argument for that column is the number of the main row, which is there.
    rcases h.main id hp with ⟨t', ht', hid⟩
    obtain rfl : tm = t' := Option.some.inj (htm.symm.trans ht')
    rcases List.any_eq_true.1 hid with ⟨r, hr, hnumber⟩
    obtain rfl : r.number = id := beq_iff_eq.1 hnumber
    refine ⟨Column.parent s.mainTable, hname.symm, rfl, r, hr, ?_⟩
    rw [zip_planted (hp ▸ hparent)]
    exact List.mem_append_left _ List.mem_cons_self

/-- A row is written exactly if its element gives the values that are needed; otherwise that is what
is wrong with it. -/
theorem Course.step (h : s.Course db p (y :: ys)) (hy : y.1 ∈ s.tables)
    (hparent : p.parent = none ↔ y.1.1 = s.mainTable) {cells : List Cell}
    (hcells : (s.writing y).cells = .ok cells) :
    (Feeds db y.1 y.2 ∧ ∃ q, (s.writing y).write p = .ok q ∧ s.Course db q ys) ∨
    (¬ Feeds db y.1 y.2 ∧ (s.writing y).write p = .error (.database .notNull)) := by
  rcases hsound.main with ⟨m, hm, -⟩
  rcases h.tables _ (mem_of_table? hm) with ⟨tm, htm, hmain, -⟩
  rcases h.tables y.1 hy with ⟨t, ht, hfitted, hroom⟩
  rw [List.countP_cons, if_pos (Ascii.sameName_refl y.1.1)] at hroom
  have hcolumns : db.columns y.1.1 = t.columns := by
    rw [← h.columns, Database.columns, ht]
  have hlength : cells.length = y.1.2.dataFields.length :=
    (Outcome.mapM_eq_ok.1 hcells).length_eq.symm
  have hnames : ∀ c ∈ t.columns, ∃ e ∈ Column.id :: s.planted y.1.1 y.1.2, c.name = e.name := by
    intro c hc
    exact s.layout_eq y.1.1 y.1.2 ▸ hexact y.1 hy c (hcolumns ▸ hc)
  have hreferences := h.home hsound hexact hhome hy hparent htm cells
  rw [h.columns, hcolumns] at hreferences
  have hinsert := hfitted.insert (trailing_planted (hsound.tables y.1 hy)) htm hmain
    (length_arguments hparent hlength) hreferences hnames ht hroom
  -- Of what an insertion needs, all but the values that the element gives is there.
  rw [supplied_iff hparent hcolumns hcells, ← insert_writing hy] at hinsert
  rcases hinsert with ⟨hfeeds, r, hfitted', hroom', hok⟩ | ⟨hhungry, herror⟩
  · refine .inl ⟨hfeeds, ⟨some (p.parent.getD r.number), p.db.replace (t.add r)⟩,
      Store.Writing.write_eq_ok.2 ⟨cells, r.number, hcells, hok, rfl⟩, ?_⟩
    exact h.after_row hsound hy hparent ht hfitted' hroom'
  · refine .inr ⟨hhungry, ?_⟩
    rw [Store.Writing.write, Store.Writing.store, hcells]
    dsimp only
    rw [herror]
    rfl

/-- Once the main row is there, rows of secondary tables that have been written were fed. -/
theorem Course.written {done : List ((String × Table) × Tree)} {q : Store.Progress}
    (h : s.Course db p (done ++ ys)) (hdone : ∀ z ∈ done, z.1 ∈ s.secondaryTables) {id : Int64}
    (hp : p.parent = some id) (hwritten : Store.Written p (done.map s.writing) q) :
    s.Course db q ys ∧ ∀ z ∈ done, Feeds db z.1 z.2 := by
  -- Induction over what is done, for every progress it may start from: the first row was fed, or
  -- it would not have been written, and the course goes on from there.
  induction done generalizing p with
  | nil =>
    rcases Store.written_nil_iff.1 hwritten with rfl
    exact ⟨h, fun z hz => by cases hz⟩
  | cons z done ih =>
    rcases Store.written_cons_iff.1 hwritten with ⟨p', hz, hrest⟩
    rcases mem_secondaryTables.1 (hdone z List.mem_cons_self) with ⟨hmem, hne⟩
    rcases Store.Writing.write_eq_ok.1 hz with ⟨cells, n, hcells, -, hparent⟩
    have hplace : p.parent = none ↔ z.1.1 = s.mainTable := by
      rw [hp]
      exact iff_of_false (Option.some_ne_none id) hne
    rcases h.step hsound hexact hhome hmem hplace hcells with
      ⟨hfeeds, p'', hz', hcourse⟩ | ⟨-, herror⟩
    · obtain rfl : p'' = p' := Except.ok.inj (hz'.symm.trans hz)
      have hp' : p''.parent = some id := by
        rw [hparent, hp]
        rfl
      rcases ih hcourse (fun z hz => hdone z (List.mem_cons_of_mem _ hz)) hp' hrest with
        ⟨hcourse', hfed⟩
      exact ⟨hcourse', List.forall_mem_cons.2 ⟨hfeeds, hfed⟩⟩
    · rw [herror] at hz
      cases hz

end Step

/-- At the start all rows are still to be written. -/
theorem course_start (hsound : s.Sound) {db : Database} (htables : ∀ u ∈ s.tables, ∃ t,
    db.table? u.1 = some t ∧ t.Fitted (s.planted u.1 u.2)) {tree : Tree}
    (hroom : s.LeavesRoom db tree) : s.Course db ⟨none, db⟩ (s.rowsIn tree) where
  checked := rfl
  columns _ := rfl
  tables u hu := by
    rcases htables u hu with ⟨t, ht, hfitted⟩
    rw [countP_rowsIn hsound tree hu]
    exact ⟨t, ht, hfitted, hroom u hu t ht⟩
  main id hid := by cases hid

/-- The rows of a document that have been written were fed, the next one may refer to the first, and
the course goes on with the others. -/
theorem course_of_written (hsound : s.Sound) {db : Database} (hexact : s.Exact db)
    (hhome : s.RefersHome db) {tree : Tree} (h : s.Course db ⟨none, db⟩ (s.rowsIn tree))
    {done rest : List ((String × Table) × Tree)} (hsplit : s.rowsIn tree = done ++ rest)
    {q : Store.Progress} (hwritten : Store.Written ⟨none, db⟩ (done.map s.writing) q) :
    s.Course db q rest ∧ (∀ z ∈ done, Feeds db z.1 z.2) ∧
      ∀ z ∈ rest.head?, q.parent = none ↔ z.1.1 = s.mainTable := by
  rcases hsound.main with ⟨m, hm, -⟩
  have hrows := rowsIn_eq hsound hm tree
  have hsecondary : ∀ z ∈ s.secondaryTables.flatMap fun u =>
      (s.elementsOf u.1 tree).map fun x => (u, x), z.1 ∈ s.secondaryTables := by
    intro z hz
    rcases List.mem_flatMap.1 hz with ⟨u, hu, hz⟩
    rcases List.mem_map.1 hz with ⟨x, -, rfl⟩
    exact hu
  rw [hsplit] at h hrows
  cases done with
  | nil =>
    rcases Store.written_nil_iff.1 hwritten with rfl
    refine ⟨h, (fun z hz => by cases hz), ?_⟩
    rw [List.nil_append] at hrows
    rw [hrows]
    rintro z ⟨⟩
    exact iff_of_true rfl rfl
  | cons z done =>
    rw [List.cons_append, List.cons.injEq] at hrows
    rcases hrows with ⟨rfl, hrows⟩
    rw [← hrows] at hsecondary
    rcases Store.written_cons_iff.1 hwritten with ⟨p, hz, hdone⟩
    rcases Store.Writing.write_eq_ok.1 hz with ⟨cells, n, hcells, -, hparent⟩
    -- The main row is written first and gives the id.
    rcases h.step hsound hexact hhome (mem_of_table? hm) (iff_of_true rfl rfl) hcells with
      ⟨hfeeds, p', hz', hcourse⟩ | ⟨-, herror⟩
    · obtain rfl : p' = p := Except.ok.inj (hz'.symm.trans hz)
      rcases hcourse.written hsound hexact hhome
        (fun z hz => hsecondary z (List.mem_append_left _ hz)) hparent hdone with ⟨hcourse', hfed⟩
      refine ⟨hcourse', List.forall_mem_cons.2 ⟨hfeeds, hfed⟩, ?_⟩
      intro z hz
      have hmem := hsecondary z (List.mem_append_right _ (List.mem_of_mem_head? hz))
      rw [hdone.parent_eq hparent]
      exact iff_of_false (Option.some_ne_none _) (mem_secondaryTables.1 hmem).2
    · rw [herror] at hz
      cases hz

end Schema

namespace Store

section Rows

variable {s : Store} {db : Database} (hexact : s.schema.Exact db) (hhome : s.schema.RefersHome db)
  {tree : Tree} (hconforms : s.schema.Conforms tree)
  (h : s.schema.Course db ⟨none, db⟩ (s.schema.rowsIn tree))

include hexact hhome hconforms h

/-- If all rows of a document have been written, its elements gave what was needed. -/
theorem supplies_of_written {q : Progress}
    (hwritten : Written ⟨none, db⟩ (s.plan.writings tree) q) :
    ∀ u ∈ s.schema.tables, s.schema.Supplies db tree u := by
  intro u hu x hx
  have hsound := s.schema_sound
  rw [s.plan_eq, Schema.writings_eq hsound hconforms] at hwritten
  rcases Schema.course_of_written hsound hexact hhome h (List.append_nil _).symm hwritten with
    ⟨-, hfed, -⟩
  exact hfed (u, x) (Schema.mem_rowsIn.2 ⟨hu, hx⟩)

/-- The first row that cannot be written is that of an element that does not give what is needed. -/
theorem hungry_of_failsFirst {f : Failure}
    (hfails : FailsFirst ⟨none, db⟩ (s.plan.writings tree) f) : ∃ u ∈ s.schema.tables,
      ¬ s.schema.Supplies db tree u ∧ f = .query .insert u.1 (.database .notNull) := by
  have hsound := s.schema_sound
  obtain ⟨done, w, rest, q, cause, hsplit, hdone, hfail, rfl⟩ := hfails
  rw [s.plan_eq, Schema.writings_eq hsound hconforms, List.map_eq_append_iff] at hsplit
  rcases hsplit with ⟨ys, zs, hrows, rfl, hzs⟩
  rcases List.map_eq_cons_iff.1 hzs with ⟨z, zs, rfl, rfl, rfl⟩
  -- The element conforms, so no check refuses its row, and the course has come as far as to it.
  have hz : z ∈ s.schema.rowsIn tree := hrows ▸ List.mem_append_right _ List.mem_cons_self
  rcases Schema.mem_rowsIn.1 hz with ⟨htable, helement⟩
  rcases exists_cells (fun f hf => s.fieldType_codec htable hf)
    (Schema.holds_of_mem_rowsIn hsound hconforms hz).admits with ⟨cells, hcells⟩
  rcases Schema.course_of_written hsound hexact hhome h hrows hdone with ⟨hcourse, -, hparent⟩
  rcases hcourse.step hsound hexact hhome htable (hparent z rfl) hcells with
    ⟨-, q', hwrite, -⟩ | ⟨hhungry, hwrite⟩
  · rw [hfail] at hwrite
    cases hwrite
  · obtain rfl : cause = .database .notNull := Except.error.inj (hfail.symm.trans hwrite)
    rw [Schema.name_writing]
    exact ⟨z.1, htable, fun hsupplies => hhungry (hsupplies z.2 helement), rfl⟩

end Rows

/--
In a database that statements have led to and that verifies, where the tables of the schema have no
further columns, no references but those of their layouts, and numbers left, a conforming document
is inserted exactly if all its elements give the values that columns of the database need.
Otherwise the insertion fails, at a table for which one does not, for want of a value.
-/
theorem insert_verified (s : Store) {db : Database} (h : Reachable db)
    (hverify : s.verify.result db = .ok ()) (hexact : s.schema.Exact db)
    (hhome : s.schema.RefersHome db) (tree : Tree) (hroom : s.schema.LeavesRoom db tree)
    (hconforms : s.schema.Conforms tree) :
    ((∃ id, (s.insert tree).result db = .ok id) ↔
      ∀ u ∈ s.schema.tables, s.schema.Supplies db tree u) ∧
    ∀ f, (s.insert tree).result db = .error f → ∃ u ∈ s.schema.tables,
      ¬ s.schema.Supplies db tree u ∧ f = .query .insert u.1 (.database .notNull) := by
  have hstart := Schema.course_start s.schema_sound
    (fun u hu => s.exists_fitted h hverify hu) hroom
  rcases s.run_insert tree db with ⟨hok, herror⟩
  have hfails := fun f hf => hungry_of_failsFirst hexact hhome hconforms hstart (herror f hf)
  refine ⟨⟨?_, ?_⟩, hfails⟩
  · rintro ⟨id, hid⟩
    exact supplies_of_written hexact hhome hconforms hstart ((hok id _).1 (Prod.ext hid rfl))
  · intro hsupplies
    cases hresult : (s.insert tree).result db with
    | ok id => exact ⟨id, rfl⟩
    | error f =>
      rcases hfails f hresult with ⟨u, hu, hnot, -⟩
      exact absurd (hsupplies u hu) hnot

end Store

/-! ## Two gardens -/

/-- Trees with tags. -/
def Schema.trees : Schema :=
  .ofTables "tree"
    [("tree", { fields := [⟨"name", .string⟩] }),
      ("tags", { isList := true, valueField := some ⟨"label", .string⟩ })]

namespace Store

def trees : Store :=
  ⟨Schema.trees, Schema.trees.plan, by decide, rfl⟩

/-- A garden in which the tags are those of trees. -/
def mixed : Database :=
  plants.provision.after (trees.provision.after {})

theorem reachable_mixed : Reachable mixed :=
  plants.reachable_provision (trees.reachable_provision (.empty true))

/-- A garden for plants in a table that others have made, where every plant needs a name. -/
def labelled : Database :=
  plants.provision.after ((Action.define (.table
    { ifAbsent := false
      table := "plant"
      columns :=
        [{ name := "id", declared := "INTEGER", primaryKey := true },
          { name := "name", declared := "TEXT", notNull := true },
          { name := "height", declared := "REAL" }] })).after {})

theorem reachable_labelled : Reachable labelled :=
  plants.reachable_provision ((Reachable.empty true).after_define _)

theorem verify_labelled : plants.verify.result labelled = .ok () := by decide +kernel

theorem exact_labelled : Schema.plants.Exact labelled := by decide +kernel

/-- In the labelled garden a plant with a name is inserted, whatever its leaves; one without is
not. -/
theorem insert_verified_labelled :
    Reachable labelled ∧ plants.verify.result labelled = .ok () ∧ Schema.plants.Exact labelled ∧
    Schema.plants.RefersHome labelled ∧
    (∃ id, (plants.insert (.map [("name", .text "fern"), ("leaves", .seq [.map []])])).result
      labelled = .ok id) ∧
    ∃ u ∈ Schema.plants.tables, (plants.insert (.map [("leaves", .seq [.map []])])).result
      labelled = .error (.query .insert u.1 (.database .notNull)) := by
  have hhome : Schema.plants.RefersHome labelled := by decide +kernel
  have hnamed := insert_verified plants reachable_labelled verify_labelled exact_labelled hhome
    (.map [("name", .text "fern"), ("leaves", .seq [.map []])]) (by decide +kernel)
    (Schema.violations_eq_nil.1 (by decide))
  have hnameless := insert_verified plants reachable_labelled verify_labelled exact_labelled hhome
    (.map [("leaves", .seq [.map []])]) (by decide +kernel)
    (Schema.violations_eq_nil.1 (by decide))
  refine ⟨reachable_labelled, verify_labelled, exact_labelled, hhome,
    hnamed.1.2 (by decide +kernel), ?_⟩
  cases hresult : (plants.insert (.map [("leaves", .seq [.map []])])).result labelled with
  | ok id => exact absurd (hnameless.1.1 ⟨id, hresult⟩) (by decide +kernel)
  | error f =>
    rcases hnameless.2 f hresult with ⟨u, hu, -, rfl⟩
    exact ⟨u, hu, rfl⟩

/-- Conforming documents that a database refuses although it verifies: one lacks the name that the
plants of others need, and one has a tag that would have to belong to a tree. -/
theorem verified_refuses :
    (Reachable labelled ∧ plants.verify.result labelled = .ok () ∧ Schema.plants.Exact labelled ∧
      Schema.plants.LeavesRoom labelled (.map []) ∧ Schema.plants.Conforms (.map []) ∧
      (plants.insert (.map [])).result labelled =
        .error (.query .insert "plant" (.database .notNull))) ∧
    (Reachable mixed ∧ plants.verify.result mixed = .ok () ∧ Schema.plants.Exact mixed ∧
      Schema.plants.LeavesRoom mixed (.map [("tags", .seq [.text "shady"])]) ∧
      Schema.plants.Conforms (.map [("tags", .seq [.text "shady"])]) ∧
      (plants.insert (.map [("tags", .seq [.text "shady"])])).result mixed =
        .error (.query .insert "tags" (.database .reference))) := by
  constructor
  · refine ⟨reachable_labelled, verify_labelled, exact_labelled, by decide +kernel, ?_, ?_⟩
    · exact Schema.violations_eq_nil.1 (by decide)
    · decide +kernel
  · refine ⟨reachable_mixed, by decide +kernel, by decide +kernel, by decide +kernel, ?_, ?_⟩
    · exact Schema.violations_eq_nil.1 (by decide)
    · decide +kernel

end Store
end Espalier
