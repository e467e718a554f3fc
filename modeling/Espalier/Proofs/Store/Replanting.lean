import Espalier.Proofs.Number.Rounding
import Espalier.Proofs.Store.Admission
import Espalier.Proofs.Store.Image

/-!
# Planting again what was read

What is read from a database is in canonical form, and canonical values are admitted and stored as
the values that they come from.  So a document that was read can be inserted as it is, the unknown
key `id` included, and grows back to itself under a new id.  That stored times still read as times
is known only from the rows: every row of a run was once the row of an element, which is what
`Stocked` says.
-/

namespace Espalier

open Database (Cell Row)

/-! ## Canonical values -/

/-- Only numbers in a float field have another form than their own. -/
theorem FieldType.canon_eq_self {type : FieldType} (h : type ≠ .float) (value : Tree) :
    type.canon (some value) = value := by
  cases type with
  | float => exact absurd rfl h
  | _ => cases value <;> rfl

/-- A type admits the canonical form of what it admits. -/
theorem FieldType.admits_canon {type : FieldType} {value : Tree} (h : type.admits value = true) :
    type.admits (type.canon (some value)) = true := by
  cases type with
  | float =>
    cases value with
    | float x =>
      rw [canon]
      split <;> rfl
    | int n => rfl
    | _ => exact h
  | _ => rwa [canon_eq_self FieldType.noConfusion]

/-- A value and its canonical form are stored alike. -/
theorem FieldType.kept_canon (type : FieldType) (value : Tree) :
    type.kept (type.canon (some value)) = type.kept value := by
  cases type with
  | float =>
    cases value with
    | int n =>
      -- A rounded integer is a number, and a zero without a sign if it is zero.
      have hzero : (if (Double.ofInt n.toInt).isZero then Double.zero false
          else Double.ofInt n.toInt) = Double.ofInt n.toInt := by
        split
        · rename_i h
          exact (Double.ofInt_of_isZero h).symm
        · rfl
      rw [canon, kept, kept, Double.isNaN_ofInt, if_neg Bool.false_ne_true, hzero]
    | float x =>
      by_cases hnan : x.isNaN = true
      · rw [canon, kept, if_pos hnan, if_pos hnan]
        rfl
      · by_cases hzero : x.isZero = true
        · rw [canon, kept, if_neg hnan, if_neg hnan, if_pos hzero]
          rfl
        · rw [canon, if_neg hnan, if_neg hzero]
    | _ => rfl
  | _ => rw [canon_eq_self FieldType.noConfusion]

namespace Table

/-- The canonical mapping of a table has the canonical value of each of its fields. -/
theorem get?_canonFields {fields : List Field} (hdistinct : (fields.map Field.name).Nodup)
    (value : Field → Tree) {f : Field} (hf : f ∈ fields) :
    Entries.get? (fields.map fun g => (g.name, value g)) f.name = some (value f) := by
  refine Entries.get?_of_mem ?_ (List.mem_map.2 ⟨f, hf, rfl⟩)
  rw [Entries.keys, List.map_map]
  exact hdistinct

variable {t : Table}

/-- The canonical form of an element is an element. -/
theorem Holds.canon (hdistinct : (t.dataFields.map Field.name).Nodup) {x : Tree} (h : t.Holds x) :
    t.Holds (t.canon x) := by
  cases h with
  | scalar hlist hx =>
    refine .scalar hlist fun f hf => ?_
    have hcanon : t.canon x = f.type.canon (some x) := by
      rw [Table.canon, if_pos hlist, Option.mem_def.1 hf]
    rw [hcanon]
    exact FieldType.admits_canon (hx f hf)
  | @mapping entries hlist hfills =>
    rw [dataFields, if_neg (by simp [hlist])] at hdistinct
    rw [Table.canon, if_neg (by simp [hlist])]
    refine .mapping hlist fun f hf => ?_
    rw [Field.value, get?_canonFields hdistinct _ hf, Option.getD_some]
    have hadmits := FieldType.admits_canon (hfills f hf)
    rw [Field.value, FieldType.canon_getD] at hadmits
    exact hadmits

/-- An element and its canonical form are stored alike. -/
theorem kept_canon (hdistinct : (t.dataFields.map Field.name).Nodup) (x : Tree) :
    t.kept (t.canon x) = t.kept x := by
  cases hlist : t.isList with
  | true =>
    rw [kept, kept, if_pos hlist, if_pos hlist, canon, if_pos hlist]
    cases t.valueField with
    | none => rfl
    | some f => exact congrArg (fun c => [c]) (f.type.kept_canon x)
  | false =>
    rw [dataFields, if_neg (by simp [hlist])] at hdistinct
    rw [kept, kept, if_neg (by simp [hlist]), if_neg (by simp [hlist]), canon,
      if_neg (by simp [hlist])]
    refine List.map_congr_left fun f hf => ?_
    rw [Tree.get?, get?_canonFields hdistinct _ hf, Option.getD_some, ← FieldType.canon_getD,
      FieldType.kept_canon]

end Table

namespace Schema

variable {s : Schema} {u : String × Table} {db db' : Database}

/-! ## Values that pass -/

/-- The values of a document pass exactly if it fills the main fields. -/
theorem exists_encodeEntries (hknown : ∀ f ∈ s.mainFields, f.codec.fieldType = f.type)
    {entries : Entries Tree} :
    (∃ cells, s.mainPlan.encodeEntries entries = .ok cells) ↔ Fills s.mainFields entries := by
  have hrow : (Store.Writing.mk s.mainPlan (s.mainPlan.encodeEntries entries)).refusal? =
      (violationsIn s.mainTable s.mainFields entries).head?.map Violation.failure :=
    refusal?_row rfl hknown fun name => (Entries.get? entries name).getD .null
  have hnone : violationsIn s.mainTable s.mainFields entries = [] ↔ Fills s.mainFields entries :=
    violationsIn_eq_nil
  rw [← hnone, ← List.head?_eq_none_iff, ← Option.map_eq_none_iff (f := Violation.failure), ← hrow,
    Store.Writing.refusal?, Option.map_eq_none_iff, Outcome.error?_eq_none]

/-- The values of an element pass exactly if the table holds it. -/
theorem exists_encode (hknown : ∀ f ∈ u.2.dataFields, f.codec.fieldType = f.type) {x : Tree} :
    (∃ cells, (s.branch u).encode x = .ok cells) ↔ u.2.Holds x := by
  have hnone : u.2.elementViolations u.1 x = [] ↔ u.2.Holds x := Table.elementViolations_eq_nil
  rw [← hnone, ← List.head?_eq_none_iff, ← Option.map_eq_none_iff (f := Violation.failure),
    ← refusal?_element (s := s) hknown,
    Store.Writing.refusal?, Option.map_eq_none_iff, Outcome.error?_eq_none]

/-- The row of an element is also the row of its canonical form. -/
theorem branchRow_canon (hsound : s.Sound) (hu : u ∈ s.secondaryTables)
    (hknown : ∀ f ∈ u.2.dataFields, f.codec.fieldType = f.type) {item : Tree} {cells : List Cell}
    (h : (s.branch u).encode item = .ok cells) (k n : Int64) :
    ∃ cells', (s.branch u).encode (u.2.canon item) = .ok cells' ∧
      s.branchRow u k n cells' = s.branchRow u k n cells := by
  have hdistinct := (hsound.tables u (mem_secondaryTables.1 hu).1).nodup_names
  rcases (exists_encode (s := s) hknown).2
    (((exists_encode (s := s) hknown).1 ⟨cells, h⟩).canon hdistinct) with ⟨cells', h'⟩
  refine ⟨cells', h', ?_⟩
  have hcells : (s.branchRow u k n cells').cells = (s.branchRow u k n cells).cells := by
    rw [cells_branchRow hu, cells_branchRow hu, kept_encode hknown h', kept_encode hknown h,
      Table.kept_canon hdistinct]
  exact congrArg (Row.mk n) hcells

/-- A main row goes by the canonical values of the main fields. -/
theorem mainRow_canon (hknown : ∀ f ∈ s.mainFields, f.codec.fieldType = f.type)
    {source entries : Entries Tree} {cells : List Cell}
    (hentries : ∀ f ∈ s.mainFields,
      Entries.get? entries f.name = some (f.type.canon (Entries.get? source f.name)))
    (h : s.mainPlan.encodeEntries source = .ok cells) (n : Int64) :
    ∃ cells', s.mainPlan.encodeEntries entries = .ok cells' ∧
      s.mainRow n cells' = s.mainRow n cells := by
  have hfills := (exists_encodeEntries hknown).1 ⟨cells, h⟩
  have hfills' : Fills s.mainFields entries := by
    intro f hf
    have hadmits := FieldType.admits_canon (hfills f hf)
    rwa [Field.value, FieldType.canon_getD, ← Option.getD_some (a := f.type.canon _),
      ← hentries f hf] at hadmits
  rcases (exists_encodeEntries hknown).2 hfills' with ⟨cells', h'⟩
  refine ⟨cells', h', ?_⟩
  have hkept := zipWith_keep hknown (fun name => (Entries.get? source name).getD .null) h
  have hkept' := zipWith_keep hknown (fun name => (Entries.get? entries name).getD .null) h'
  have hsame : List.zipWith Column.keep (s.mainFields.map Field.column) cells' =
      List.zipWith Column.keep (s.mainFields.map Field.column) cells := by
    rw [hkept, hkept']
    refine List.map_congr_left fun f hf => ?_
    rw [hentries f hf, Option.getD_some, ← FieldType.canon_getD, FieldType.kept_canon]
  rw [mainRow, mainRow, Column.sown, Column.sown, hsame]

/-- A document that was grown back repeats no key. -/
theorem nodup_keys_document (hsound : s.Sound) (id : Int64) (entries : Entries Tree) :
    (Entries.keys (s.document id entries)).Nodup := by
  refine Entries.nodup_keys_merge ?_ _
  rw [Entries.keys, List.map_cons, List.map_map]
  exact nodup_mainNames hsound

/-- Under any id a document grows back with the same entries after that of the id. -/
theorem exists_document_cons (s : Schema) (entries : Entries Tree) :
    ∃ rest, ∀ id, ∃ value, s.document id entries = (idColumn, value) :: rest := by
  obtain ⟨rest, hrest⟩ := Entries.exists_merge_cons idColumn
    (s.mainFields.map fun f => (f.name, f.type.canon (Entries.get? entries f.name)))
    (s.secondaryTables.map fun u =>
      (u.1, .seq ((Tree.elements (Entries.get? entries u.1)).map u.2.canon)))
  exact ⟨rest, fun id => hrest (.int id)⟩

/-! ## Rows that come from documents -/

/-- Every row of a table of the schema is the row of values that have passed. -/
structure Stocked (s : Schema) (db : Database) : Prop where
  main : ∀ r ∈ db.rowsOf s.mainTable, ∃ source cells n,
    s.mainPlan.encodeEntries source = .ok cells ∧ r = s.mainRow n cells
  branches : ∀ u ∈ s.secondaryTables, ∀ r ∈ db.rowsOf u.1, ∃ item cells k n,
    (s.branch u).encode item = .ok cells ∧ r = s.branchRow u k n cells

theorem stocked_empty (s : Schema) (checked : Bool) : s.Stocked { checked } where
  main _ hr := by cases hr
  branches _ _ _ hr := by cases hr

/-- Fewer rows have still come from documents. -/
theorem Stocked.of_subset (h : s.Stocked db)
    (hrows : ∀ name, ∀ r ∈ db'.rowsOf name, r ∈ db.rowsOf name) : s.Stocked db' where
  main r hr := h.main r (hrows _ r hr)
  branches u hu r hr := h.branches u hu r (hrows _ r hr)

/-- A row of a branch is the row of an element whose values have passed. -/
theorem Bears.exists_item {id : Int64} {items : List Tree} {rows : List Row}
    (h : s.Bears u id items rows) {r : Row} (hr : r ∈ rows) : ∃ item cells n,
      (s.branch u).encode item = .ok cells ∧ r = s.branchRow u id n cells := by
  induction h with
  | nil => cases hr
  | cons hrow _ ih =>
    rcases List.mem_cons.1 hr with rfl | hr
    · exact ⟨_, hrow⟩
    · exact ih hr

/-- The values of every element of a branch have passed. -/
theorem Bears.exists_cells {id : Int64} {items : List Tree} {rows : List Row}
    (h : s.Bears u id items rows) {item : Tree} (hitem : item ∈ items) :
    ∃ cells, (s.branch u).encode item = .ok cells := by
  induction h with
  | nil => cases hitem
  | cons hrow _ ih =>
    rcases List.mem_cons.1 hitem with rfl | hitem
    · rcases hrow with ⟨cells, -, hcells, -⟩
      exact ⟨cells, hcells⟩
    · exact ih hitem

/-- A database stays stocked when a document grows in it. -/
theorem Stocked.of_grew (h : s.Stocked db) {entries : Entries Tree} {id : Int64}
    (hgrew : s.Grew entries id db db') : s.Stocked db' where
  main r hr := by
    rcases hgrew.main with ⟨cells, hcells, hrows⟩
    rw [hrows, List.mem_append, List.mem_singleton] at hr
    rcases hr with hr | rfl
    · exact h.main r hr
    · exact ⟨entries, cells, id, hcells, rfl⟩
  branches u hu r hr := by
    rcases hgrew.branches u hu with ⟨items, rows, -, hbears, hrows⟩
    rw [hrows, List.mem_append] at hr
    rcases hr with hr | hr
    · exact h.branches u hu r hr
    · rcases hbears.exists_item hr with ⟨item, cells, n, hcells, rfl⟩
      exact ⟨item, cells, id, n, hcells, rfl⟩

/-- Rows that refer to an id and come from elements are the rows of those elements. -/
theorem exists_bears (hu : u ∈ s.secondaryTables) (id : Int64) (rows : List Row)
    (h : ∀ r ∈ rows, r.cell 1 = .int id ∧ ∃ item cells k n,
      (s.branch u).encode item = .ok cells ∧ r = s.branchRow u k n cells) :
    ∃ items, s.Bears u id items rows := by
  induction rows with
  | nil => exact ⟨[], .nil⟩
  | cons r rows ih =>
    rw [List.forall_mem_cons] at h
    rcases h with ⟨⟨hcell, item, cells, k, n, hcells, rfl⟩, hrest⟩
    rcases ih hrest with ⟨items, hitems⟩
    have hcell' : (s.branchRow u k n cells).cell 1 = .int k := by
      rw [Row.cell, cells_branchRow hu]
      rfl
    obtain rfl : k = id := Cell.int.inj (hcell'.symm.trans hcell)
    exact ⟨item :: items, .cons ⟨cells, n, hcells, rfl⟩ hitems⟩

/-- The rows of a branch that refer to an id are those of elements, in order of their numbers. -/
theorem Stocked.exists_rows (hstocked : s.Stocked db) (h : s.Tended db)
    (hu : u ∈ s.secondaryTables) (id : Int64) : ∃ items rows, s.Bears u id items rows ∧
      (rows.Pairwise fun r r' => r.number.toInt < r'.number.toInt) ∧
      ∀ r, (r ∈ db.rowsOf u.1 ∧ r.cell 1 = .int id) ↔ r ∈ rows := by
  obtain ⟨rows, hrows⟩ : ∃ rows, rows = (db.rowsOf u.1).filter fun r => r.cell 1 = .int id :=
    ⟨_, rfl⟩
  have hiff : ∀ r, (r ∈ db.rowsOf u.1 ∧ r.cell 1 = .int id) ↔ r ∈ rows := by
    intro r
    rw [hrows, List.mem_filter, decide_eq_true_iff]
  rcases exists_bears hu id rows fun r hr =>
    ⟨((hiff r).2 hr).2, hstocked.branches u hu r ((hiff r).2 hr).1⟩ with ⟨items, hbears⟩
  refine ⟨items, rows, hbears, ?_, hiff⟩
  rw [hrows]
  exact (h.sorted_rowsOf (mem_secondaryTables.1 hu).1).filter _

/-- Under the number of every main row stands a document. -/
theorem Stocked.exists_rooted (hstocked : s.Stocked db) (h : s.Tended db) {r : Row}
    (hr : r ∈ db.rowsOf s.mainTable) : ∃ source items, s.Rooted r.number source items db := by
  rcases hstocked.main r hr with ⟨source, cells, n, hcells, rfl⟩
  choose! items hitems using fun u (hu : u ∈ s.secondaryTables) => hstocked.exists_rows h hu n
  exact ⟨source, items, ⟨cells, hcells, hr⟩, hitems⟩

/-! ## Rooted documents -/

/-- What stands under an id is also rooted in its own canonical form. -/
theorem Rooted.canon (hsound : s.Sound)
    (hknown : ∀ u ∈ s.tables, ∀ f ∈ u.2.dataFields, f.codec.fieldType = f.type)
    {id : Int64} {source entries : Entries Tree} {items : String × Table → List Tree}
    (hentries : entries = s.assembled id (fun f => f.type.canon (Entries.get? source f.name))
      fun u => (items u).map u.2.canon)
    (h : s.Rooted id source items db) :
    s.Rooted id entries (fun u => Tree.elements (Entries.get? entries u.1)) db := by
  rcases mainSound hsound with ⟨m, hm, -⟩
  refine ⟨?_, fun u hu => ?_⟩
  · rcases h.main with ⟨cells, hcells, hr⟩
    have hmain : ∀ f ∈ s.mainFields, f.codec.fieldType = f.type := by
      rw [mainFields_eq hm]
      exact hknown _ (mem_of_table? hm)
    obtain ⟨cells', hcells', hrow⟩ := mainRow_canon hmain
      (fun f hf => hentries ▸ get?_assembled_field id _ _ hsound hf) hcells id
    exact ⟨cells', hcells', hrow ▸ hr⟩
  · rcases h.branches u hu with ⟨rows, hbears, hrows⟩
    refine ⟨rows, ?_, hrows⟩
    rw [hentries, get?_assembled_branch id _ _ hu]
    refine List.forall₂_map_left_iff.2 (hbears.imp ?_)
    rintro item r ⟨cells, n, hcells, rfl⟩
    obtain ⟨cells', hcells', hrow⟩ := branchRow_canon hsound hu
      (hknown u (mem_secondaryTables.1 hu).1) hcells id n
    exact ⟨cells', n, hcells', hrow.symm⟩

/-- A document whose rows stand in a database, with a sequence for every branch, conforms. -/
theorem Rooted.conforms (hknown : ∀ u ∈ s.tables, ∀ f ∈ u.2.dataFields, f.codec.fieldType = f.type)
    (hmain : ∀ f ∈ s.mainFields, f.codec.fieldType = f.type)
    {id : Int64} {entries : Entries Tree} {items : String × Table → List Tree}
    (hbranch : ∀ u ∈ s.secondaryTables, Entries.get? entries u.1 = some (.seq (items u)))
    (h : s.Rooted id entries items db) : s.Conforms (.map entries) := by
  rcases h.main with ⟨cells, hcells, -⟩
  refine .mapping ((exists_encodeEntries hmain).1 ⟨cells, hcells⟩) fun u hu => ?_
  rcases h.branches u hu with ⟨rows, hbears, -⟩
  rw [hbranch u hu]
  refine .sequence fun x hx => ?_
  exact (exists_encode (s := s) (hknown u (mem_secondaryTables.1 hu).1)).1 (hbears.exists_cells hx)

/-- What one document has put in stands under no other id. -/
theorem Rooted.of_grew {id id' : Int64} {source entries : Entries Tree}
    {items : String × Table → List Tree} (h : s.Rooted id source items db) (hne : id ≠ id')
    (hgrew : s.Grew entries id' db db') : s.Rooted id source items db' where
  main := by
    rcases h.main with ⟨cells, hcells, hr⟩
    rcases hgrew.main with ⟨_, -, hrows⟩
    refine ⟨cells, hcells, ?_⟩
    rw [hrows]
    exact List.mem_append_left _ hr
  branches u hu := by
    rcases h.branches u hu with ⟨rows, hbears, hsorted, hiff⟩
    rcases hgrew.branches u hu with ⟨_, added, -, hadded, hrows⟩
    refine ⟨rows, hbears, hsorted, fun r => ?_⟩
    rw [← hiff, hrows, List.mem_append]
    refine and_congr_left fun hcell => or_iff_left fun hr => ?_
    exact hne (Cell.int.inj (hcell.symm.trans (hadded.cell hu hr)))

/-- The id of a main row had been given. -/
theorem Rooted.le_counterOf (hsound : s.Sound) (htended : s.Tended db) {id : Int64}
    {source : Entries Tree} {items : String × Table → List Tree}
    (h : s.Rooted id source items db) : id.toInt ≤ db.counterOf s.mainTable := by
  rcases hsound.main with ⟨m, hm, -⟩
  rcases h.main with ⟨cells, -, hr⟩
  exact htended.number_le (mem_of_table? hm) hr

end Schema

namespace Store

variable {s : Store} {db : Database}

/-! ## Documents that were read -/

/-- No step puts in a row that does not come from a document. -/
theorem Effect.stocked {db' : Database} {a : Step} {doc : Option (Int64 × Tree)}
    (heffect : s.Effect db a doc db') (h : s.schema.Stocked db) : s.schema.Stocked db' := by
  cases heffect with
  | idle hdefines _ => exact h.of_subset fun name r hr => hdefines.rows name ▸ hr
  | grew _ hgrew _ => exact h.of_grew hgrew
  | thinned _ hthins => exact h.of_subset fun name r hr => hthins.mem_rowsOf hr

/-- A database stays stocked along every run. -/
theorem stocked_of_run (h : s.schema.Tended db) (hc : s.schema.Complete db)
    (hstocked : s.schema.Stocked db) (steps : List Step) :
    s.schema.Stocked (s.reached db steps) := by
  induction steps generalizing db with
  | nil => exact hstocked
  | cons a steps ih =>
    have heffect := effect_step h a
    rcases heffect.keeps h hc with ⟨htended, hcomplete, -⟩
    exact ih htended hcomplete (heffect.stocked hstocked)

/-- Every database that a run leads to from an empty one is stocked. -/
theorem stocked_reached (s : Store) (checked : Bool) (steps : List Step) :
    s.schema.Stocked (s.reached { checked } steps) :=
  stocked_of_run (s.schema.tended_empty checked) (s.schema.complete_empty checked)
    (s.schema.stocked_empty checked) steps

/-- A document that is read stands under its id. -/
theorem rooted_of_get (h : s.schema.Tended db)
    (hstocked : s.schema.Stocked db) {id : Int64} {entries : Entries Tree}
    (hget : (s.get id).result db = .ok entries) :
    ∃ source items, s.schema.Rooted id source items db := by
  have hsound := s.schema_sound
  rcases Schema.mainSound hsound with ⟨m, hm, -, hmain⟩
  rcases get_eq_ok.1 hget with ⟨row, rest, -, -, hselect, -⟩
  rcases Database.exists_of_select hselect with ⟨t, ht⟩
  have hmem := Schema.mem_of_table? hm
  have hplanted := h.planted _ hmem t ht
  have htrailing := Schema.trailing_planted (s := s.schema) hmain
  -- The row that was found has the number that was asked for.
  obtain ⟨r, hr, hnumber⟩ : ∃ r ∈ t.rows, r.number = id := by
    have hrows : db.select s.schema.mainPlan.select [.int id] = _ :=
      Database.selectMain_eq ht _ _
    rw [hselect] at hrows
    rcases List.map_eq_cons_iff.1 (Except.ok.inj hrows).symm with ⟨r, rs, hfilter, -⟩
    have hr : r ∈ t.rows.filter (t.holds idColumn (.int id)) := by
      rw [hfilter]
      exact List.mem_cons_self
    rcases List.mem_filter.1 hr with ⟨hr, hholds⟩
    exact ⟨r, hr, ((hplanted.fitted htrailing).holds_id hr).1 hholds⟩
  rw [← Database.rowsOf_eq ht] at hr
  exact hnumber ▸ hstocked.exists_rooted h hr

/-- A document that is read stands under its id in the form in which it was read, and it
conforms. -/
theorem rooted_self_of_get (h : s.schema.Tended db) (hc : s.schema.Complete db)
    (hstocked : s.schema.Stocked db) {id : Int64} {entries : Entries Tree}
    (hget : (s.get id).result db = .ok entries) :
    s.schema.Rooted id entries (fun u => Tree.elements (Entries.get? entries u.1)) db ∧
      entries = s.schema.document id entries ∧ s.schema.Conforms (.map entries) := by
  rcases rooted_of_get h hstocked hget with ⟨source, items, hrooted⟩
  have hentries := Except.ok.inj (hget.symm.trans (get_of_rooted h hc hrooted))
  have hself := hrooted.canon s.schema_sound (fun u hu f hf => s.fieldType_codec hu hf) hentries
  refine ⟨hself, Except.ok.inj (hget.symm.trans (get_of_rooted h hc hself)), ?_⟩
  refine hself.conforms (fun u hu f hf => s.fieldType_codec hu hf) s.fieldType_mainCodec ?_
  intro u hu
  rw [hentries, Schema.get?_assembled_branch id _ _ hu]
  rfl

/-- Under an id that no main row has there is no document. -/
theorem get_of_absent (h : s.schema.Tended db) (hfurnished : s.schema.Furnished db) {id : Int64}
    (habsent : ∀ r ∈ db.rowsOf s.schema.mainTable, r.number ≠ id) :
    (s.get id).result db = .error (.notFound s.schema.mainTable id) := by
  rcases Schema.mainSound s.schema_sound with ⟨m, hm, -, hmain⟩
  have hmem := Schema.mem_of_table? hm
  rcases Option.isSome_iff_exists.1 (hfurnished _ hmem) with ⟨t, ht⟩
  have hplanted := h.planted _ hmem t ht
  have htrailing := Schema.trailing_planted (s := s.schema) hmain
  rw [Database.rowsOf_eq ht] at habsent
  have hnone : t.rows.filter (t.holds idColumn (.int id)) = [] := by
    rw [List.filter_eq_nil_iff]
    intro r hr hholds
    exact habsent r hr (((hplanted.fitted htrailing).holds_id hr).1 hholds)
  have hselect : db.select s.schema.mainPlan.select [.int id] = _ :=
    Database.selectMain_eq ht _ _
  rw [hnone, List.map_nil] at hselect
  rw [get, plan_eq, Plan.growTree, Database.Action.result_eq, Database.Action.run_bind,
    Database.Action.run_reporting, Database.Action.select, Database.Action.run_ask]
  have hmainPlan : s.schema.plan.main.select = s.schema.mainPlan.select := rfl
  rw [hmainPlan, hselect]
  rfl

/-- What conforms is refused by no check, and with numbers left by nothing else. -/
theorem exists_insert (h : s.schema.Tended db) (hfurnished : s.schema.Furnished db) {tree : Tree}
    (hroom : s.schema.HasRoom db tree) (hconforms : s.schema.Conforms tree) :
    ∃ id, (s.insert tree).result db = .ok id := by
  have herror := error?_insert h hfurnished hroom
  rw [← s.head?_violations, Schema.violations_eq_nil.2 hconforms] at herror
  exact Outcome.error?_eq_none.1 herror

/-- A document that was inserted grows back at once. -/
theorem get_of_insert (s : Store) (checked : Bool) (steps : List Step) (entries : Entries Tree)
    (id : Int64)
    (hinsert : (s.insert (.map entries)).result (s.reached { checked } steps) = .ok id) :
    s.schema.Grew entries id (s.reached { checked } steps)
        (s.reached { checked } (steps ++ [.insert (.map entries)])) ∧
      (s.get id).result (s.reached { checked } (steps ++ [.insert (.map entries)])) =
        .ok (s.schema.document id entries) := by
  rcases s.keeps_reached_empty checked steps with ⟨htended, hcomplete, -⟩
  obtain ⟨_, xs, hmap, htended', hgrew, -⟩ := grew_of_insert htended hinsert
  cases hmap
  rw [reached_concat]
  exact ⟨hgrew, get_of_retains htended htended' hgrew
    (.refl htended' (hcomplete.of_eq hgrew.tables)) fun _ _ hr _ => hr⟩

/--
A document that was read from any database that a run leads to can be inserted as it is, if numbers
are left for its rows.  Under a new id it grows back with the same entries in the same order, all
but the id, and the document that was read stays as it was.
-/
theorem get_reinserted (s : Store) (checked : Bool) (steps : List Step) (id : Int64)
    (entries : Entries Tree) (hget : (s.get id).result (s.reached { checked } steps) = .ok entries)
    (hroom : s.schema.HasRoom (s.reached { checked } steps) (.map entries)) :
    ∃ id' value value' rest,
      (s.insert (.map entries)).result (s.reached { checked } steps) = .ok id' ∧
      (s.get id').result (s.reached { checked } steps) =
        .error (.notFound s.schema.mainTable id') ∧
      idColumn ∉ Entries.keys rest ∧ entries = (idColumn, value) :: rest ∧
      (s.get id').result (s.reached { checked } (steps ++ [.insert (.map entries)])) =
        .ok ((idColumn, value') :: rest) ∧
      (s.get id).result (s.reached { checked } (steps ++ [.insert (.map entries)])) =
        .ok entries := by
  have hsound := s.schema_sound
  rcases s.keeps_reached_empty checked steps with ⟨htended, hcomplete, -⟩
  rcases s.keeps_reached_empty checked (steps ++ [.insert (.map entries)]) with
    ⟨htended', hcomplete', -⟩
  -- What was read is its own document, which conforms, so that it can be inserted once more.
  obtain ⟨hrooted, hself, hconforms⟩ :=
    rooted_self_of_get htended hcomplete (s.stocked_reached checked steps) hget
  have hfurnished := hrooted.furnished hsound hcomplete
  obtain ⟨id', hinsert⟩ := exists_insert htended hfurnished hroom hconforms
  obtain ⟨hgrew, hgrown⟩ := s.get_of_insert checked steps entries id' hinsert
  have hnumber := hgrew.number
  rcases hsound.main with ⟨m, hm, -⟩
  -- The new number is above the counter, and no row had one above it.
  have habsent : ∀ r ∈ (s.reached { checked } steps).rowsOf s.schema.mainTable,
      r.number ≠ id' := by
    rintro r hr rfl
    have hle := htended.number_le (Schema.mem_of_table? hm) hr
    have hle : r.number.toInt ≤ (s.reached { checked } steps).counterOf s.schema.mainTable := hle
    omega
  have hne : id ≠ id' := by
    rintro rfl
    have hle := hrooted.le_counterOf hsound htended
    omega
  obtain ⟨rest, hrest⟩ := s.schema.exists_document_cons entries
  rcases hrest id with ⟨value, hvalue⟩
  rcases hrest id' with ⟨value', hvalue'⟩
  have hentries : entries = (idColumn, value) :: rest := hself.trans hvalue
  refine ⟨id', value, value', rest, hinsert, get_of_absent htended hfurnished habsent, ?_,
    hentries, hgrown.trans (congrArg Except.ok hvalue'), ?_⟩
  · have hnodup := Schema.nodup_keys_document hsound id entries
    rw [← hself, hentries] at hnodup
    exact (List.nodup_cons.1 hnodup).1
  · rw [get_of_rooted htended' hcomplete' (hrooted.of_grew hne hgrew), ← Schema.document_eq,
      ← hself]

/-- A plant with a whole number as its height and a tag without a label. -/
def potted : List Step :=
  [.provision, .insert (.map [("height", .int 3), ("tags", .seq [.text "green", .null])])]

/-- The plant grows back under another id, its height still a float. -/
theorem get_reinserted_plants : ∃ id entries value rest,
    (plants.get 1).result (plants.reached {} potted) = .ok entries ∧
      (plants.get id).result (plants.reached {} (potted ++ [.insert (.map entries)])) =
        .ok ((idColumn, value) :: rest) ∧
      rest = [("name", .null), ("height", .float (Double.ofInt 3)),
        ("tags", .seq [.text "green", .null]), ("leaves", .seq [])] := by
  have hget := (plants.get_of_insert true [.provision]
    [("height", .int 3), ("tags", .seq [.text "green", .null])] 1 (by decide +kernel)).2
  obtain ⟨id', value, value', rest, -, -, -, hentries, hgrown, -⟩ := get_reinserted plants true
    potted 1 _ hget ⟨by decide +kernel, by decide +kernel⟩
  exact ⟨id', _, value', rest, hget, hgrown, (List.cons.inj hentries).2.symm⟩

end Store
end Espalier
