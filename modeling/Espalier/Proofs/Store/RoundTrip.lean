import Espalier.Proofs.Database.Settling
import Espalier.Proofs.Store.History
import Espalier.Proofs.Store.Keys

/-!
# What is inserted is read back

A document that was inserted is grown back from its rows for as long as they are there, whatever
else is inserted or deleted before or after.  Scalars come back in the canonical form of their type:
what is absent is null, integers in a float field are floats, and what is not a number is null.
-/

namespace Espalier

open Database (Cell Row)

/-! ## Canonical values -/

/-- A scalar as it is read back: nothing is null, a number in a float field is a float, what is not
a number is null, and zero has no sign. -/
def FieldType.canon (type : FieldType) (value : Option Tree) : Tree :=
  match type, value with
  | _, none => .null
  | .float, some (.int n) => .float (Double.ofInt n.toInt)
  | .float, some (.float x) =>
    if x.isNaN then .null else .float (if x.isZero then Double.zero false else x)
  | _, some value => value

/-- What a column of the type holds for a scalar that it takes. -/
def FieldType.kept : FieldType → Tree → Cell
  | string, .text s => .text s
  | datetime, .text s => .text s
  | integer, .int n => .int n
  | float, .int n => .real (Double.ofInt n.toInt)
  | float, .float x => if x.isNaN then .null else .real (if x.isZero then Double.zero false else x)
  | boolean, .bool b => .int (if b then 1 else 0)
  | _, _ => .null

/-- The elements that an entry of a document stands for. -/
def Tree.elements (value : Option Tree) : List Tree :=
  match value with
  | some (.seq items) => items
  | some (.map entries) => [.map entries]
  | _ => []

/-- The element of a branch as it is read back. -/
def Table.canon (t : Table) (item : Tree) : Tree :=
  if t.isList then
    match t.valueField with
    | some f => f.type.canon (some item)
    | none => .null
  else .map (t.fields.map fun f => (f.name, f.type.canon (item.get? f.name)))

/-- A value that is not there counts as null. -/
theorem FieldType.canon_getD (type : FieldType) (value : Option Tree) :
    type.canon (some (value.getD .null)) = type.canon value := by
  cases value with
  | none => cases type <;> rfl
  | some v => rfl

/-- What a column does to a value goes by its type. -/
theorem Column.keep_eq (c : Column) (v : Cell) :
    c.keep v =
      match c.type with
      | .text => v.toText
      | .integer => v.toNumeric
      | .real => v.toReal := by
  have haffinity : Database.Affinity.ofDeclared c.type.name =
      match c.type with
      | .text => .text
      | .integer => .numeric
      | .real => .real := by
    cases c.type <;> decide
  rw [Column.keep, haffinity]
  cases c.type <;> rfl

/-- A scalar that is taken is stored as its type keeps it. -/
theorem Field.keep_encode {f : Field} (hf : f.codec.fieldType = f.type) {value : Tree} {cell : Cell}
    (h : f.codec.encode f.name value = .ok cell) : f.column.keep cell = f.type.kept value := by
  rcases f with ⟨name, type⟩
  rw [Column.keep_eq]
  cases type with
  | unknown word => cases hf
  | string => cases value <;> cases h <;> rfl
  | integer => cases value <;> cases h <;> rfl
  | boolean =>
    cases value with
    | bool b =>
      cases h
      cases b <;> rfl
    | _ => cases h <;> rfl
  | datetime =>
    -- Only what reads as a time is taken, and it is kept as it was written.
    cases value with
    | text word =>
      have hencode : (if Timestamp.isTimestamp word then .ok (Cell.text word)
          else Store.Codec.datetime.refuse name s!"unparseable datetime '{word}'") = .ok cell := h
      split at hencode
      · cases hencode
        rfl
      · cases hencode
    | _ => cases h <;> rfl
  | float =>
    cases value with
    | float x =>
      cases h
      -- What is not a number has no value, and a column for doubles forgets the sign of zero.
      by_cases hnan : x.isNaN = true
      · have hcell : Cell.ofDouble x = .null := if_pos hnan
        rw [FieldType.kept, hcell, if_pos hnan]
        rfl
      · have hcell : Cell.ofDouble x = .real x := if_neg hnan
        rw [FieldType.kept, hcell, if_neg hnan]
        exact Cell.toReal_real x
    | _ => cases h <;> rfl

/-- What is stored of a scalar is read back as its canonical form. -/
theorem Field.decode_keep {f : Field} (hf : f.codec.fieldType = f.type) {value : Tree} {cell : Cell}
    (h : f.codec.encode f.name value = .ok cell) :
    f.codec.decode (f.column.keep cell) = .ok (f.type.canon (some value)) := by
  rw [Field.keep_encode hf h]
  rcases f with ⟨name, type⟩
  cases type with
  | unknown word => cases hf
  | string => cases value <;> cases h <;> rfl
  | integer => cases value <;> cases h <;> rfl
  | datetime =>
    cases value with
    | text word => rfl
    | _ => cases h <;> rfl
  | boolean =>
    cases value with
    | bool b => cases b <;> rfl
    | _ => cases h <;> rfl
  | float =>
    cases value with
    | float x =>
      rw [FieldType.kept, FieldType.canon]
      split <;> rfl
    | _ => cases h <;> rfl

/-! ## Elements -/

/-- The elements of a branch are those of the value. -/
theorem Store.Branch.elements_eq {b : Store.Branch} {value : Option Tree} {items : List Tree}
    (h : b.elements value = .ok items) : items = Tree.elements value := by
  unfold Store.Branch.elements at h
  cases hkind : b.kind <;> rw [hkind] at h <;> cases value with
  | none =>
    cases h
    rfl
  | some v =>
    cases v <;> cases h <;> rfl

/-! ## Rows -/

section Fields

variable {fs : List Field} {entries : Entries Tree} {cells : List Cell}

/-- The values of fields are read back under the names of the fields. -/
theorem decode_fields (hknown : ∀ f ∈ fs, f.codec.fieldType = f.type)
    (h : List.Forall₂ (fun f cell => f.codec.encode f.name
      ((Entries.get? entries f.name).getD .null) = .ok cell) fs cells) :
    ((fs.map Field.dataColumn).zip (List.zipWith Column.keep (fs.map Field.column) cells)).mapM
      (fun (c, cell) => do
        let value ← c.codec.decode cell
        return (c.name, value)) =
      (.ok (fs.map fun f => (f.name, f.type.canon (Entries.get? entries f.name))) :
        Except Store.Cause (Entries Tree)) := by
  -- Columns, values and names run side by side, one step for each field.
  induction h with
  | nil => rfl
  | @cons f cell fs cells hf _ ih =>
    have hrest := ih fun g hg => hknown g (List.mem_cons_of_mem f hg)
    have hfirst := Field.decode_keep (hknown f List.mem_cons_self) hf
    rw [FieldType.canon_getD] at hfirst
    rw [List.map_cons, List.map_cons, List.zipWith_cons_cons, List.zip_cons_cons, List.mapM_cons,
      hrest]
    have hcolumn : f.dataColumn.codec.decode (f.column.keep cell) =
        .ok (f.type.canon (Entries.get? entries f.name)) := hfirst
    simp only [hcolumn]
    rfl

/-- The data values of a mapping are read back as the canonical values of its fields. -/
theorem Store.TablePlan.decodeEntries_keep {t : Store.TablePlan}
    (ht : t.columns = fs.map Field.dataColumn) (hknown : ∀ f ∈ fs, f.codec.fieldType = f.type)
    (h : t.encodeEntries entries = .ok cells) :
    t.decodeEntries (List.zipWith Column.keep (fs.map Field.column) cells) =
      .ok (fs.map fun f => (f.name, f.type.canon (Entries.get? entries f.name))) := by
  have hcells := Outcome.mapM_eq_ok.1 h
  rw [ht, List.forall₂_map_left_iff] at hcells
  rw [Store.TablePlan.decodeEntries, ht]
  exact decode_fields hknown hcells

end Fields

namespace Schema

open Store

section Branches

variable {s : Schema} {u : String × Table} {t : Database.Table} {item : Tree} {cells : List Cell}

/-- The names of the data fields read what stands after the number and the reference. -/
theorem map_operand_branchRow (hsound : s.Sound) (hu : u ∈ s.secondaryTables)
    (ht : t.Planted (s.planted u.1 u.2)) (id n : Int64) (h : cells.length = u.2.dataFields.length) :
    (u.2.dataFields.map Field.name).map
        (fun name => (t.operand name).value (s.branchRow u id n cells)) =
      List.zipWith Column.keep (u.2.dataFields.map Field.column) cells := by
  have hnames : (u.2.dataFields.map Field.column).map Column.name =
      u.2.dataFields.map Field.name := by
    rw [List.map_map]
    rfl
  have hread := ht.map_operand
    (trailing_planted (hsound.tables u (mem_secondaryTables.1 hu).1))
    [Column.id, Column.parent s.mainTable] (u.2.dataFields.map Field.column)
    (by rw [planted_secondary hu]; rfl) (cells_branchRow hu id n cells) rfl (by simp [h])
  rw [hnames] at hread
  exact hread

theorem select_columns (s : Schema) (u : String × Table) :
    (s.branch u).table.select.columns =
      if (u.2.dataFields.map Field.name).isEmpty then [idColumn]
      else u.2.dataFields.map Field.name :=
  rfl

/-- The element of a list is read back as the canonical value of its type. -/
theorem decode_listRow (hsound : s.Sound) (hu : u ∈ s.secondaryTables)
    (hknown : ∀ f ∈ u.2.dataFields, f.codec.fieldType = f.type)
    (ht : t.Planted (s.planted u.1 u.2)) (id n : Int64) (hlist : u.2.isList = true)
    (h : (s.branch u).encode item = .ok cells) :
    (s.branch u).decode ((s.branch u).table.select.columns.map fun name =>
      (t.operand name).value (s.branchRow u id n cells)) = .ok (u.2.canon item) := by
  have hshape := (hsound.tables u (mem_secondaryTables.1 hu).1).shape hlist
  rcases Option.isSome_iff_exists.1 hshape.1 with ⟨f, hf⟩
  -- A list has a single field, so a row of it has a single cell besides its keys.
  have hfields : u.2.dataFields = [f] := by rw [Table.dataFields, if_pos hlist, hf]; rfl
  have hkind : (s.branch u).kind = .list := by rw [branch, if_pos hlist]
  have hplan : (s.branch u).table.columns = [f.dataColumn] := by
    simp [branch, branchPlan, hfields]
  obtain ⟨cell, hcell, rfl⟩ : ∃ cell, f.codec.encode f.name item = .ok cell ∧ cells = [cell] := by
    unfold Branch.encode at h
    rw [hkind] at h
    dsimp only at h
    rw [hplan, Outcome.mapM_eq_ok] at h
    cases h with
    | cons hcell hnil =>
      cases hnil
      exact ⟨_, hcell, rfl⟩
  have hdecode := Field.decode_keep (hknown f (by simp [hfields])) hcell
  have hlength : [cell].length = u.2.dataFields.length := by simp [hfields]
  have hvalues := map_operand_branchRow hsound hu ht id n hlength
  rw [hfields, List.map_cons, List.map_nil] at hvalues
  rw [select_columns, hfields, List.map_cons, List.map_nil, List.isEmpty_cons,
    if_neg Bool.false_ne_true, hvalues, Branch.decode, hkind, Table.canon, if_pos hlist, hf]
  unfold TablePlan.decodeElement
  rw [hplan]
  exact hdecode

/-- The mapping of an object table is read back with the canonical values of its fields. -/
theorem decode_objectRow (hsound : s.Sound) (hu : u ∈ s.secondaryTables)
    (hknown : ∀ f ∈ u.2.dataFields, f.codec.fieldType = f.type)
    (ht : t.Planted (s.planted u.1 u.2)) (id n : Int64) (hlist : u.2.isList = false)
    (h : (s.branch u).encode item = .ok cells) :
    (s.branch u).decode ((s.branch u).table.select.columns.map fun name =>
      (t.operand name).value (s.branchRow u id n cells)) = .ok (u.2.canon item) := by
  have hfields : u.2.dataFields = u.2.fields := by
    rw [Table.dataFields, if_neg (by simp [hlist])]
  have hkind : (s.branch u).kind = .object := by rw [branch, if_neg (by simp [hlist])]
  have hplan : (s.branch u).table.columns = u.2.fields.map Field.dataColumn := by
    rw [← hfields]
    rfl
  obtain ⟨entries, rfl, hentries⟩ : ∃ entries, item = .map entries ∧
      (s.branch u).table.encodeEntries entries = .ok cells := by
    unfold Branch.encode at h
    rw [hkind] at h
    cases item with
    | map entries => exact ⟨entries, rfl, h⟩
    | _ => cases h
  have hdecode := TablePlan.decodeEntries_keep hplan (fun f hf => hknown f (hfields ▸ hf)) hentries
  have hread : (s.branch u).table.decodeEntries ((s.branch u).table.select.columns.map fun name =>
      (t.operand name).value (s.branchRow u id n cells)) =
      .ok (u.2.fields.map fun f => (f.name, f.type.canon (Entries.get? entries f.name))) := by
    rw [← hdecode, select_columns]
    by_cases hempty : (u.2.dataFields.map Field.name).isEmpty = true
    · -- Without fields there is nothing to decode, whatever was selected.
      have hnone : (s.branch u).table.columns = [] := by
        rw [hplan, ← hfields]
        simpa using hempty
      rw [TablePlan.decodeEntries, TablePlan.decodeEntries, hnone]
      rfl
    · have hlength : cells.length = u.2.dataFields.length := by
        rw [length_encodeEntries hentries, hplan, hfields, List.length_map]
      rw [if_neg hempty, map_operand_branchRow hsound hu ht id n hlength, hfields]
  have hdistinct : ((u.2.fields.map fun f =>
      (f.name, f.type.canon (Entries.get? entries f.name))).map Prod.fst).Nodup := by
    rw [List.map_map, ← hfields]
    exact (hsound.tables u (mem_secondaryTables.1 hu).1).nodup_names
  rw [Branch.decode, hkind]
  dsimp only
  rw [hread, Table.canon, if_neg (by simp [hlist])]
  exact congrArg (fun es => Except.ok (Tree.map es)) (Entries.ofPairs_eq_self hdistinct)

/-- The row of an element of a branch is read back as the canonical form of the element. -/
theorem decode_branchRow (hsound : s.Sound) (hu : u ∈ s.secondaryTables)
    (hknown : ∀ f ∈ u.2.dataFields, f.codec.fieldType = f.type)
    (ht : t.Planted (s.planted u.1 u.2)) (id n : Int64) (h : (s.branch u).encode item = .ok cells) :
    (s.branch u).decode ((s.branch u).table.select.columns.map fun name =>
      (t.operand name).value (s.branchRow u id n cells)) = .ok (u.2.canon item) := by
  cases hlist : u.2.isList with
  | true => exact decode_listRow hsound hu hknown ht id n hlist h
  | false => exact decode_objectRow hsound hu hknown ht id n hlist h

end Branches

/-! ## Growing back -/

/-- Rows of a tended table stand by their numbers. -/
theorem Tended.sorted_rowsOf {s : Schema} {db : Database} (h : s.Tended db) {u : String × Table}
    (hu : u ∈ s.tables) :
    (db.rowsOf u.1).Pairwise fun r r' => r.number.toInt < r'.number.toInt := by
  cases ht : db.table? u.1 with
  | none =>
    rw [Database.rowsOf, ht]
    exact .nil
  | some t =>
    rw [Database.rowsOf_eq ht]
    exact (h.planted u hu t ht).sorted

/-- No row of a tended table has a number above the counter. -/
theorem Tended.number_le {s : Schema} {db : Database} (h : s.Tended db) {u : String × Table}
    (hu : u ∈ s.tables) {r : Row} (hr : r ∈ db.rowsOf u.1) :
    r.number.toInt ≤ db.counterOf u.1 := by
  rcases Database.exists_of_mem_rowsOf hr with ⟨t, ht, hr⟩
  rw [Database.counterOf_eq ht]
  exact (h.planted u hu t ht).bounded r hr

section Main

variable {s : Schema} {entries : Entries Tree} {cells : List Cell} {id : Int64}
  (hcells : s.mainPlan.encodeEntries entries = .ok cells)

include hcells

/-- The names of the id and of the main fields read a main row from its start to its end. -/
theorem map_operand_mainRow (hsound : s.Sound) {m : Table} (hm : s.main? = some m)
    {t : Database.Table} (ht : t.Planted (s.planted s.mainTable m)) :
    (idColumn :: s.mainFields.map Field.name).map
        (fun n => (t.operand n).value (s.mainRow id cells)) = (s.mainRow id cells).cells := by
  rcases mainSound hsound with ⟨m', hm', -, hmain⟩
  obtain rfl : m' = m := Option.some.inj (hm'.symm.trans hm)
  have hlength : cells.length = s.mainFields.length := by
    rw [length_encodeEntries hcells]
    simp [mainPlan]
  have hread := ht.map_operand (trailing_planted (s := s) hmain) [] _ rfl
    (List.nil_append (s.mainRow id cells).cells).symm rfl
    (by rw [planted_main hm]; simp [mainRow, Column.sown, hlength])
  have hnames : (Column.id :: s.planted s.mainTable m').map Column.name =
      idColumn :: s.mainFields.map Field.name := by
    rw [planted_main hm, List.map_cons, List.map_map]
    rfl
  rwa [hnames] at hread

/-- A main row is decoded into its id and the canonical main fields. -/
theorem decodeMain_mainRow (hsound : s.Sound)
    (hknown : ∀ f ∈ s.mainFields, f.codec.fieldType = f.type) :
    s.mainPlan.decodeMain (s.mainRow id cells).cells =
      .ok ((idColumn, .int id) ::
        s.mainFields.map fun f => (f.name, f.type.canon (Entries.get? entries f.name))) := by
  have hdecode := TablePlan.decodeEntries_keep rfl hknown hcells
  have hmerge : Entries.merge [(idColumn, Tree.int id)]
      (s.mainFields.map fun f => (f.name, f.type.canon (Entries.get? entries f.name))) =
      (idColumn, .int id) ::
        s.mainFields.map fun f => (f.name, f.type.canon (Entries.get? entries f.name)) := by
    refine Entries.merge_eq_append ?_
    rw [List.map_map]
    exact nodup_mainNames hsound
  have hrow : (s.mainRow id cells).cells =
      .int id :: List.zipWith Column.keep (s.mainFields.map Field.column) cells := rfl
  rw [hrow]
  unfold TablePlan.decodeMain
  dsimp only
  rw [hdecode, ← hmerge]
  rfl

/-- The main row of a document is found by its id and holds the canonical main fields. -/
theorem Tended.select_main (hsound : s.Sound) {db : Database} (h : s.Tended db)
    (hknown : ∀ f ∈ s.mainFields, f.codec.fieldType = f.type)
    (hr : s.mainRow id cells ∈ db.rowsOf s.mainTable) :
    db.select s.mainPlan.select [.int id] = .ok [(s.mainRow id cells).cells] ∧
      s.mainPlan.decodeMain (s.mainRow id cells).cells =
        .ok ((idColumn, .int id) ::
          s.mainFields.map fun f => (f.name, f.type.canon (Entries.get? entries f.name))) := by
  rcases mainSound hsound with ⟨m, hm, -, hmain⟩
  rcases Database.exists_of_mem_rowsOf hr with ⟨t, ht, hr⟩
  have hplanted := h.planted _ (mem_of_table? hm) t ht
  have hselect : db.select s.mainPlan.select [.int id] = _ :=
    Database.selectMain_eq ht (s.mainFields.map Field.name) (.int id)
  have hfound : t.rows.filter (t.holds idColumn (.int id)) = [s.mainRow id cells] :=
    (hplanted.fitted (trailing_planted (s := s) hmain)).filter_id hr
  refine ⟨?_, decodeMain_mainRow hcells hsound hknown⟩
  rw [hselect, hfound, List.map_cons, List.map_nil, map_operand_mainRow hcells hsound hm hplanted]

end Main

/-- The rows of a branch are found by the id and hold the canonical elements. -/
theorem Tended.grow_branch {s : Schema} (hsound : s.Sound) {db : Database} (h : s.Tended db)
    {u : String × Table} (hu : u ∈ s.secondaryTables)
    (hknown : ∀ f ∈ u.2.dataFields, f.codec.fieldType = f.type)
    (hsome : (db.table? u.1).isSome = true) {id : Int64} {items : List Tree} {rows : List Row}
    (hbears : s.Bears u id items rows)
    (hsorted : rows.Pairwise fun r r' => r.number.toInt < r'.number.toInt)
    (hrows : ∀ r, (r ∈ db.rowsOf u.1 ∧ r.cell 1 = .int id) ↔ r ∈ rows) :
    ((s.branch u).grow id).result db = .ok (items.map u.2.canon) := by
  have hmem := (mem_secondaryTables.1 hu).1
  rcases Option.isSome_iff_exists.1 hsome with ⟨t, ht⟩
  have hplanted := h.planted u hmem t ht
  have htrailing := trailing_planted (s := s) (hsound.tables u hmem)
  rw [Database.rowsOf_eq ht] at hrows
  -- Both lists are in the order of their numbers, so it is enough that they share their rows.
  have hfound : t.rows.filter (t.holds parentColumn (.int id)) = rows := by
    refine Database.Table.Fitted.eq_of_sorted (hplanted.sorted.filter _) hsorted ?_
    intro r
    rw [← hrows, List.mem_filter]
    refine and_congr_right fun hr => ?_
    rcases h.owned u hu r (by rw [Database.rowsOf_eq ht]; exact hr) with ⟨k, hcell, -⟩
    have hplanted' := hplanted
    have htrailing' := htrailing
    rw [planted_secondary hu] at hplanted' htrailing'
    rw [hplanted'.holds_parent htrailing' hcell, hcell, Cell.int.injEq]
  have hselect : db.select (s.branch u).table.select [.int id] = _ :=
    Database.selectSecondary_eq ht (u.2.dataFields.map Field.name) (.int id)
  rw [(hplanted.fitted htrailing).sorted_eq List.filter_sublist, hfound] at hselect
  refine (Branch.grow_eq_ok (checkValue_branch hsound hu)).2 ⟨_, hselect, ?_⟩
  rw [Outcome.mapM_eq_ok, List.forall₂_map_left_iff, List.forall₂_map_right_iff]
  refine hbears.flip.imp ?_
  rintro r item ⟨cells, n, hcells, rfl⟩
  exact decode_branchRow hsound hu hknown hplanted id n hcells

/-! ## Documents -/

/-- A document made of its id, the values of the main fields, and one sequence for each secondary
table. -/
def assembled (s : Schema) (id : Int64) (value : Field → Tree)
    (items : String × Table → List Tree) : Entries Tree :=
  Entries.merge ((idColumn, .int id) :: s.mainFields.map fun f => (f.name, value f))
    (s.secondaryTables.map fun u => (u.1, .seq (items u)))

/-- The document that an inserted mapping grows back to: its id, the main fields, and one sequence
for each secondary table. -/
def document (s : Schema) (id : Int64) (entries : Entries Tree) : Entries Tree :=
  Entries.merge
    ((idColumn, .int id) ::
      s.mainFields.map fun f => (f.name, f.type.canon (Entries.get? entries f.name)))
    (s.secondaryTables.map fun u =>
      (u.1, .seq ((Tree.elements (Entries.get? entries u.1)).map u.2.canon)))

theorem document_eq (s : Schema) (id : Int64) (entries : Entries Tree) :
    s.document id entries = s.assembled id (fun f => f.type.canon (Entries.get? entries f.name))
      fun u => (Tree.elements (Entries.get? entries u.1)).map u.2.canon :=
  rfl

/-- Documents have their branches in the order of the schema. -/
theorem names_of_branches (s : Schema) (value : String × Table → Tree) :
    (s.secondaryTables.map fun u => (u.1, value u)).map Prod.fst = s.branchNames := by
  rw [List.map_map]
  rfl

section Assembled

variable {s : Schema} (id : Int64) (value : Field → Tree) (items : String × Table → List Tree)

/-- The branches hide no main field. -/
theorem get?_assembled_field (hsound : s.Sound) {f : Field} (hf : f ∈ s.mainFields) :
    Entries.get? (s.assembled id value items) f.name = some (value f) := by
  have hname : f.name ∉ s.branchNames := by
    intro hmem
    exact branchNames_disjoint hsound hmem (List.mem_map_of_mem hf)
  have hdistinct := s.nodup_branchNames
  rw [← names_of_branches s fun u => .seq (items u)] at hname hdistinct
  rw [assembled, Entries.get?_merge hdistinct, Entries.get?_eq_none.2 hname, Option.none_or]
  refine Entries.get?_of_mem ?_ (List.mem_cons_of_mem _ (List.mem_map.2 ⟨f, hf, rfl⟩))
  rw [Entries.keys, List.map_cons, List.map_map]
  exact nodup_mainNames hsound

/-- A branch of an assembled document has its items. -/
theorem get?_assembled_branch {u : String × Table} (hu : u ∈ s.secondaryTables) :
    Entries.get? (s.assembled id value items) u.1 = some (.seq (items u)) := by
  have hdistinct := s.nodup_branchNames
  rw [← names_of_branches s fun u => .seq (items u)] at hdistinct
  have hfound := Entries.get?_of_mem hdistinct (List.mem_map_of_mem hu)
  rw [assembled, Entries.get?_merge hdistinct, hfound, Option.some_or]

end Assembled

/-- A main field of a document that was grown back has its canonical value. -/
theorem get?_document_field {s : Schema} (hsound : s.Sound) (id : Int64) (entries : Entries Tree)
    {f : Field} (hf : f ∈ s.mainFields) :
    Entries.get? (s.document id entries) f.name =
      some (f.type.canon (Entries.get? entries f.name)) :=
  get?_assembled_field id _ _ hsound hf

theorem get?_document_branch (s : Schema) (id : Int64) (entries : Entries Tree)
    {u : String × Table} (hu : u ∈ s.secondaryTables) :
    Entries.get? (s.document id entries) u.1 =
      some (.seq ((Tree.elements (Entries.get? entries u.1)).map u.2.canon)) :=
  get?_assembled_branch id _ _ hu

/-! ## Rooted documents -/

/-- The rows of a document stand under an id: the main row holds the values of `source`, and the
rows that refer to the id are those of the items. -/
structure Rooted (s : Schema) (id : Int64) (source : Entries Tree)
    (items : String × Table → List Tree) (db : Database) : Prop where
  main : ∃ cells, s.mainPlan.encodeEntries source = .ok cells ∧
    s.mainRow id cells ∈ db.rowsOf s.mainTable
  branches : ∀ u ∈ s.secondaryTables, ∃ rows, s.Bears u id (items u) rows ∧
    (rows.Pairwise fun r r' => r.number.toInt < r'.number.toInt) ∧
    ∀ r, (r ∈ db.rowsOf u.1 ∧ r.cell 1 = .int id) ↔ r ∈ rows

/-- Where a main row is, no table is missing. -/
theorem Rooted.furnished {s : Schema} (hsound : s.Sound) {id : Int64} {source : Entries Tree}
    {items : String × Table → List Tree} {db : Database} (h : s.Rooted id source items db)
    (hc : s.Complete db) : s.Furnished db := by
  rcases hsound.main with ⟨m, hm, -⟩
  rcases h.main with ⟨cells, -, hr⟩
  rcases Database.exists_of_mem_rowsOf hr with ⟨t, ht, -⟩
  exact hc ⟨_, mem_of_table? hm, by rw [ht]; rfl⟩

end Schema

/-! ## Rows that stay -/

/-- The rows that came with a change are still there later. -/
def Database.Retains (before after later : Database) : Prop :=
  ∀ name, ∀ r ∈ after.rowsOf name, r ∉ before.rowsOf name → r ∈ later.rowsOf name

/-- Only the names of tables matter. -/
theorem Database.retains_iff {before after later : Database} :
    Retains before after later ↔ ∀ t ∈ after.tables, ∀ r ∈ after.rowsOf t.name,
      r ∉ before.rowsOf t.name → r ∈ later.rowsOf t.name := by
  constructor
  · intro h t _
    exact h t.name
  · intro h name r hr
    rcases exists_of_mem_rowsOf hr with ⟨t, ht, -⟩
    have hname := table?_name ht
    rw [← rowsOf_congr hname] at hr ⊢
    rw [← rowsOf_congr hname]
    exact h t (List.mem_of_find?_eq_some ht) r hr

instance (before after later : Database) : Decidable (Database.Retains before after later) :=
  decidable_of_iff _ Database.retains_iff.symm

namespace Store

/-- A document grows back from its rows: each value in the canonical form of its type. -/
theorem get_of_rooted {s : Store} {db : Database} (h : s.schema.Tended db)
    (hc : s.schema.Complete db) {id : Int64} {source : Entries Tree}
    {items : String × Table → List Tree} (hrooted : s.schema.Rooted id source items db) :
    (s.get id).result db = .ok (s.schema.assembled id
      (fun f => f.type.canon (Entries.get? source f.name)) fun u => (items u).map u.2.canon) := by
  have hsound := s.schema_sound
  have hfurnished := hrooted.furnished hsound hc
  rcases hrooted.main with ⟨cells, hcells, hr⟩
  obtain ⟨hselect, hdecode⟩ := h.select_main hcells hsound s.fieldType_mainCodec hr
  have hbranch : ∀ u ∈ s.schema.secondaryTables,
      ((s.schema.branch u).grow id).result db = .ok ((items u).map u.2.canon) := by
    intro u hu
    have hmem := (Schema.mem_secondaryTables.1 hu).1
    rcases hrooted.branches u hu with ⟨rows, hbears, hsorted, hrows⟩
    exact h.grow_branch hsound hu (fun f hf => s.fieldType_codec hmem hf) (hfurnished u hmem)
      hbears hsorted hrows
  refine get_eq_ok.2 ⟨_, [], _, s.schema.secondaryTables.map fun u => (items u).map u.2.canon,
    hselect, hdecode, ?_, ?_⟩
  · rw [List.forall₂_map_right_iff, List.forall₂_same]
    exact hbranch
  · rw [Schema.branchNames, List.map_map, List.zip_map']
    rfl

/-- The rows of a document that was inserted stand under its id as long as they are there. -/
theorem rooted_of_retains {s : Store} {before after later : Database}
    (hbefore : s.schema.Tended before) {entries : Entries Tree} {id : Int64}
    (hafter : s.schema.Tended after) (hgrew : s.schema.Grew entries id before after)
    (hkeeps : s.Keeps after later) (hretains : Database.Retains before after later) :
    s.schema.Rooted id entries (fun u => Tree.elements (Entries.get? entries u.1)) later := by
  rcases s.schema_sound.main with ⟨m, hm, -⟩
  have hnumber := hgrew.number
  refine ⟨?_, fun u hu => ?_⟩
  · rcases hgrew.main with ⟨cells, hcells, hmainRows⟩
    -- The main row is new, since its number is past all numbers given before.
    refine ⟨cells, hcells, hretains _ _ (by rw [hmainRows]; simp) fun hold => ?_⟩
    have hle : id.toInt ≤ before.counterOf s.schema.mainTable :=
      hbefore.number_le (Schema.mem_of_table? hm) hold
    omega
  · have hmem := (Schema.mem_secondaryTables.1 hu).1
    rcases hgrew.branches u hu with ⟨items, rows, helements, hbears, hrows⟩
    rw [Branch.elements_eq helements] at hbears
    -- Nothing referred to the id before it was given.
    have hfresh : ∀ r ∈ before.rowsOf u.1, r.cell 1 ≠ .int id := by
      intro r hr hcell
      rcases hbefore.owned u hu r hr with ⟨k, hcell', hk⟩
      obtain rfl : k = id := Cell.int.inj (hcell'.symm.trans hcell)
      omega
    refine ⟨rows, hbears, ?_, fun r => ⟨?_, fun hr => ?_⟩⟩
    · have hsorted := hafter.sorted_rowsOf hmem
      rw [hrows] at hsorted
      exact (List.pairwise_append.1 hsorted).2.1
    · -- What refers to the id later came with the document.
      rintro ⟨hr, hcell⟩
      have hr := hkeeps.follows.mem_of_cell hu hr hcell (Int.le_of_eq hgrew.counter.symm)
      rw [hrows, List.mem_append] at hr
      rcases hr with hr | hr
      · exact absurd hcell (hfresh r hr)
      · exact hr
    · have hcell := hbears.cell hu hr
      refine ⟨hretains u.1 r ?_ fun hold => hfresh r hold hcell, hcell⟩
      rw [hrows]
      exact List.mem_append_right _ hr

/-- A document grows back from its rows as long as they are there. -/
theorem get_of_retains {s : Store} {before after later : Database}
    (hbefore : s.schema.Tended before) {entries : Entries Tree} {id : Int64}
    (hafter : s.schema.Tended after) (hgrew : s.schema.Grew entries id before after)
    (hkeeps : s.Keeps after later) (hretains : Database.Retains before after later) :
    (s.get id).result later = .ok (s.schema.document id entries) := by
  rw [Schema.document_eq]
  exact get_of_rooted hkeeps.tended hkeeps.complete
    (rooted_of_retains hbefore hafter hgrew hkeeps hretains)

/--
A document that was inserted at any point of any run is grown back later in the run, as long as the
rows that it came with are there: every main field with its canonical value, every list with the
canonical values of its elements in their order, and every object table with one mapping for each
element, of exactly the declared fields in their order.
-/
theorem get_inserted (s : Store) (checked : Bool) (before later : List Step) (tree : Tree)
    (id : Int64) (hinsert : (s.insert tree).result (s.reached { checked } before) = .ok id)
    (hretains : Database.Retains (s.reached { checked } before)
      (s.reached { checked } (before ++ [.insert tree]))
      (s.reached { checked } (before ++ .insert tree :: later))) :
    ∃ grown, (s.get id).result (s.reached { checked } (before ++ .insert tree :: later)) =
        .ok grown ∧
      (∀ f ∈ s.schema.mainFields,
        Entries.get? grown f.name = some (f.type.canon (tree.get? f.name))) ∧
      (∀ u ∈ s.schema.secondaryTables, ∀ f, u.2.isList = true → u.2.valueField = some f →
        Entries.get? grown u.1 = some (.seq
          ((Tree.elements (tree.get? u.1)).map fun x => f.type.canon (some x)))) ∧
      ∀ u ∈ s.schema.secondaryTables, u.2.isList = false →
        Entries.get? grown u.1 = some (.seq ((Tree.elements (tree.get? u.1)).map fun x =>
          .map (u.2.fields.map fun f => (f.name, f.type.canon (x.get? f.name))))) := by
  have hsound := s.schema_sound
  rcases s.keeps_reached_empty checked before with ⟨htended, hcomplete, -⟩
  have hrun : (s.insert tree).run (s.reached { checked } before) =
      (.ok id, s.reached { checked } (before ++ [.insert tree])) := by
    rw [reached_append]
    exact Prod.ext hinsert rfl
  obtain ⟨htended', entries, rfl, hgrew⟩ :=
    htended.written (((s.run_insert tree _).1 _ _).1 hrun)
  have hkeeps := keeps_reached htended' (hcomplete.of_eq hgrew.tables) later
  rw [← reached_append, List.append_assoc] at hkeeps
  -- The later steps keep the rows that were written, so the document is read off those.
  have hget := get_of_retains htended htended' hgrew hkeeps hretains
  refine ⟨_, hget, ?_, ?_, ?_⟩
  · intro f hf
    exact Schema.get?_document_field hsound id entries hf
  · intro u hu f hlist hf
    have hcanon : u.2.canon = fun x => f.type.canon (some x) := by
      funext x
      rw [Table.canon, if_pos hlist, hf]
    rw [s.schema.get?_document_branch id entries hu, hcanon]
    rfl
  · intro u hu hlist
    have hcanon : u.2.canon = fun x =>
        .map (u.2.fields.map fun f => (f.name, f.type.canon (x.get? f.name))) := by
      funext x
      rw [Table.canon, if_neg (by simp [hlist])]
    rw [s.schema.get?_document_branch id entries hu, hcanon]
    rfl

/-- A fern, inserted after a moss that is deleted later, keeps its height and its tags. -/
theorem get_inserted_plants : ∃ grown,
    (plants.get 2).result (plants.reached {} [.provision, .insert (.map [("name", .text "moss")]),
      .insert (.map [("height", .int 3), ("tags", .seq [.text "green", .null])]),
      .insert (.map [("tags", .seq [.text "brown"])]), .delete "plant" 1]) = .ok grown ∧
    Entries.get? grown "height" = some (.float (Double.ofInt 3)) ∧
    Entries.get? grown "tags" = some (.seq [.text "green", .null]) := by
  obtain ⟨grown, hget, hmain, hlist, -⟩ := get_inserted plants true
    [.provision, .insert (.map [("name", .text "moss")])]
    [.insert (.map [("tags", .seq [.text "brown"])]), .delete "plant" 1]
    (.map [("height", .int 3), ("tags", .seq [.text "green", .null])]) 2
    (by decide +kernel) (by decide +kernel)
  exact ⟨grown, hget, hmain ⟨"height", .float⟩ (by decide),
    hlist ("tags", ⟨[], true, some ⟨"label", .string⟩⟩) (by decide) ⟨"label", .string⟩ rfl rfl⟩

end Store
end Espalier
