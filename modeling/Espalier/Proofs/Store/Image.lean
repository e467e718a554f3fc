import Espalier.Proofs.Store.RoundTrip

/-!
# Rows as the image of documents

As long as nothing is deleted, the rows of a database are a function of the documents that were put
in.  The main table has one row for each document, and a secondary table has, document by document,
one row for each element of the entry of the table, numbered from one on and with the id of the
document in front of its values.  What failed on the way has left no row.
-/

namespace Espalier

open Database (Cell Row)

/-! ## Stored values -/

/-- What the data columns hold for an element of a secondary table. -/
def Table.kept (t : Table) (x : Tree) : List Cell :=
  if t.isList then t.valueField.toList.map fun f => f.type.kept x
  else t.fields.map fun f => f.type.kept ((x.get? f.name).getD .null)

/-- What the columns of fields hold for the values of a row. -/
theorem zipWith_keep {fields : List Field} (hknown : ∀ f ∈ fields, f.codec.fieldType = f.type)
    (given : String → Tree) {cells : List Cell}
    (h : (fields.map Field.dataColumn).mapM (fun c => c.codec.encode c.name (given c.name)) =
      .ok cells) :
    List.zipWith Column.keep (fields.map Field.column) cells =
      fields.map fun f => f.type.kept (given f.name) := by
  have hcells := Outcome.mapM_eq_ok.1 h
  rw [List.forall₂_map_left_iff] at hcells
  clear h
  induction hcells with
  | nil => rfl
  | @cons f cell fields cells hfirst _ ih =>
    have hrest := ih fun g hg => hknown g (List.mem_cons_of_mem f hg)
    have hcell : f.column.keep cell = f.type.kept (given f.name) :=
      Field.keep_encode (hknown f List.mem_cons_self) hfirst
    rw [List.map_cons, List.zipWith_cons_cons, hrest, hcell, List.map_cons]

namespace Schema

/-! ## Images -/

/-- Rows with the numbers from one on, each number in the first column. -/
def numberedRows (contents : List (List Cell)) : List Row :=
  contents.zipIdx.map fun x =>
    ⟨Int64.ofNat (x.2 + 1), .int (Int64.ofNat (x.2 + 1)) :: x.1⟩

/-- The main rows of documents with their ids. -/
def mainImage (s : Schema) (docs : List (Int64 × Tree)) : List Row :=
  docs.map fun d =>
    ⟨d.1, .int d.1 :: s.mainFields.map fun f => f.type.kept ((d.2.get? f.name).getD .null)⟩

/-- The rows of a secondary table for documents, without their numbers. -/
def branchContents (u : String × Table) (docs : List (Int64 × Tree)) : List (List Cell) :=
  docs.flatMap fun d => (Tree.elements (d.2.get? u.1)).map fun x => .int d.1 :: u.2.kept x

/-- Rows that show their numbers before the contents. -/
def Shows (contents : List (List Cell)) (rows : List Row) : Prop :=
  List.Forall₂ (fun cells r => r.cells = .int r.number :: cells) contents rows

/-- Rows with the numbers from one on are known by what stands after the numbers. -/
theorem Shows.eq_numberedRows {contents : List (List Cell)} {rows : List Row}
    (h : Shows contents rows)
    (hnumbers : rows.map (fun r => r.number.toInt) =
      (List.range rows.length).map fun i : Nat => (i : Int) + 1) :
    rows = numberedRows contents := by
  rcases List.forall₂_iff_get.1 h with ⟨hlength, hcells⟩
  refine List.ext_getElem (by simp [numberedRows, hlength]) ?_
  intro i hi hi'
  have hi'' : i < contents.length := by omega
  have hnumber : rows[i].number.toInt = ((i + 1 : Nat) : Int) := by
    have hget := congrArg (fun l : List Int => l[i]?) hnumbers
    simpa [hi] using hget
  have hword : rows[i].number = Int64.ofNat (i + 1) := by
    rw [← Int64.ofInt_toInt rows[i].number, hnumber, Int64.ofInt_eq_ofNat]
  have hrow : rows[i].cells = .int rows[i].number :: contents[i] := hcells i hi'' hi
  rw [hword] at hrow
  have himage : (numberedRows contents)[i] =
      ⟨Int64.ofNat (i + 1), .int (Int64.ofNat (i + 1)) :: contents[i]⟩ := by
    simp [numberedRows]
  rw [himage, ← hrow, ← hword]

/-! ## Databases as images -/

/-- A database that holds the images of documents. -/
structure Images (s : Schema) (docs : List (Int64 × Tree)) (db : Database) : Prop where
  main : db.rowsOf s.mainTable = s.mainImage docs
  branches : ∀ u ∈ s.secondaryTables, Shows (branchContents u docs) (db.rowsOf u.1)
  dense : ∀ u ∈ s.secondaryTables, db.Dense u.1

theorem images_empty (s : Schema) (checked : Bool) : s.Images [] { checked } where
  main := rfl
  branches _ _ := .nil
  dense u _ := Database.dense_empty checked u.1

/-- Definitions change no image. -/
theorem Images.of_defines {s : Schema} {docs : List (Int64 × Tree)} {db db' : Database}
    (h : s.Images docs db) (hdefines : s.Defines db db') : s.Images docs db' where
  main := (hdefines.rows _).trans h.main
  branches u hu := (hdefines.rows u.1).symm ▸ h.branches u hu
  dense u hu := (h.dense u hu).of_eq (hdefines.rows u.1) (hdefines.counter u.1)

/-- The values of an element that is written are those of its image. -/
theorem kept_encode {s : Schema} {u : String × Table}
    (hknown : ∀ f ∈ u.2.dataFields, f.codec.fieldType = f.type) {x : Tree} {cells : List Cell}
    (h : (s.branch u).encode x = .ok cells) :
    List.zipWith Column.keep (u.2.dataFields.map Field.column) cells = u.2.kept x := by
  have hfields : u.2.dataFields = if u.2.isList then u.2.valueField.toList else u.2.fields := rfl
  unfold Store.Branch.encode at h
  cases hlist : u.2.isList with
  | true =>
    have hkind : (s.branch u).kind = .list := if_pos hlist
    rw [hkind] at h
    rw [if_pos hlist] at hfields
    rw [Table.kept, if_pos hlist, ← hfields]
    exact zipWith_keep hknown (fun _ => x) h
  | false =>
    have hkind : (s.branch u).kind = .object := if_neg (by simp [hlist])
    rw [hkind] at h
    rw [if_neg (by simp [hlist])] at hfields
    rw [Table.kept, if_neg (by simp [hlist]), ← hfields]
    cases x with
    | map entries =>
      exact zipWith_keep hknown (fun name => (Entries.get? entries name).getD .null) h
    | _ => cases h

/-- The rows that an entry has become show its image. -/
theorem Bears.shows {s : Schema} {u : String × Table} (hu : u ∈ s.secondaryTables)
    (hknown : ∀ f ∈ u.2.dataFields, f.codec.fieldType = f.type) {id : Int64} {items : List Tree}
    {rows : List Row} (h : s.Bears u id items rows) :
    Shows (items.map fun x => .int id :: u.2.kept x) rows := by
  rw [Shows, List.forall₂_map_left_iff]
  refine h.imp ?_
  rintro x r ⟨cells, n, hcells, rfl⟩
  rw [cells_branchRow hu, kept_encode hknown hcells]
  rfl

/-- One more document adds its image. -/
theorem Images.of_grew {s : Store} {docs : List (Int64 × Tree)} {db db' : Database}
    (h : s.schema.Images docs db) {entries : Entries Tree} {id : Int64}
    {xs : List (String × Row)} (hgrew : s.schema.Grew entries id db db') (hsown : Sown db xs db') :
    s.schema.Images (docs ++ [(id, .map entries)]) db' where
  main := by
    rcases hgrew.main with ⟨cells, hcells, hrows⟩
    have hrow := zipWith_keep s.fieldType_mainCodec
      (fun name => (Entries.get? entries name).getD .null) hcells
    rw [hrows, h.main, mainImage, mainImage, List.map_append, mainRow, Column.sown, hrow]
    rfl
  branches u hu := by
    rcases hgrew.branches u hu with ⟨items, rows, helements, hbears, hrows⟩
    have hknown := fun f hf => s.fieldType_codec (f := f) (mem_secondaryTables.1 hu).1 hf
    have hshows := hbears.shows hu hknown
    rw [Store.Branch.elements_eq helements] at hshows
    have hcontents : branchContents u (docs ++ [(id, .map entries)]) = branchContents u docs ++
        (Tree.elements (Entries.get? entries u.1)).map fun x => .int id :: u.2.kept x := by
      rw [branchContents, List.flatMap_append, List.flatMap_singleton]
      rfl
    rw [hcontents, hrows]
    exact List.rel_append (h.branches u hu) hshows
  dense u hu := hsown.dense (h.dense u hu)

/-- Every row of a secondary table refers to a main row. -/
theorem Images.exists_main {s : Schema} {docs : List (Int64 × Tree)} {db : Database}
    (h : s.Images docs db) {u : String × Table} (hu : u ∈ s.secondaryTables) {r : Row}
    (hr : r ∈ db.rowsOf u.1) : ∃ m ∈ db.rowsOf s.mainTable, r.cell 1 = .int m.number := by
  rw [(h.branches u hu).eq_numberedRows (h.dense u hu).numbers] at hr
  rcases List.mem_map.1 hr with ⟨x, hx, rfl⟩
  rcases List.mem_flatMap.1 (List.fst_mem_of_mem_zipIdx hx) with ⟨d, hd, hx⟩
  rcases List.mem_map.1 hx with ⟨item, -, hitem⟩
  rw [h.main]
  refine ⟨_, List.mem_map_of_mem hd, ?_⟩
  rw [Row.cell, ← hitem]
  rfl

end Schema

namespace Store

/-! ## Runs that delete nothing -/

/-- A run that deletes nothing leads to the images of the documents that it has put in. -/
theorem images_reached (s : Store) (checked : Bool) (steps : List Step)
    (hsteps : ∀ a ∈ steps, a.deletes = false) :
    s.schema.Images (s.inserted { checked } steps) (s.reached { checked } steps) := by
  induction steps using List.reverseRecOn with
  | nil => exact s.schema.images_empty checked
  | append_singleton steps a ih =>
    rw [List.forall_mem_append, List.forall_mem_singleton] at hsteps
    rcases s.effect_reached checked steps a with ⟨doc, heffect, hinserted⟩
    rw [hinserted]
    cases heffect with
    | idle hdefines _ =>
      rw [Option.toList_none, List.append_nil]
      exact (ih hsteps.1).of_defines hdefines
    | grew _ hgrew hsown => exact (ih hsteps.1).of_grew hgrew hsown
    | thinned hdeletes _ => exact absurd (hdeletes.symm.trans hsteps.2) Bool.true_eq_false.mp

/--
A run that deletes nothing leaves exactly the rows of the documents that it has put in: one main row
for each under its id, and in every secondary table one row for each element, in the order of the
documents and of their elements, numbered from one on and referring to the main row.
-/
theorem rows_reached (s : Store) (checked : Bool) (steps : List Step)
    (hsteps : ∀ a ∈ steps, a.deletes = false) :
    (s.reached { checked } steps).rowsOf s.schema.mainTable =
        s.schema.mainImage (s.inserted { checked } steps) ∧
      ∀ u ∈ s.schema.secondaryTables,
        (s.reached { checked } steps).rowsOf u.1 =
          Schema.numberedRows (Schema.branchContents u (s.inserted { checked } steps)) ∧
        ∀ r ∈ (s.reached { checked } steps).rowsOf u.1,
          ∃ m ∈ (s.reached { checked } steps).rowsOf s.schema.mainTable,
            r.cell 1 = .int m.number := by
  have himages := s.images_reached checked steps hsteps
  refine ⟨himages.main, fun u hu => ⟨?_, fun r hr => himages.exists_main hu hr⟩⟩
  exact (himages.branches u hu).eq_numberedRows (himages.dense u hu).numbers

/-- Steps with a plant that fails at its second tag, between two that do not. -/
def sprouting : List Step :=
  [.provision, .insert (.map [("height", .int 3), ("tags", .seq [.text "green", .null])]),
    .insert (.map [("tags", .seq [.text "brown", .int 4])]), .verify,
    .insert (.map [("tags", .seq [.text "red"])])]

/-- The failed plant leaves no row and no gap. -/
theorem rows_reached_plants :
    (∀ a ∈ sprouting, a.deletes = false) ∧
    (plants.reached {} sprouting).rowsOf "plant" =
      [⟨1, [.int 1, .null, .real (Double.ofInt 3)]⟩, ⟨2, [.int 2, .null, .null]⟩] ∧
    (plants.reached {} sprouting).rowsOf "tags" =
      [⟨1, [.int 1, .int 1, .text "green"]⟩, ⟨2, [.int 2, .int 1, .null]⟩,
        ⟨3, [.int 3, .int 2, .text "red"]⟩] := by
  have hsteps : ∀ a ∈ sprouting, a.deletes = false := by decide
  rcases rows_reached plants true sprouting hsteps with ⟨hmain, hbranches⟩
  rcases hbranches ("tags", ⟨[], true, some ⟨"label", .string⟩⟩) (by decide) with ⟨htags, -⟩
  refine ⟨hsteps, hmain.trans ?_, htags.trans ?_⟩
  · decide +kernel
  · decide +kernel

end Store
end Espalier
