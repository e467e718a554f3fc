import Espalier.Proofs.Database.Taking
import Espalier.Proofs.Store.Fitting

/-!
# Rows for tables that fit

An insertion of a store names every column of a layout but `id`.  In a table that fits, those names
stand for columns, whatever their order, and the row gets its number from the table.  So a row that
the table does not take lacks a value where a column needs one, provided that the table has no other
columns and refers to nothing but the main row.
-/

namespace Espalier

open Database (Affinity Cell ReferenceKey Row Target)

namespace Database

/-! ## Values -/

theorem Cell.settle_ne_null (x : Double) : Cell.settle x ≠ .null := by
  unfold Cell.settle
  split
  · split <;> exact Cell.noConfusion
  · exact Cell.noConfusion

/-- No column makes something of nothing, or nothing of something. -/
theorem Affinity.apply_eq_null {a : Affinity} {v : Cell} : a.apply v = .null ↔ v = .null := by
  have hnumeral : ∀ n, Cell.ofNumeral n ≠ .null := by
    intro n
    unfold Cell.ofNumeral
    split
    · exact Cell.noConfusion
    · exact Cell.settle_ne_null _
  have hnumeric : ∀ v : Cell, v.toNumeric = .null ↔ v = .null := by
    intro v
    cases v with
    | null => exact Iff.rfl
    | int n => exact Iff.rfl
    | real x => exact iff_of_false (Cell.settle_ne_null x) Cell.noConfusion
    | text s =>
      refine iff_of_false ?_ Cell.noConfusion
      rw [Cell.toNumeric]
      split
      · exact hnumeral _
      · exact Cell.noConfusion
    | garbled g => exact iff_of_false Cell.noConfusion Cell.noConfusion
    | blob bytes => exact iff_of_false Cell.noConfusion Cell.noConfusion
  cases a with
  | unchanged => exact Iff.rfl
  | text => cases v <;> simp [Affinity.apply, Cell.toText]
  | numeric => exact hnumeric v
  | real =>
    rw [← hnumeric v, Affinity.apply, Cell.toReal]
    cases v.toNumeric <;> simp

namespace Table

/-- The columns that need a value are given one. -/
def Supplied (columns : List Column) (t : Table) (arguments : List Cell) : Prop :=
  ∀ x ∈ columns.zip arguments, ∀ c ∈ t.columns, c.name = x.1.name → c.notNull = true → x.2 ≠ .null

def placeOf (t : Table) (name : String) : Nat :=
  (t.column? name).getD 0

def targets (columns : List Column) (t : Table) : List Target :=
  columns.map fun e => .column (t.placeOf e.name)

namespace Fitted

variable {columns : List Column} {t : Table}

/-! ## Names in insertions -/

/-- The columns after the row number differ from it and from each other in their names. -/
theorem names_nodup (hc : Column.Trailing columns) :
    ((Column.id :: columns).map Column.name).Nodup := by
  have hdistinct := hc.distinct
  have hfold : (Column.id :: columns).map (fun c => Ascii.fold c.name) =
      ((Column.id :: columns).map Column.name).map Ascii.fold := by
    rw [List.map_map]
    rfl
  rw [hfold] at hdistinct
  exact hdistinct.of_map _

theorem placeOf_eq (h : t.Fitted columns) {i : Nat} {c : Sql.ColumnSpec}
    (hi : t.columns[i]? = some c) : t.placeOf c.name = i := by
  rw [placeOf, column?_of_getElem? h.formed.distinct hi]
  rfl

/-- Columns of one place have one name. -/
theorem name_eq_of_placeOf (h : t.Fitted columns) {e f : Column} (he : e ∈ Column.id :: columns)
    (hf : f ∈ Column.id :: columns) (hplace : t.placeOf e.name = t.placeOf f.name) :
    e.name = f.name := by
  rcases h.exists_place he with ⟨i, c, hi, hmet⟩
  rcases h.exists_place hf with ⟨j, d, hj, hmet'⟩
  rw [← hmet.name, h.placeOf_eq hi, ← hmet'.name, h.placeOf_eq hj] at hplace
  rw [hplace, hj] at hi
  rw [← hmet.name, ← hmet'.name, Option.some.inj hi]

/-- The row number is shown in the column `id`. -/
theorem numberColumn?_eq (h : t.Fitted columns) : t.numberColumn? = some (t.placeOf idColumn) := by
  rcases h.exists_number with ⟨i, c, hi, hmet, hnumber⟩
  have hname : c.name = idColumn := hmet.name
  rw [h.formed.numberColumn?_eq hi hnumber, ← hname, h.placeOf_eq hi]

section Targets

variable (h : t.Fitted columns) (hc : Column.Trailing columns)

include h hc

/-- A name after the first is not that of the row number. -/
theorem numberColumn?_ne {e : Column} (he : e ∈ columns) :
    t.numberColumn? ≠ some (t.placeOf e.name) := by
  have hnames := names_nodup hc
  rw [List.map_cons, List.nodup_cons] at hnames
  intro hnumber
  rw [h.numberColumn?_eq, Option.some.injEq] at hnumber
  have hname : Column.id.name = e.name :=
    h.name_eq_of_placeOf List.mem_cons_self (List.mem_cons_of_mem _ he) hnumber
  exact hnames.1 (hname ▸ List.mem_map_of_mem he)

/-- The targets of an insertion are where the table has its columns. -/
theorem mapM_target :
    (columns.map Column.name).mapM t.target = .ok (t.targets columns) := by
  rw [targets, List.mapM_map]
  refine Outcome.mapM_eq_map fun e he => ?_
  rcases h.exists_place (List.mem_cons_of_mem _ he) with ⟨i, c, hi, hmet⟩
  have hplace : t.placeOf e.name = i := hmet.name ▸ h.placeOf_eq hi
  have hnumber := h.numberColumn?_ne hc he
  have htarget : t.target e.name = .ok (.column (t.placeOf e.name)) := by
    rw [target, h.column?_eq hi hmet, hplace]
    exact congrArg Except.ok (if_neg (hplace ▸ hnumber))
  exact htarget

theorem nodup_targets : (t.targets columns).Nodup := by
  have hnames := names_nodup hc
  rw [List.map_cons, List.nodup_cons] at hnames
  refine List.Nodup.map_on ?_ (hnames.2.of_map _)
  intro e he f hf hplace
  have hname := h.name_eq_of_placeOf (List.mem_cons_of_mem _ he) (List.mem_cons_of_mem _ hf)
    (Target.column.inj hplace)
  exact List.inj_on_of_nodup_map hnames.2 he hf hname

end Targets

/-! ## New rows -/

section NewRow

variable (h : t.Fitted columns) (hc : Column.Trailing columns) {arguments : List Cell} {n : Int64}

include h

/-- A new row shows its number in the column `id`. -/
theorem cell_id {i : Nat} {c : Sql.ColumnSpec} (hi : t.columns[i]? = some c)
    (hname : c.name = idColumn) :
    (Row.mk n (t.cellsOf n ((t.targets columns).zip arguments))).cell i = .int n := by
  have hnumber : t.numberColumn? = some i := by
    rw [h.numberColumn?_eq, ← hname, h.placeOf_eq hi]
  rw [cell_cellsOf, hi]
  exact if_pos hnumber

include hc

/-- Every other column takes the argument that is given under its name. -/
theorem cell_eq (hlength : arguments.length = columns.length) {e : Column} {v : Cell}
    (hv : (e, v) ∈ columns.zip arguments) {i : Nat} {c : Sql.ColumnSpec}
    (hi : t.columns[i]? = some c) (hname : c.name = e.name) :
    (Row.mk n (t.cellsOf n ((t.targets columns).zip arguments))).cell i =
      (t.affinity i).apply v := by
  have he : e ∈ columns := (List.of_mem_zip hv).1
  have hplace : t.placeOf e.name = i := hname ▸ h.placeOf_eq hi
  have hnumber : t.numberColumn? ≠ some i := hplace ▸ h.numberColumn?_ne hc he
  have hassigned : (Target.column i, v) ∈ (t.targets columns).zip arguments := by
    rw [targets, List.zip_map_left]
    exact List.mem_map.2 ⟨(e, v), hv, by rw [← hplace]; rfl⟩
  have hdistinct : (((t.targets columns).zip arguments).map Prod.fst).Nodup := by
    rw [List.map_fst_zip (by simp [targets, hlength])]
    exact h.nodup_targets hc
  rw [cell_cellsOf, affinity, hi]
  dsimp only
  rw [if_neg hnumber, argument_of_mem hdistinct hassigned]

/-- If the table has no other columns, a new row is complete if the columns that need a value are
given one. -/
theorem isComplete_iff (hexact : ∀ c ∈ t.columns, ∃ e ∈ Column.id :: columns, c.name = e.name)
    (hlength : arguments.length = columns.length) :
    t.isComplete ⟨n, t.cellsOf n ((t.targets columns).zip arguments)⟩ = true ↔
      t.Supplied columns arguments := by
  rw [Table.isComplete_iff]
  constructor
  · rintro hcomplete ⟨e, v⟩ hv c hmem hname hneeds
    rcases List.getElem?_of_mem hmem with ⟨i, hi⟩
    have hcell := hcomplete i c hi hneeds
    rw [h.cell_eq hc hlength hv hi hname, Ne, Affinity.apply_eq_null] at hcell
    exact hcell
  · intro hsupplied i c hi hneeds
    have hmem : c ∈ t.columns := List.mem_of_getElem? hi
    rcases hexact c hmem with ⟨e, he, hname⟩
    rcases List.mem_cons.1 he with rfl | he
    · rw [h.cell_id hi hname]
      exact Cell.noConfusion
    · -- The column stands for one of the given ones, so there is an argument for it.
      have hfst : e ∈ (columns.zip arguments).map Prod.fst := by
        rwa [List.map_fst_zip hlength.ge]
      rcases List.mem_map.1 hfst with ⟨⟨e, v⟩, hv, rfl⟩
      rw [h.cell_eq hc hlength hv hi hname, Ne, Affinity.apply_eq_null]
      exact hsupplied _ hv c hmem hname hneeds

end NewRow

/-! ## References -/

/-- References to the table go by the row number. -/
theorem referenceKey?_eq (h : t.Fitted columns) : t.referenceKey? = some .number := by
  rcases h.exists_number with ⟨i, c, hi, hmet, hnumber⟩
  have hname : Column.id.name = Sql.referenced := rfl
  have hcolumn : t.column? Column.id.name = some i := h.column?_eq hi hmet
  rw [hname] at hcolumn
  simp only [referenceKey?, hcolumn, h.formed.numberColumn?_eq hi hnumber, if_pos]

/-- The references of a table are those of its columns. -/
theorem mem_references {x : Nat × String} : x ∈ t.references ↔
    ∃ c, t.columns[x.1]? = some c ∧ c.references = some x.2 := by
  rcases x with ⟨i, name⟩
  rw [references, List.mem_filterMap]
  constructor
  · rintro ⟨⟨c, j⟩, hc, hx⟩
    rcases Option.map_eq_some_iff.1 hx with ⟨parent, hparent, heq⟩
    cases heq
    exact ⟨c, List.mk_mem_zipIdx_iff_getElem?.1 hc, hparent⟩
  · rintro ⟨c, hc, hparent⟩
    exact ⟨(c, i), List.mk_mem_zipIdx_iff_getElem?.2 hc, by rw [hparent]; rfl⟩

/-- A table all of whose references are to a table that fits goes by the row numbers there. -/
theorem parents_eq (h : t.Fitted columns) {db : Database} {main : String}
    (ht : db.table? main = some t) {u : Table} (hhome : db.checked = true →
      ∀ c ∈ u.columns, ∀ parent ∈ c.references, Ascii.sameName parent main = true) :
    db.parents u =
      .ok (if db.checked then u.references.map fun x => (x.1, t, .number) else []) := by
  rw [parents]
  split
  · rename_i hchecked
    refine Outcome.mapM_eq_map fun x hx => ?_
    rcases mem_references.1 hx with ⟨c, hc, hparent⟩
    have hname := hhome hchecked c (List.mem_of_getElem? hc) x.2 hparent
    have htable : db.table x.2 = .ok t := table_eq_ok.2 ((table?_congr hname db).trans ht)
    simp only [htable, bind, Except.bind, h.referenceKey?_eq]
    rfl
  · rfl

/-- A table has the number of each of its rows to refer to. -/
theorem hasReferenced_number {r : Row} (hr : r ∈ t.rows) :
    t.hasReferenced .number (.int r.number) = true :=
  List.any_eq_true.2 ⟨r, hr, Cell.equals_int.2 rfl⟩

/-! ## Insertions -/

section Insertion

variable (h : t.Fitted columns) (hc : Column.Trailing columns) {db : Database}
  {main : String} {mainColumns : List Column} {tm : Table} (htm : db.table? main = some tm)
  (hm : tm.Fitted mainColumns) {arguments : List Cell}
  (hlength : arguments.length = columns.length)
  (hhome : db.checked = true → ∀ c ∈ t.columns, ∀ parent ∈ c.references,
    Ascii.sameName parent main = true ∧ ∃ e, e.name = c.name ∧ e.type = .integer ∧
      ∃ r ∈ tm.rows, (e, Cell.int r.number) ∈ columns.zip arguments)

include h hc htm hm hlength hhome

/-- What a new row refers to is there if the arguments for its references are numbers of rows. -/
theorem exists_parents : ∃ parents, db.parents t = .ok parents ∧ ∀ n, ∀ x ∈ parents,
    x.2.1.hasReferenced x.2.2
      ((Row.mk n (t.cellsOf n ((t.targets columns).zip arguments))).cell x.1) = true := by
  refine ⟨_, hm.parents_eq htm fun hchecked c hc parent hp => (hhome hchecked c hc parent hp).1, ?_⟩
  intro n x hx
  split at hx
  · rename_i hchecked
    rcases List.mem_map.1 hx with ⟨⟨i, parent⟩, hz, rfl⟩
    obtain ⟨c, hi, hreference⟩ : ∃ c, t.columns[i]? = some c ∧ c.references = some parent :=
      mem_references.1 hz
    rcases hhome hchecked c (List.mem_of_getElem? hi) parent hreference with
      ⟨-, e, hname, htype, r, hr, hargument⟩
    -- The column takes integers, so it holds the number as it was given.
    have haffinity : t.affinity i = .numeric := by
      rcases h.exists_place (List.mem_cons_of_mem _ (List.of_mem_zip hargument).1) with
        ⟨j, d, hj, hmet⟩
      have hplace : i = j := by
        rw [← h.placeOf_eq hi, ← h.placeOf_eq hj, ← hname, hmet.name]
      exact hplace ▸ affinity_numeric htype hj hmet
    have hcell := h.cell_eq hc (n := n) hlength hargument hi hname.symm
    rw [hcell, haffinity]
    exact hasReferenced_number hr
  · cases hx

/-- A table without other columns and with numbers left takes a row if the columns that need a value
are given one; then it fits as before.  Otherwise that is what is wrong with the row. -/
theorem insert (hexact : ∀ c ∈ t.columns, ∃ e ∈ Column.id :: columns, c.name = e.name)
    {name : String} (ht : db.table? name = some t) {k : Nat} (hroom : t.HasRoom (k + 1)) :
    (t.Supplied columns arguments ∧ ∃ r : Row, (t.add r).Fitted columns ∧ (t.add r).HasRoom k ∧
      db.insert ⟨name, columns.map Column.name⟩ arguments =
        .ok (r.number, db.replace (t.add r))) ∨
    (¬ t.Supplied columns arguments ∧
      db.insert ⟨name, columns.map Column.name⟩ arguments = .error .notNull) := by
  rcases h.exists_number with ⟨i, c, hi, -, hnumber⟩
  have hkey : t.keyColumn? = none := h.formed.keyColumn?_eq_none hi hnumber
  have hopen : argument ((t.targets columns).zip arguments) .number = .null := by
    refine argument_number fun a ha => ?_
    rcases List.mem_map.1 (List.of_mem_zip ha).1 with ⟨e, -, he⟩
    rw [← he]
    exact Target.noConfusion
  rcases h.exists_parents hc htm hm hlength hhome with ⟨parents, hparents, hreferences⟩
  rcases insert_of_room (s := ⟨name, columns.map Column.name⟩) ht h.numbered hkey
    (h.mapM_target hc) hparents hopen hreferences hroom with ⟨n, hnumbered, hroom', hinsert⟩
  have hcomplete := h.isComplete_iff hc (n := n) hexact hlength
  -- Whatever number the row gets, it is complete or not for its arguments alone.
  by_cases hsupplied : t.Supplied columns arguments
  · rw [if_pos (hcomplete.2 hsupplied)] at hinsert
    have hfitted : (t.add _).Fitted columns :=
      ⟨⟨h.formed.inhabited, h.formed.columns⟩, hnumbered, h.met⟩
    exact .inl ⟨hsupplied, _, hfitted, hroom', hinsert⟩
  · rw [if_neg fun hok => hsupplied (hcomplete.1 hok)] at hinsert
    exact .inr ⟨hsupplied, hinsert⟩

end Insertion

end Fitted
end Table
end Database
end Espalier
