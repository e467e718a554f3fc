import Espalier.Proofs.Store.Verifying
import Mathlib.Data.List.Sort

/-!
# Tables that fit

A table that fits a layout may have its columns in any order, more of them than were asked for, and
rows from anywhere.  Still the column `id` is the row number, every column of the layout is found
under its name, and the rows stand in the order of their ids; so much a reader or a writer of the
table relies on.
-/

namespace Espalier

open Database (Affinity Cell Row)

namespace Database
namespace Table

/-- A stored table that columns fit after the row number: it can stand in a database, its rows are
numbered, and it has a column for each of them. -/
structure Fitted (columns : List Column) (t : Table) : Prop where
  formed : t.Formed
  numbered : t.Numbered
  met : ∀ e ∈ Column.id :: columns, ∃ c ∈ t.columns, e.MetBy c

/-- The value of a row in the column of an exact name. -/
def Shows (t : Table) (name : String) (r : Row) (v : Cell) : Prop :=
  ∃ (i : Nat) (c : Sql.ColumnSpec), t.columns[i]? = some c ∧ c.name = name ∧ r.cell i = v

namespace Fitted

variable {columns : List Column} {t : Table}

/-! ## Places of columns -/

/-- Each column of the layout has one of the table that meets it. -/
theorem exists_place (h : t.Fitted columns) {e : Column} (he : e ∈ Column.id :: columns) :
    ∃ (i : Nat) (c : Sql.ColumnSpec), t.columns[i]? = some c ∧ e.MetBy c := by
  rcases h.met e he with ⟨c, hc, hmet⟩
  rcases List.getElem?_of_mem hc with ⟨i, hi⟩
  exact ⟨i, c, hi, hmet⟩

section Place

variable {e : Column} {i : Nat} {c : Sql.ColumnSpec} (hc : t.columns[i]? = some c)
  (hmet : e.MetBy c)

include hc hmet

theorem column?_eq (h : t.Fitted columns) : t.column? e.name = some i := by
  have hfound := column?_of_getElem? h.formed.distinct hc
  rwa [hmet.name] at hfound

theorem operand_eq (h : t.Fitted columns) : t.operand e.name = .column i := by
  rw [operand, h.column?_eq hc hmet]

/-- A column takes values in as its declared type says, in whatever case that is written. -/
theorem affinity_eq : t.affinity i = Affinity.ofDeclared e.type.name := by
  rw [affinity, hc]
  dsimp only
  rw [Affinity.ofDeclared, Affinity.ofDeclared,
    Ascii.raise_eq_raise_iff.2 (Ascii.sameName_iff.1 hmet.declared)]

end Place

theorem affinity_integer : Affinity.ofDeclared ColumnType.integer.name = .numeric := by
  decide

/-- A column for integers takes numbers in. -/
theorem affinity_numeric {e : Column} (htype : e.type = .integer) {i : Nat} {c : Sql.ColumnSpec}
    (hc : t.columns[i]? = some c) (hmet : e.MetBy c) : t.affinity i = .numeric := by
  rw [affinity_eq hc hmet, htype, affinity_integer]

/-- The column `id` is the row number. -/
theorem exists_number (h : t.Fitted columns) : ∃ (i : Nat) (c : Sql.ColumnSpec),
    t.columns[i]? = some c ∧ Column.id.MetBy c ∧ isNumber c = true := by
  rcases h.exists_place List.mem_cons_self with ⟨i, c, hc, hmet⟩
  refine ⟨i, c, hc, hmet, ?_⟩
  rw [isNumber, hmet.primaryKey rfl, Bool.true_and]
  exact hmet.declared

/-- The name `id` stands for the row number, as integers. -/
theorem exists_operand (h : t.Fitted columns) :
    ∃ i, t.numberColumn? = some i ∧ t.operand idColumn = .column i ∧ t.affinity i = .numeric := by
  rcases h.exists_number with ⟨i, c, hc, hmet, hnumber⟩
  have hoperand : t.operand Column.id.name = .column i := h.operand_eq hc hmet
  exact ⟨i, h.formed.numberColumn?_eq hc hnumber, hoperand, affinity_numeric rfl hc hmet⟩

/-! ## Values of rows -/

/-- What a statement reads under the name of a column is what the row shows there. -/
theorem shows_iff (h : t.Fitted columns) {e : Column} (he : e ∈ Column.id :: columns) {r : Row}
    {v : Cell} : t.Shows e.name r v ↔ (t.operand e.name).value r = v := by
  rcases h.exists_place he with ⟨i, c, hc, hmet⟩
  rw [h.operand_eq hc hmet]
  constructor
  · rintro ⟨j, d, hd, hname, rfl⟩
    -- Folded names are apart, so the two columns are one.
    have hfound := column?_of_getElem? h.formed.distinct hd
    rw [hname, h.column?_eq hc hmet] at hfound
    rw [Option.some.inj hfound]
    rfl
  · rintro rfl
    exact ⟨i, c, hc, hmet.name, rfl⟩

/-- The identifier of a row is its number. -/
theorem value_id (h : t.Fitted columns) {r : Row} (hr : r ∈ t.rows) :
    (t.operand idColumn).value r = .int r.number := by
  rcases h.exists_operand with ⟨i, hnumber, hoperand, -⟩
  rw [hoperand]
  exact h.numbered.shown i hnumber r hr

/-- The id that a row shows is its number. -/
theorem shows_id (h : t.Fitted columns) {r : Row} (hr : r ∈ t.rows) {id : Int64} :
    t.Shows idColumn r (.int id) ↔ r.number = id := by
  have hshows : t.Shows idColumn r (.int id) ↔ (t.operand idColumn).value r = .int id :=
    h.shows_iff (e := Column.id) List.mem_cons_self
  rw [hshows, h.value_id hr, Cell.int.injEq]

/-- A row is selected by its number. -/
theorem holds_id (h : t.Fitted columns) {r : Row} (hr : r ∈ t.rows) {id : Int64} :
    t.holds idColumn (.int id) r = true ↔ r.number = id := by
  rcases h.exists_operand with ⟨i, -, hoperand, haffinity⟩
  have hvalue : t.holds idColumn (.int id) r =
      ((t.operand idColumn).value r).equals ((t.affinity i).apply (.int id)) := by
    rw [holds, hoperand]
    rfl
  rw [hvalue, haffinity, h.value_id hr]
  exact Cell.equals_int

/-- A row is selected by the integer that it has in a column for integers. -/
theorem holds_integer (h : t.Fitted columns) {e : Column} (he : e ∈ Column.id :: columns)
    (htype : e.type = .integer) {r : Row} {n : Int64} :
    t.holds e.name (.int n) r = ((t.operand e.name).value r).equals (.int n) := by
  rcases h.exists_place he with ⟨i, c, hc, hmet⟩
  have hbend : t.bend (.column i) (.int n) = (t.affinity i).apply (.int n) := rfl
  rw [holds, h.operand_eq hc hmet, hbend, affinity_numeric htype hc hmet]
  rfl

/-! ## Rows in order -/

/-- Rows in the order of their numbers are known by what they are. -/
theorem eq_of_sorted {xs ys : List Row}
    (hxs : xs.Pairwise fun r s => r.number.toInt < s.number.toInt)
    (hys : ys.Pairwise fun r s => r.number.toInt < s.number.toInt) (h : ∀ r, r ∈ xs ↔ r ∈ ys) :
    xs = ys := by
  have hirrefl : Std.Irrefl fun r s : Row => r.number.toInt < s.number.toInt :=
    ⟨fun r => Int.lt_irrefl _⟩
  have hantisymm : Std.Antisymm fun r s : Row => r.number.toInt < s.number.toInt :=
    ⟨fun r s hrs hsr => absurd (Int.lt_trans hrs hsr) (Int.lt_irrefl _)⟩
  exact hxs.eq_of_mem_iff hys h

/-- Two rows of one number are one. -/
theorem eq_of_number (h : t.Fitted columns) {r s : Row} (hr : r ∈ t.rows) (hs : s ∈ t.rows)
    (hnumber : r.number = s.number) : r = s := by
  have hnodup : (t.rows.map fun r => r.number.toInt).Nodup :=
    List.pairwise_map.2 (h.numbered.sorted.imp fun hlt => Int.ne_of_lt hlt)
  exact List.inj_on_of_nodup_map hnodup hr hs (congrArg Int64.toInt hnumber)

/-- The selection of a number finds the one row that has it. -/
theorem filter_id (h : t.Fitted columns) {r : Row} (hr : r ∈ t.rows) :
    t.rows.filter (t.holds idColumn (.int r.number)) = [r] := by
  refine eq_of_sorted (h.numbered.sorted.filter _) (List.pairwise_singleton _ _) ?_
  intro s
  rw [List.mem_filter, List.mem_singleton]
  constructor
  · rintro ⟨hs, hholds⟩
    exact h.eq_of_number hs hr ((h.holds_id hs).1 hholds)
  · rintro rfl
    exact ⟨hr, (h.holds_id hr).2 rfl⟩

/-- Rows are in the order of their ids already. -/
theorem sorted_eq (h : t.Fitted columns) {rows : List Row} (hsub : rows.Sublist t.rows) :
    t.sorted idColumn rows = rows := by
  refine List.mergeSort_of_pairwise ?_
  refine (h.numbered.sorted.sublist hsub).imp_of_mem ?_
  intro r s hr hs hlt
  have hcompare : compare r.number.toInt s.number.toInt = .lt := Int.compare_eq_lt.2 hlt
  rw [h.value_id (hsub.subset hr), h.value_id (hsub.subset hs)]
  simp [Cell.order, hcompare]

end Fitted
end Table
end Database

namespace Schema

/-- In a database whose tables are formed and numbered, the table of a fitting entry is fitted. -/
theorem Fits.exists_table {s : Schema} {db : Database} {u : String × Table} (h : s.Fits db u)
    (hformed : db.Formed) (hnumbered : db.Numbered) :
    ∃ t, db.table? u.1 = some t ∧ t.Fitted (s.planted u.1 u.2) := by
  rcases h with ⟨t, ht, hname, hmet⟩
  rw [layout_eq] at hmet
  exact ⟨t, hformed.named.table?_eq_some.2 ⟨ht, hname⟩, hformed.tables t ht, hnumbered t ht, hmet⟩

end Schema

/-- In a database that statements have led to and that verifies, every table of the schema is there
and fits. -/
theorem Store.exists_fitted (s : Store) {db : Database} (h : Database.Reachable db)
    (hverify : s.verify.result db = .ok ()) {u : String × Table} (hu : u ∈ s.schema.tables) :
    ∃ t, db.table? u.1 = some t ∧ t.Fitted (s.schema.planted u.1 u.2) :=
  (((s.verify_eq_ok h.formed.named).1 hverify).2 u hu).exists_table h.formed h.numbered

end Espalier
