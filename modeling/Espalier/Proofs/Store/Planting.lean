import Espalier.Proofs.Store.Grafting
import Mathlib.Data.List.TakeWhile

/-!
# Tables that number their rows

The tables of a schema have the row number in front, and no insertion of a store names it.  So every
row gets the number after the greatest ever given and goes to the end of its table.  `Planted` is
what all such tables have in common; here is what an insertion does to one and what selections read
from it.
-/

namespace Espalier

open Database (Affinity Cell Row Target)

/-! ## Values as columns store them -/

/-- A value as the column stores it. -/
def Column.keep (c : Column) (v : Cell) : Cell :=
  (Affinity.ofDeclared c.type.name).apply v

/-- A new row: its number and the values as the columns store them. -/
def Column.sown (columns : List Column) (n : Int64) (arguments : List Cell) : Row :=
  ⟨n, .int n :: List.zipWith Column.keep columns arguments⟩

namespace Database
namespace Table

/-- A table of numbered rows: the number is shown in the first column, it grows from row to row, and
none is greater than the counter. -/
structure Planted (columns : List Column) (t : Table) : Prop where
  columns : t.columns = (Column.id :: columns).map Column.spec
  shown : ∀ r ∈ t.rows, r.cell 0 = .int r.number
  sorted : t.rows.Pairwise fun r s => r.number.toInt < s.number.toInt
  bounded : ∀ r ∈ t.rows, r.number.toInt ≤ t.counter.toInt
  nonneg : 0 ≤ t.counter.toInt

namespace Planted

variable {columns : List Column} {t : Table}

/-! ## Places of columns -/

theorem numberColumn? (h : t.Planted columns) : t.numberColumn? = some 0 := by
  have hid : isNumber Column.id.spec = true := by decide
  rw [Table.numberColumn?, h.columns, List.map_cons, List.findIdx?_cons, hid]
  rfl

theorem autoincrements (h : t.Planted columns) : t.autoincrements = true := by
  rw [Table.autoincrements, h.columns]
  rfl

/-- No two columns of a planted table have one name. -/
theorem nodup_columns (h : t.Planted columns) (hc : Column.Trailing columns) :
    (t.columns.map fun c => Ascii.fold c.name).Nodup := by
  rw [h.columns, List.map_map]
  exact hc.distinct

/-- A column is found at its place. -/
theorem column?_eq (h : t.Planted columns) (hc : Column.Trailing columns) {i : Nat} {c : Column}
    (hi : (Column.id :: columns)[i]? = some c) : t.column? c.name = some i := by
  have hspec : t.columns[i]? = some c.spec := by rw [h.columns, List.getElem?_map, hi]; rfl
  have hfound := column?_of_getElem? (h.nodup_columns hc) hspec
  exact hfound

/-- A name in a statement is the column that it was planted as. -/
theorem operand_eq (h : t.Planted columns) (hc : Column.Trailing columns) {i : Nat} {c : Column}
    (hi : (Column.id :: columns)[i]? = some c) : t.operand c.name = .column i := by
  rw [Table.operand, h.column?_eq hc hi]

/-- A table of numbered rows is one that its columns fit. -/
theorem fitted (h : t.Planted columns) (hc : Column.Trailing columns) : t.Fitted columns where
  formed := ⟨by simp [h.columns], h.columns ▸ hc.areColumns⟩
  numbered := by
    refine ⟨h.sorted, ?_⟩
    intro i hi
    obtain rfl : 0 = i := Option.some.inj (h.numberColumn?.symm.trans hi)
    exact h.shown
  met e he := ⟨e.spec, h.columns ▸ List.mem_map_of_mem he, e.metBy_spec⟩

/-! ## Insertion -/

/-- An insertion finds the column that was planted under its name. -/
theorem target_eq (h : t.Planted columns) (hc : Column.Trailing columns) {i : Nat} {c : Column}
    (hi : columns[i]? = some c) : t.target c.name = .ok (.column (i + 1)) := by
  have hcolumn : t.column? c.name = some (i + 1) := h.column?_eq hc (by simpa using hi)
  rw [Table.target, hcolumn, h.numberColumn?]
  rfl

/-- The names of all columns but the first stand for those columns in order. -/
theorem mapM_target (h : t.Planted columns) (hc : Column.Trailing columns) :
    (columns.map Column.name).mapM t.target =
      .ok ((List.range' 1 columns.length).map Target.column) := by
  rw [Outcome.mapM_eq_ok, List.forall₂_map_left_iff, List.forall₂_map_right_iff,
    List.forall₂_iff_get]
  refine ⟨by simp, ?_⟩
  intro i hi hi'
  have hget : columns[i]? = some columns[i] := List.getElem?_eq_getElem hi
  have htarget := h.target_eq hc hget
  simpa [Nat.add_comm] using htarget

end Planted

/-- Each column takes the argument at its place. -/
theorem argument_zip_column (start : Nat) {arguments : List Cell} {i : Nat}
    (hi : i < arguments.length) :
    argument (((List.range' start arguments.length).map Target.column).zip arguments)
      (.column (start + i)) = arguments[i] := by
  refine argument_of_mem ?_ (List.mem_of_getElem? (i := i) (by simp [hi]))
  rw [List.map_fst_zip (by simp)]
  exact (List.nodup_range' 1).map fun a b hab => Target.column.inj hab

/-- No column is the row number. -/
theorem argument_zip_number (start : Nat) (arguments : List Cell) (k : Nat) :
    argument (((List.range' start k).map Target.column).zip arguments) .number = .null := by
  refine argument_number fun a ha => ?_
  rcases List.mem_map.1 (List.of_mem_zip ha).1 with ⟨i, -, hi⟩
  rw [← hi]
  exact Target.noConfusion

namespace Planted

variable {columns : List Column} {t : Table}

/-- The row that an insertion makes. -/
theorem cellsOf_eq (h : t.Planted columns) {arguments : List Cell}
    (hlength : arguments.length = columns.length) (n : Int64) :
    Row.mk n (t.cellsOf n
      (((List.range' 1 columns.length).map Target.column).zip arguments)) =
      Column.sown columns n arguments := by
  rw [Column.sown, Row.mk.injEq]
  refine ⟨rfl, ?_⟩
  rw [Table.cellsOf, h.columns, h.numberColumn?, List.map_cons, List.zipIdx_cons, List.map_cons,
    ← hlength]
  -- The first column shows the number; the others are compared place by place.
  refine congrArg (List.cons (Cell.int n)) ?_
  refine List.ext_getElem (by simp [hlength]) ?_
  intro i hi hi'
  have hi : i < arguments.length := by
    simp at hi
    omega
  have hargument := argument_zip_column 1 hi
  have hlater : (0 : Nat) ≠ 1 + i := by omega
  simp [hargument, hlater, Column.keep, Column.spec]

/-- The counter is never behind the rows. -/
theorem greatest_le (h : t.Planted columns) : t.greatest ≤ t.counter.toInt := by
  rw [greatest]
  cases hlast : t.rows.getLast? with
  | none => exact h.nonneg
  | some r => exact h.bounded r (List.mem_of_getLast? hlast)

/-- The counter alone decides on the number of the next row. -/
theorem nextNumber?_eq (h : t.Planted columns) (draw : Nat) :
    t.nextNumber? draw = int64? (t.counter.toInt + 1) := by
  rw [nextNumber?, h.autoincrements, if_pos rfl, if_pos rfl, Int.max_eq_left h.greatest_le]
  cases int64? (t.counter.toInt + 1) <;> rfl

/-- The number of the next row. -/
theorem nextNumber?_eq_some (h : t.Planted columns) {draw : Nat} {n : Int64}
    (hn : t.nextNumber? draw = some n) : n.toInt = t.counter.toInt + 1 := by
  rw [h.nextNumber?_eq] at hn
  exact toInt_of_int64? hn

/-- A row with a number greater than all others goes to the end. -/
theorem add_eq (h : t.Planted columns) {n : Int64} (hn : n.toInt = t.counter.toInt + 1)
    (cells : List Cell) :
    t.add ⟨n, cells⟩ = { t with rows := t.rows ++ [⟨n, cells⟩], counter := n } := by
  -- Every row stands before the place of the new number.
  have hless : ∀ r ∈ t.rows, decide (r.number < n) = true := by
    intro r hr
    have hr := h.bounded r hr
    rw [decide_eq_true_eq, Int64.lt_iff_toInt_lt]
    omega
  have hcounter : max t.counter n = n := by
    have hle : t.counter ≤ n := by
      rw [Int64.le_iff_toInt_le]
      omega
    exact if_pos hle
  have htake : t.rows.takeWhile (fun s => s.number < n) = t.rows :=
    List.takeWhile_eq_self_iff.2 hless
  have hdrop : t.rows.dropWhile (fun s => s.number < n) = [] :=
    List.dropWhile_eq_nil_iff.2 hless
  rw [add, h.autoincrements, if_pos rfl, place, htake, hdrop, hcounter]

/-- The table with one more row is of the same kind. -/
theorem sow (h : t.Planted columns) {n : Int64} (hn : n.toInt = t.counter.toInt + 1)
    (arguments : List Cell) :
    Planted columns
      { t with rows := t.rows ++ [Column.sown columns n arguments], counter := n } where
  columns := h.columns
  shown r hr := by
    rcases List.mem_append.1 hr with hr | hr
    · exact h.shown r hr
    · rw [List.mem_singleton.1 hr]
      rfl
  sorted := by
    rw [List.pairwise_append]
    refine ⟨h.sorted, by simp, ?_⟩
    intro r hr s hs
    have hbound := h.bounded r hr
    rw [List.mem_singleton.1 hs]
    show r.number.toInt < n.toInt
    omega
  bounded r hr := by
    rcases List.mem_append.1 hr with hr | hr
    · have hbound := h.bounded r hr
      show r.number.toInt ≤ n.toInt
      omega
    · rw [List.mem_singleton.1 hr]
      exact Int.le_refl _
  nonneg := by
    have hzero := h.nonneg
    show 0 ≤ n.toInt
    omega

/-- The table with fewer rows is of the same kind. -/
theorem filter (h : t.Planted columns) (p : Row → Bool) :
    Planted columns { t with rows := t.rows.filter p } where
  columns := h.columns
  shown r hr := h.shown r (List.mem_filter.1 hr).1
  sorted := h.sorted.filter p
  bounded r hr := h.bounded r (List.mem_filter.1 hr).1
  nonneg := h.nonneg

/-- A new table is of this kind. -/
theorem empty (ht : t.columns = (Column.id :: columns).map Column.spec)
    (hrows : t.rows = []) (hcounter : t.counter = 0) : t.Planted columns where
  columns := ht
  shown r hr := by rw [hrows] at hr; cases hr
  sorted := by rw [hrows]; exact .nil
  bounded r hr := by rw [hrows] at hr; cases hr
  nonneg := by rw [hcounter]; decide

/-- An insertion puts one row at the end and counts on. -/
theorem insert (h : t.Planted columns) (hc : Column.Trailing columns) {db db' : Database}
    {name : String} (ht : db.table? name = some t) {arguments : List Cell}
    (hlength : arguments.length = columns.length) {n : Int64}
    (hinsert : db.insert ⟨name, columns.map Column.name⟩ arguments = .ok (n, db')) :
    n.toInt = t.counter.toInt + 1 ∧ db' = db.replace
      { t with rows := t.rows ++ [Column.sown columns n arguments], counter := n } := by
  rcases insert_eq_ok.1 hinsert with ⟨t', targets, parents, ht', htargets, -, hnumber, -, hdb⟩
  obtain rfl : t' = t := Option.some.inj (ht'.symm.trans ht)
  rcases Except.ok.inj (htargets.symm.trans (h.mapM_target hc)) with rfl
  -- No name stands for the row number, so the table chooses it.
  rw [argument_zip_number] at hnumber
  have hnext : t'.nextNumber? db.draw = some n := by
    cases hnext : t'.nextNumber? db.draw with
    | none =>
      simp [numberFor, Cell.toNumeric, hnext] at hnumber
    | some m =>
      simpa [numberFor, Cell.toNumeric, hnext] using hnumber
  have hn := h.nextNumber?_eq_some hnext
  refine ⟨hn, ?_⟩
  rw [hdb, h.cellsOf_eq hlength, Column.sown, h.add_eq hn]

/-! ## Insertions that succeed -/

/-- With a number left, values where they are needed, and the numbers of rows where they are
referred to, an insertion succeeds. -/
theorem takes (h : t.Planted columns) (hc : Column.Trailing columns) {db : Database}
    {name : String} (ht : db.table? name = some t) (hroom : t.counter.toInt < Int64.maxValue.toInt)
    {main : String} {mainColumns : List Column} {tm : Table} (htm : db.table? main = some tm)
    (hm : tm.Fitted mainColumns) {arguments : List Cell}
    (hlength : arguments.length = columns.length)
    (hvalues : ∀ x ∈ columns.zip arguments, x.1.notNull = true → x.2 ≠ .null)
    (hreferences : ∀ x ∈ columns.zip arguments, ∀ parent ∈ x.1.references,
      Ascii.sameName parent main = true ∧ x.1.type = .integer ∧
        ∃ r ∈ tm.rows, x.2 = .int r.number) :
    ∃ n db', db.insert ⟨name, columns.map Column.name⟩ arguments = .ok (n, db') := by
  have hspec : ∀ c ∈ t.columns, ∃ e ∈ Column.id :: columns, e.spec = c := by
    intro c hmem
    rw [h.columns] at hmem
    exact List.mem_map.1 hmem
  have hroom : t.HasRoom (0 + 1) := by
    rw [HasRoom, h.autoincrements, if_pos rfl, Int.max_eq_left h.greatest_le]
    exact Int.add_one_le_of_lt hroom
  have hhome : ∀ c ∈ t.columns, ∀ parent ∈ c.references, Ascii.sameName parent main = true ∧
      ∃ e : Column, e.name = c.name ∧ e.type = .integer ∧
        ∃ r ∈ tm.rows, (e, Cell.int r.number) ∈ columns.zip arguments := by
    intro c hmem parent hparent
    rcases hspec c hmem with ⟨e, he, rfl⟩
    rcases List.mem_cons.1 he with rfl | he
    · cases hparent
    · have hfst : e ∈ (columns.zip arguments).map Prod.fst := by
        rwa [List.map_fst_zip hlength.ge]
      rcases List.mem_map.1 hfst with ⟨⟨e, v⟩, hz, rfl⟩
      obtain ⟨hname, htype, r, hr, rfl⟩ := hreferences _ hz parent hparent
      exact ⟨hname, e, rfl, htype, r, hr, hz⟩
  have hsupplied : t.Supplied columns arguments := by
    intro x hx c hmem hname hneeds
    rcases hspec c hmem with ⟨e, he, rfl⟩
    -- Columns of one name are one.
    have hsame : e = x.1 := List.inj_on_of_nodup_map (Fitted.names_nodup hc) he
      (List.mem_cons_of_mem _ (List.of_mem_zip hx).1) hname
    exact hvalues x hx (hsame ▸ hneeds)
  have hexact : ∀ c ∈ t.columns, ∃ e ∈ Column.id :: columns, c.name = e.name := by
    intro c hmem
    rcases hspec c hmem with ⟨e, he, rfl⟩
    exact ⟨e, he, rfl⟩
  rcases (h.fitted hc).insert hc htm hm hlength (fun _ => hhome) hexact ht hroom with
    ⟨-, r, -, -, hok⟩ | ⟨hnot, -⟩
  · exact ⟨_, _, hok⟩
  · exact absurd hsupplied hnot

/-! ## Selection -/

/-- The names of the last columns read the last values of a row. -/
theorem map_operand (h : t.Planted columns) (hc : Column.Trailing columns)
    (skipped rest : List Column) (hsplit : Column.id :: columns = skipped ++ rest) {r : Row}
    {vs ws : List Cell} (hr : r.cells = vs ++ ws) (hvs : vs.length = skipped.length)
    (hws : ws.length = rest.length) :
    (rest.map Column.name).map (fun n => (t.operand n).value r) = ws := by
  refine List.ext_getElem (by simp [hws]) ?_
  intro i hi hi'
  have hrest : i < rest.length := by omega
  have hplace : (Column.id :: columns)[skipped.length + i]? = some rest[i] := by
    rw [hsplit, List.getElem?_append_right (by omega), Nat.add_sub_cancel_left,
      List.getElem?_eq_getElem hrest]
  have hcell : r.cell (skipped.length + i) = ws[i] := by
    rw [Row.cell, hr, ← hvs, List.getD_eq_getElem?_getD, List.getElem?_append_right (by omega),
      Nat.add_sub_cancel_left, List.getElem?_eq_getElem hi']
    rfl
  rw [List.getElem_map, List.getElem_map, h.operand_eq hc hplace]
  exact hcell

/-- A planted column has the affinity of its type. -/
theorem affinity_eq (h : t.Planted columns) {i : Nat} {c : Column}
    (hi : (Column.id :: columns)[i]? = some c) :
    t.affinity i = Affinity.ofDeclared c.type.name := by
  rw [affinity, h.columns, List.getElem?_map, hi]
  rfl

/-- A row is selected by the number that it refers to. -/
theorem holds_parent {main : String} (h : t.Planted (Column.parent main :: columns))
    (hc : Column.Trailing (Column.parent main :: columns)) {r : Row} {k id : Int64}
    (hr : r.cell 1 = .int k) : t.holds parentColumn (.int id) r = true ↔ k = id := by
  have haffinity : t.affinity 1 = .numeric :=
    (h.affinity_eq (c := Column.parent main) rfl).trans Fitted.affinity_integer
  have hoperand : t.operand parentColumn = .column 1 :=
    h.operand_eq hc (c := Column.parent main) rfl
  have hvalue : t.holds parentColumn (.int id) r =
      (r.cell 1).equals ((t.affinity 1).apply (.int id)) := by
    rw [holds, hoperand]
    rfl
  rw [hvalue, haffinity, hr]
  exact Cell.equals_int

end Planted
end Table
end Database
end Espalier
