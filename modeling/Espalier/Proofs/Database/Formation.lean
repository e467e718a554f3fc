import Espalier.Proofs.Database.Settling

/-!
# Databases as statements leave them

What the statements check stays true.  Tables have names of their own and columns that can make up a
table, and the rows of a table stand in the order of their numbers, with the number shown in the
column that is the row number.  Databases that statements lead to are formed and numbered; nothing
is assumed about the schema, if any, that a table was made for.  Where only names matter it is
enough that they are apart, and keys may be as they like.
-/

namespace Espalier
namespace Database

/-! ## Columns -/

/-- The columns of a stored table can make up a table. -/
structure Table.Formed (t : Table) : Prop where
  inhabited : t.columns ≠ []
  columns : areColumns t.columns = true

namespace Table.Formed

variable {t : Table}

/-- The names of the columns are apart. -/
theorem distinct (h : t.Formed) : (t.columns.map fun c => Ascii.fold c.name).Nodup := by
  have hcolumns := h.columns
  rw [areColumns, Bool.and_eq_true, Bool.and_eq_true] at hcolumns
  exact distinctColumns_iff.1 hcolumns.1.1

/-- No two columns are primary keys. -/
theorem oneKey (h : t.Formed) :
    t.columns.Pairwise fun c d => ¬ (c.primaryKey = true ∧ d.primaryKey = true) := by
  have hcolumns := h.columns
  rw [areColumns, Bool.and_eq_true, Bool.and_eq_true] at hcolumns
  have hone := of_decide_eq_true hcolumns.1.2
  clear hcolumns h
  -- Induction over the columns: after a key the filter leaves no room for another.
  generalize t.columns = columns at hone
  induction columns with
  | nil => exact .nil
  | cons c rest ih =>
    rw [List.filter_cons] at hone
    cases hkey : c.primaryKey with
    | false =>
      rw [hkey, if_neg Bool.false_ne_true] at hone
      refine List.pairwise_cons.2 ⟨?_, ih hone⟩
      rintro d - ⟨hc, -⟩
      rw [hkey] at hc
      cases hc
    | true =>
      rw [hkey, if_pos rfl, List.length_cons] at hone
      have hnone : rest.filter Sql.ColumnSpec.primaryKey = [] :=
        List.length_eq_zero_iff.1 (by omega)
      refine List.pairwise_cons.2 ⟨?_, ih (by rw [hnone]; exact Nat.zero_le 1)⟩
      rintro d hd ⟨-, hd'⟩
      exact List.filter_eq_nil_iff.1 hnone d hd hd'

/-- Two columns that are primary keys are one. -/
theorem eq_of_primaryKey (h : t.Formed) {i j : Nat} {c d : Sql.ColumnSpec}
    (hc : t.columns[i]? = some c) (hd : t.columns[j]? = some d) (hci : c.primaryKey = true)
    (hdj : d.primaryKey = true) : i = j := by
  rcases List.getElem?_eq_some_iff.1 hc with ⟨hi, rfl⟩
  rcases List.getElem?_eq_some_iff.1 hd with ⟨hj, rfl⟩
  have hpairs := List.pairwise_iff_getElem.1 h.oneKey
  rcases Nat.lt_trichotomy i j with hlt | heq | hgt
  · exact absurd ⟨hci, hdj⟩ (hpairs i j hi hj hlt)
  · exact heq
  · exact absurd ⟨hdj, hci⟩ (hpairs j i hj hi hgt)

/-- A primary key of integers is the row number. -/
theorem numberColumn?_eq (h : t.Formed) {i : Nat} {c : Sql.ColumnSpec}
    (hc : t.columns[i]? = some c) (hnumber : isNumber c = true) : t.numberColumn? = some i := by
  have hkey : c.primaryKey = true := (Bool.and_eq_true _ _ ▸ hnumber).1
  rcases List.getElem?_eq_some_iff.1 hc with ⟨hi, hci⟩
  rw [numberColumn?, List.findIdx?_eq_some_iff_getElem]
  refine ⟨hi, hci ▸ hnumber, ?_⟩
  intro j hj hbefore
  -- A column before it that is a row number would be a second key.
  have hkey' : t.columns[j].primaryKey = true := (Bool.and_eq_true _ _ ▸ hbefore).1
  have hj' : t.columns[j]? = some t.columns[j] := List.getElem?_eq_getElem (Nat.lt_trans hj hi)
  exact absurd (h.eq_of_primaryKey hj' hc hkey' hkey) (Nat.ne_of_lt hj)

/-- Where the primary key is the row number, no other column is a key. -/
theorem keyColumn?_eq_none (h : t.Formed) {i : Nat} {c : Sql.ColumnSpec}
    (hc : t.columns[i]? = some c) (hnumber : isNumber c = true) : t.keyColumn? = none := by
  have hkey : c.primaryKey = true := (Bool.and_eq_true _ _ ▸ hnumber).1
  rw [keyColumn?, List.findIdx?_eq_none_iff]
  intro d hd
  rcases List.getElem?_of_mem hd with ⟨j, hj⟩
  cases hdkey : d.primaryKey with
  | false => rfl
  | true =>
    obtain rfl : i = j := h.eq_of_primaryKey hc hj hkey hdkey
    obtain rfl : c = d := Option.some.inj (hc.symm.trans hj)
    rw [hnumber]
    rfl

end Table.Formed

/-- Types are reported in capitals at most, so their names stay the same. -/
theorem fold_reportedType (declared : String) :
    Ascii.fold (reportedType declared) = Ascii.fold declared := by
  unfold reportedType
  split
  · exact Ascii.fold_raise declared
  · rfl

/-- A table has columns, each under a name of its own. -/
structure Table.Named (t : Table) : Prop where
  inhabited : t.columns ≠ []
  distinct : (t.columns.map fun c => Ascii.fold c.name).Nodup

theorem Table.Formed.named {t : Table} (h : t.Formed) : t.Named :=
  ⟨h.inhabited, h.distinct⟩

/-- A new table is formed. -/
theorem Table.formed_empty {d : Sql.CreateTable} (hinhabited : d.columns ≠ [])
    (hcolumns : areColumns d.columns = true) : (Table.empty d).Formed := by
  have hnumber : ∀ c : Sql.ColumnSpec,
      isNumber { c with declared := reportedType c.declared } = isNumber c := by
    intro c
    simp only [isNumber, Ascii.sameName, fold_reportedType]
  rw [areColumns, Bool.and_eq_true, Bool.and_eq_true, decide_eq_true_eq] at hcolumns
  rcases hcolumns with ⟨⟨hdistinct, hkeys⟩, hcounting⟩
  refine ⟨by simpa [Table.empty] using hinhabited, ?_⟩
  -- The reported type changes neither names nor keys.
  rw [areColumns, Bool.and_eq_true, Bool.and_eq_true, decide_eq_true_eq]
  refine ⟨⟨?_, ?_⟩, ?_⟩
  · rw [distinctColumns_iff] at hdistinct ⊢
    rw [Table.empty, List.map_map]
    exact hdistinct
  · rw [Table.empty, List.filter_map, List.length_map]
    exact hkeys
  · rw [Table.empty, List.all_map]
    refine List.all_eq_true.2 fun c hc => ?_
    have hc' := List.all_eq_true.1 hcounting c hc
    rw [Function.comp_apply, hnumber]
    exact hc'

/-! ## Rows -/

/-- The rows stand in the order of their numbers, and the column that is the row number shows it. -/
structure Table.Numbered (t : Table) : Prop where
  sorted : t.rows.Pairwise fun r s => r.number.toInt < s.number.toInt
  shown : ∀ i, t.numberColumn? = some i → ∀ r ∈ t.rows, r.cell i = .int r.number

namespace Table

theorem place_cons (r s : Row) (rows : List Row) :
    place r (s :: rows) = if s.number < r.number then s :: place r rows else r :: s :: rows := by
  by_cases hless : s.number < r.number
  · simp [place, hless]
  · simp [place, hless]

/-- A row whose number is new is placed in order. -/
theorem pairwise_place {r : Row} {rows : List Row}
    (h : rows.Pairwise fun a b => a.number.toInt < b.number.toInt)
    (hnew : ∀ s ∈ rows, s.number ≠ r.number) :
    (place r rows).Pairwise fun a b => a.number.toInt < b.number.toInt := by
  induction rows with
  | nil => exact List.pairwise_singleton _ _
  | cons s rows ih =>
    rcases List.pairwise_cons.1 h with ⟨hfirst, hrest⟩
    rw [place_cons]
    split
    · rename_i hless
      have hless : s.number.toInt < r.number.toInt := Int64.lt_iff_toInt_lt.1 hless
      refine List.pairwise_cons.2 ⟨?_, ih hrest fun a ha => hnew a (List.mem_cons_of_mem s ha)⟩
      intro a ha
      rcases mem_place.1 ha with rfl | ha
      · exact hless
      · exact hfirst a ha
    · rename_i hnot
      -- The numbers differ, so the row at the head comes after the new one.
      have hle : r.number.toInt ≤ s.number.toInt :=
        Int.not_lt.1 fun hlt => hnot (Int64.lt_iff_toInt_lt.2 hlt)
      have hne : s.number.toInt ≠ r.number.toInt :=
        fun heq => hnew s List.mem_cons_self (Int64.toInt_inj.1 heq)
      have hhead : r.number.toInt < s.number.toInt := by omega
      refine List.pairwise_cons.2 ⟨?_, h⟩
      intro a ha
      rcases List.mem_cons.1 ha with rfl | ha
      · exact hhead
      · exact Int.lt_trans hhead (hfirst a ha)

/-- A number is free if no row has it. -/
theorem hasNumber_eq_false {t : Table} {n : Int64} :
    t.hasNumber n = false ↔ ∀ r ∈ t.rows, r.number ≠ n := by
  simp [hasNumber]

/-- One more row under a new number. -/
theorem Numbered.add {t : Table} (h : t.Numbered) {n : Int64} (hnew : t.hasNumber n = false)
    (assigned : List (Target × Cell)) : (t.add ⟨n, t.cellsOf n assigned⟩).Numbered := by
  refine ⟨pairwise_place h.sorted (hasNumber_eq_false.1 hnew), ?_⟩
  intro i hi r hr
  have hi : t.numberColumn? = some i := hi
  rcases mem_place.1 hr with rfl | hr
  · rcases List.findIdx?_eq_some_iff_getElem.1 hi with ⟨hlt, -, -⟩
    rw [cell_cellsOf, List.getElem?_eq_getElem hlt]
    exact if_pos hi
  · exact h.shown i hi r hr

theorem Numbered.filter {t : Table} (h : t.Numbered) (p : Row → Bool) :
    Numbered { t with rows := t.rows.filter p } where
  sorted := h.sorted.filter p
  shown i hi r hr := h.shown i hi r (List.mem_filter.1 hr).1

end Table

/-! ## Whole databases -/

/-- Tables have names of their own, and each has columns that can make up a table. -/
structure Formed (db : Database) : Prop where
  tables : ∀ t ∈ db.tables, t.Formed
  distinct : (db.tables.map fun t => Ascii.fold t.name).Nodup

structure Named (db : Database) : Prop where
  tables : ∀ t ∈ db.tables, t.Named
  distinct : (db.tables.map fun t => Ascii.fold t.name).Nodup

structure Blank (db : Database) : Prop where
  tables : db.tables = []
  indexes : db.indexes = []

def Numbered (db : Database) : Prop :=
  ∀ t ∈ db.tables, t.Numbered

theorem Formed.named {db : Database} (h : db.Formed) : db.Named :=
  ⟨fun t ht => (h.tables t ht).named, h.distinct⟩

/-- Names are compared in small letters. -/
theorem Table.named_iff {t : Table} :
    t.Named ↔ t.columns ≠ [] ∧ (t.columns.map fun c => Ascii.fold c.name).Nodup :=
  ⟨fun h => ⟨h.inhabited, h.distinct⟩, fun h => ⟨h.1, h.2⟩⟩

instance (t : Table) : Decidable t.Named :=
  decidable_of_iff' _ Table.named_iff

theorem named_iff {db : Database} : db.Named ↔
    (∀ t ∈ db.tables, t.Named) ∧ (db.tables.map fun t => Ascii.fold t.name).Nodup :=
  ⟨fun h => ⟨h.tables, h.distinct⟩, fun h => ⟨h.1, h.2⟩⟩

instance (db : Database) : Decidable db.Named :=
  decidable_of_iff' _ named_iff

section Whole

variable {db db' : Database}

theorem formed_empty (checked : Bool) : Formed { checked } where
  tables t ht := by cases ht
  distinct := List.nodup_nil

theorem numbered_empty (checked : Bool) : Numbered { checked } := by
  intro t ht
  cases ht

/-- A table that is found is formed, as all are. -/
theorem Formed.table? (h : db.Formed) {name : String} {t : Table} (ht : db.table? name = some t) :
    t.Formed :=
  h.tables t (List.mem_of_find?_eq_some ht)

theorem Numbered.table? (h : db.Numbered) {name : String} {t : Table}
    (ht : db.table? name = some t) : t.Numbered :=
  h t (List.mem_of_find?_eq_some ht)

theorem Named.table? (h : db.Named) {name : String} {t : Table} (ht : db.table? name = some t) :
    t.Named :=
  h.tables t (List.mem_of_find?_eq_some ht)

/-- A look-up finds the one table of a name. -/
theorem Named.table?_eq_some (h : db.Named) {name : String} {t : Table} :
    db.table? name = some t ↔ t ∈ db.tables ∧ Ascii.sameName t.name name = true := by
  constructor
  · intro ht
    exact ⟨List.mem_of_find?_eq_some ht, table?_name ht⟩
  · rintro ⟨ht, hname⟩
    exact table?_of_mem h.distinct ht hname

/-- What is true of all tables is true after one has been put in the place of another. -/
theorem forall_tables_replace {p : Table → Prop} (h : ∀ u ∈ db.tables, p u) {t : Table} (ht : p t) :
    ∀ u ∈ (db.replace t).tables, p u := by
  intro u hu
  rcases List.mem_map.1 hu with ⟨v, hv, rfl⟩
  split
  · exact ht
  · exact h v hv

/-- A formed table in the place of another leaves the database formed. -/
theorem Formed.replace (h : db.Formed) {t : Table} (ht : t.Formed) : (db.replace t).Formed := by
  refine ⟨forall_tables_replace h.tables ht, ?_⟩
  -- A table takes the place of one of its own name, so no folded name changes.
  have hnames : (db.replace t).tables.map (fun u => Ascii.fold u.name) =
      db.tables.map fun u => Ascii.fold u.name := by
    rw [Database.replace, List.map_map]
    refine List.map_congr_left fun u _ => ?_
    rw [Function.comp_apply]
    split
    · rename_i hsame
      exact (Ascii.sameName_iff.1 hsame).symm
    · rfl
  rw [hnames]
  exact h.distinct

/-! ## What statements keep -/

/-- Insertions keep what holds of all tables and of all row numbers. -/
theorem insert_keeps {s : Sql.Insert} {arguments : List Cell} {n : Int64}
    (hinsert : db.insert s arguments = .ok (n, db')) :
    (db.Formed → db'.Formed) ∧ (db.Numbered → db'.Numbered) := by
  rcases insert_eq_ok.1 hinsert with ⟨t, targets, parents, ht, -, -, -, hcheck, rfl⟩
  constructor
  · intro h
    rcases h.table? ht with ⟨hinhabited, hcolumns⟩
    exact h.replace ⟨hinhabited, hcolumns⟩
  · intro h
    have hnew : t.hasNumber n = false := Table.hasNumber_of_repeated? (checkRow_eq_ok.1 hcheck).2.1
    exact forall_tables_replace h ((h.table? ht).add hnew _)

/-- Deletions keep what holds of all tables and of all row numbers. -/
theorem delete_keeps {s : Sql.Delete} {argument : Cell} {k : Nat}
    (hdelete : db.delete s argument = .ok (k, db')) :
    (db.Formed → db'.Formed) ∧ (db.Numbered → db'.Numbered) := by
  rcases delete_eq_ok hdelete with ⟨t, ht, rfl⟩
  constructor
  · intro h
    rcases h.table? ht with ⟨hinhabited, hcolumns⟩
    exact h.replace ⟨hinhabited, hcolumns⟩
  · intro h
    exact forall_tables_replace h ((h.table? ht).filter _)

/-- What is true of all tables and of new ones is true after a definition. -/
theorem forall_tables_define {p : Table → Prop} (hempty : ∀ c : Sql.CreateTable, c.columns ≠ [] →
    areColumns c.columns = true → p (Table.empty c)) {d : Sql.Definition}
    (hdefine : db.define d = .ok db') (h : ∀ t ∈ db.tables, p t) : ∀ t ∈ db'.tables, p t := by
  intro t ht
  -- Either the tables stay as they are, or one without rows is added at the end.
  rcases define_eq_ok hdefine with htables | ⟨c, -, hinhabited, hcolumns, htables⟩
  · exact h t (htables ▸ ht)
  · rw [htables, List.mem_append, List.mem_singleton] at ht
    rcases ht with ht | rfl
    · exact h t ht
    · exact hempty c hinhabited hcolumns

/-- A definition gives no name twice. -/
theorem nodup_define {d : Sql.Definition} (hdefine : db.define d = .ok db')
    (h : (db.tables.map fun t => Ascii.fold t.name).Nodup) :
    (db'.tables.map fun t => Ascii.fold t.name).Nodup := by
  rcases define_eq_ok hdefine with htables | ⟨c, hnone, -, -, htables⟩
  · exact htables ▸ h
  · rw [htables, List.map_append, List.nodup_append]
    refine ⟨h, List.nodup_singleton _, ?_⟩
    intro a ha b hb
    rcases List.mem_map.1 ha with ⟨t, ht, rfl⟩
    rw [List.map_singleton, List.mem_singleton] at hb
    rw [hb]
    exact table?_eq_none.1 hnone t ht

theorem Formed.define (h : db.Formed) {d : Sql.Definition} (hdefine : db.define d = .ok db') :
    db'.Formed :=
  ⟨forall_tables_define (fun _ => Table.formed_empty) hdefine h.tables,
    nodup_define hdefine h.distinct⟩

theorem Named.define (h : db.Named) {d : Sql.Definition} (hdefine : db.define d = .ok db') :
    db'.Named :=
  ⟨forall_tables_define
    (fun _ hinhabited hcolumns => (Table.formed_empty hinhabited hcolumns).named)
    hdefine h.tables, nodup_define hdefine h.distinct⟩

/-- A new table has no rows, so its numbers are in order. -/
theorem Numbered.define (h : db.Numbered) {d : Sql.Definition}
    (hdefine : db.define d = .ok db') : db'.Numbered := by
  refine forall_tables_define (fun c _ _ => ⟨.nil, ?_⟩) hdefine h
  rintro i - r ⟨⟩

/-- Dropping a table keeps the others as they are. -/
theorem drop_keeps {d : Sql.DropTable} (hdrop : db.drop d = .ok db') :
    (db.Formed → db'.Formed) ∧ (db.Numbered → db'.Numbered) := by
  have htables := drop_eq_ok hdrop
  have hsublist : db'.tables.Sublist db.tables := htables ▸ List.filter_sublist
  constructor
  · intro h
    exact ⟨fun t ht => h.tables t (hsublist.subset ht), h.distinct.sublist (hsublist.map _)⟩
  · intro h t ht
    exact h t (hsublist.subset ht)

end Whole

/-! ## Reachable databases -/

namespace Reachable

variable {db : Database}

theorem formed (h : Reachable db) : db.Formed := by
  induction h with
  | empty checked => exact formed_empty checked
  | connect _ _ _ _ ih => exact ⟨ih.tables, ih.distinct⟩
  | define _ hdefine ih => exact ih.define hdefine
  | insert _ hinsert ih => exact (insert_keeps hinsert).1 ih
  | delete _ hdelete ih => exact (delete_keeps hdelete).1 ih
  | drop _ hdrop ih => exact (drop_keeps hdrop).1 ih

theorem numbered (h : Reachable db) : db.Numbered := by
  induction h with
  | empty checked => exact numbered_empty checked
  | connect _ _ _ _ ih => exact ih
  | define _ hdefine ih => exact ih.define hdefine
  | insert _ hinsert ih => exact (insert_keeps hinsert).2 ih
  | delete _ hdelete ih => exact (delete_keeps hdelete).2 ih
  | drop _ hdrop ih => exact (drop_keeps hdrop).2 ih

end Reachable
end Database
end Espalier
