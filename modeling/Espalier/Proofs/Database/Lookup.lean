import Mathlib.Data.List.Nodup
import Espalier.Database.Definition

/-!
# Look-up by name

Names of tables and columns agree when their folded texts do.  Where folded names are distinct a
look-up finds the one thing that has the name, and putting a table in the place of another changes
the look-ups of that name only.
-/

namespace Espalier

/-! ## Names -/

namespace Ascii

theorem sameName_eq_false {a b : String} : sameName a b = false ↔ fold a ≠ fold b := by
  simp [sameName]

theorem sameName_comm (a b : String) : sameName a b = sameName b a := by
  rw [sameName, sameName, Bool.beq_comm]

theorem sameName_congr_left {a b : String} (h : sameName a b = true) (c : String) :
    sameName a c = sameName b c := by
  simp [sameName, sameName_iff.1 h]

theorem fold_append (a b : String) : fold (a ++ b) = fold a ++ fold b := by
  apply String.toList_injective
  simp [fold]

end Ascii

namespace Database

/-! ## Tables -/

theorem table?_name {db : Database} {name : String} {t : Table} (h : db.table? name = some t) :
    Ascii.sameName t.name name = true := by
  have h' := List.find?_some h
  exact h'

/-- A statement finds the table that there is. -/
theorem table_eq_ok {db : Database} {name : String} {t : Table} :
    db.table name = .ok t ↔ db.table? name = some t := by
  unfold table
  cases db.table? name <;> simp

theorem table?_congr {a b : String} (h : Ascii.sameName a b = true) (db : Database) :
    db.table? a = db.table? b := by
  have hp : (fun t : Table => Ascii.sameName t.name a) = fun t => Ascii.sameName t.name b := by
    funext t
    rw [Ascii.sameName_comm, Ascii.sameName_congr_left h, Ascii.sameName_comm]
  rw [table?, table?, hp]

/-- Among tables with distinct names a look-up finds each of them. -/
theorem table?_of_mem {db : Database} {t : Table} {name : String}
    (hdistinct : (db.tables.map fun u => Ascii.fold u.name).Nodup) (ht : t ∈ db.tables)
    (hname : Ascii.sameName t.name name = true) : db.table? name = some t := by
  rcases db with ⟨tables, indexes, checked⟩
  unfold table?
  dsimp only at hdistinct ht ⊢
  -- Induction over the tables: an earlier one of the same name would repeat a folded name.
  induction tables with
  | nil => cases ht
  | cons u rest ih =>
    rw [List.map_cons, List.nodup_cons] at hdistinct
    rcases List.mem_cons.1 ht with rfl | ht
    · simp [hname]
    · have hne : Ascii.sameName u.name name = false := by
        rw [Ascii.sameName_eq_false]
        intro hu
        have hfold : Ascii.fold t.name = Ascii.fold u.name :=
          (Ascii.sameName_iff.1 hname).trans hu.symm
        exact hdistinct.1 (List.mem_map.2 ⟨t, ht, hfold⟩)
      rw [List.find?_cons, hne]
      exact ih hdistinct.2 ht

/-- No table is found under a name if none has it in small letters. -/
theorem table?_eq_none {db : Database} {name : String} :
    db.table? name = none ↔ ∀ t ∈ db.tables, Ascii.fold t.name ≠ Ascii.fold name := by
  simp [table?, List.find?_eq_none, Ascii.sameName_iff]

theorem hasIndex_eq_false {db : Database} {name : String} :
    db.hasIndex name = false ↔ ∀ i ∈ db.indexes, Ascii.fold i.name ≠ Ascii.fold name := by
  simp [hasIndex, Ascii.sameName_eq_false]

/-- A table put in its place is found under its name, and all others as before. -/
theorem table?_replace (db : Database) (t : Table) (name : String) :
    (db.replace t).table? name =
      (db.table? name).map fun u => if Ascii.sameName u.name t.name then t else u := by
  have hp : ((fun u : Table => Ascii.sameName u.name name) ∘ fun u =>
      if Ascii.sameName u.name t.name then t else u) = fun u => Ascii.sameName u.name name := by
    funext u
    by_cases hu : Ascii.sameName u.name t.name = true
    · simp [hu, Ascii.sameName_congr_left hu name]
    · simp [hu]
  rw [table?, replace, List.find?_map, hp, table?]

/-- The table that takes another's place is found under the name. -/
theorem table?_replace_self {db : Database} {t u : Table} {name : String}
    (h : db.table? name = some u) (ht : Ascii.sameName t.name name = true) :
    (db.replace t).table? name = some t := by
  have hut : Ascii.sameName u.name t.name = true := by
    rw [Ascii.sameName_congr_left (table?_name h), Ascii.sameName_comm]
    exact ht
  simp [table?_replace, h, hut]

/-- Other names still lead to the same tables. -/
theorem table?_replace_of_ne {db : Database} {t : Table} {name : String}
    (h : Ascii.sameName t.name name = false) : (db.replace t).table? name = db.table? name := by
  rw [table?_replace]
  cases hu : db.table? name with
  | none => rfl
  | some u =>
    have hut : Ascii.sameName u.name t.name = false := by
      rw [Ascii.sameName_congr_left (table?_name hu), Ascii.sameName_comm]
      exact h
    simp [hut]

/-! ## Columns -/

/-- Columns are apart if their names in small letters are. -/
theorem distinctColumns_iff {columns : List Sql.ColumnSpec} :
    distinctColumns columns = true ↔ (columns.map fun c => Ascii.fold c.name).Nodup := by
  induction columns with
  | nil => simp [distinctColumns]
  | cons c rest ih =>
    have hnew : (!rest.any fun d => Ascii.sameName c.name d.name) = true ↔
        Ascii.fold c.name ∉ rest.map fun d => Ascii.fold d.name := by
      simp only [Bool.not_eq_true', List.any_eq_false, Ascii.sameName_iff, List.mem_map, not_exists,
        not_and]
      exact forall₂_congr fun d _ => not_congr eq_comm
    rw [distinctColumns, Bool.and_eq_true, ih, hnew, List.map_cons, List.nodup_cons]

/-- Among columns with distinct names there is one of each exact name. -/
theorem find?_name_eq_some {columns : List Sql.ColumnSpec}
    (hdistinct : (columns.map fun c => Ascii.fold c.name).Nodup) {name : String}
    {c : Sql.ColumnSpec} :
    columns.find? (fun d => d.name = name) = some c ↔ c ∈ columns ∧ c.name = name := by
  constructor
  · intro h
    exact ⟨List.mem_of_find?_eq_some h, by simpa using List.find?_some h⟩
  · rintro ⟨hc, hname⟩
    cases hfind : columns.find? fun d => d.name = name with
    | none => exact absurd (decide_eq_true hname) (List.find?_eq_none.1 hfind c hc)
    | some d =>
      have hd : d.name = name := by simpa using List.find?_some hfind
      have hfold : Ascii.fold d.name = Ascii.fold c.name := congrArg _ (hd.trans hname.symm)
      rw [List.inj_on_of_nodup_map hdistinct (List.mem_of_find?_eq_some hfind) hc hfold]

/-- Among columns with distinct names a look-up finds each at its place. -/
theorem Table.column?_of_getElem? {t : Table} {i : Nat} {c : Sql.ColumnSpec}
    (hdistinct : (t.columns.map fun d => Ascii.fold d.name).Nodup)
    (hc : t.columns[i]? = some c) : t.column? c.name = some i := by
  rcases List.getElem?_eq_some_iff.1 hc with ⟨hi, hci⟩
  rw [Table.column?, List.findIdx?_eq_some_iff_getElem]
  refine ⟨hi, by simp [hci, Ascii.sameName_refl], ?_⟩
  intro j hj hsame
  have hne := List.pairwise_iff_getElem.1 hdistinct j i (by simpa using Nat.lt_trans hj hi)
    (by simpa using hi) hj
  have hfold : Ascii.fold t.columns[j].name = Ascii.fold c.name := Ascii.sameName_iff.1 hsame
  simp [hci, hfold] at hne

end Database
end Espalier
