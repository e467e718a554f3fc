import Espalier.Proofs.Store.Planting
import Espalier.Proofs.Store.Provisioning

/-!
# What every run of a store keeps

In a database that only a store has written to, the tables of the schema number their rows, and a
secondary row refers to an id that the main table has given.  `Tended` says so, and every step keeps
it.  `Follows` says what a step leaves alone: ids are never given twice, so a later row never refers
to a document that was there before.
-/

namespace Espalier

open Database (Action Cell Row)

namespace Database

/-! ## Rows and counters by name -/

/-- The rows of the table of a name, none if there is no such table. -/
def rowsOf (db : Database) (name : String) : List Row :=
  ((db.table? name).map Table.rows).getD []

def counterOf (db : Database) (name : String) : Int :=
  ((db.table? name).map fun t => t.counter.toInt).getD 0

theorem rowsOf_eq {db : Database} {name : String} {t : Table} (h : db.table? name = some t) :
    db.rowsOf name = t.rows := by
  rw [rowsOf, h]
  rfl

theorem counterOf_eq {db : Database} {name : String} {t : Table} (h : db.table? name = some t) :
    db.counterOf name = t.counter.toInt := by
  rw [counterOf, h]
  rfl

/-- The rows under a name do not depend on capitals. -/
theorem rowsOf_congr {a b : String} (h : Ascii.sameName a b = true) (db : Database) :
    db.rowsOf a = db.rowsOf b := by
  rw [rowsOf, rowsOf, table?_congr h]

theorem exists_of_mem_rowsOf {db : Database} {name : String} {r : Row} (h : r ∈ db.rowsOf name) :
    ∃ t, db.table? name = some t ∧ r ∈ t.rows := by
  cases ht : db.table? name with
  | none =>
    rw [rowsOf, ht] at h
    cases h
  | some t => exact ⟨t, rfl, rowsOf_eq ht ▸ h⟩

section Replace

variable {db : Database} {name : String} {t t' : Table}

/-- A look-up after a table was put in the place of another of its name. -/
theorem table?_replace_eq (ht : db.table? name = some t) (hname : t'.name = t.name)
    (other : String) :
    (db.replace t').table? other =
      if Ascii.sameName name other then some t' else db.table? other := by
  have hsame : Ascii.sameName t'.name name = true := by
    rw [hname]
    exact table?_name ht
  by_cases hother : Ascii.sameName name other = true
  · have hfound : db.table? other = some t := by rw [← table?_congr hother, ht]
    rw [if_pos hother, table?_replace_self hfound]
    rw [Ascii.sameName_congr_left hsame]
    exact hother
  · rw [if_neg hother, table?_replace_of_ne]
    rw [Ascii.sameName_congr_left hsame]
    exact Bool.not_eq_true _ ▸ hother

theorem isSome_table?_replace (db : Database) (t' : Table) (other : String) :
    ((db.replace t').table? other).isSome = (db.table? other).isSome := by
  rw [table?_replace, Option.isSome_map]

/-- Putting a table in place of another changes the rows under its name only. -/
theorem rowsOf_replace (ht : db.table? name = some t) (hname : t'.name = t.name)
    (other : String) :
    (db.replace t').rowsOf other =
      if Ascii.sameName name other then t'.rows else db.rowsOf other := by
  rw [rowsOf, table?_replace_eq ht hname]
  split <;> rfl

theorem counterOf_replace (ht : db.table? name = some t) (hname : t'.name = t.name)
    (other : String) :
    (db.replace t').counterOf other =
      if Ascii.sameName name other then t'.counter.toInt else db.counterOf other := by
  rw [counterOf, table?_replace_eq ht hname]
  split <;> rfl

end Replace

end Database

namespace Schema

/-! ## Tended databases -/

/-- The tables of the schema number their rows, and secondary rows refer to ids that were given. -/
structure Tended (s : Schema) (db : Database) : Prop where
  planted : ∀ u ∈ s.tables, ∀ t, db.table? u.1 = some t → t.Planted (s.planted u.1 u.2)
  owned : ∀ u ∈ s.secondaryTables, ∀ r ∈ db.rowsOf u.1,
    ∃ k : Int64, r.cell 1 = .int k ∧ k.toInt ≤ db.counterOf s.mainTable

/-- Every table of the schema is there. -/
def Furnished (s : Schema) (db : Database) : Prop :=
  ∀ u ∈ s.tables, (db.table? u.1).isSome = true

/-- If one table of the schema is there, all of them are. -/
def Complete (s : Schema) (db : Database) : Prop :=
  (∃ u ∈ s.tables, (db.table? u.1).isSome = true) → ∀ u ∈ s.tables, (db.table? u.1).isSome = true

/-- Secondary rows that were not there refer to ids that had not been given. -/
structure Follows (s : Schema) (db db' : Database) : Prop where
  counter : db.counterOf s.mainTable ≤ db'.counterOf s.mainTable
  rows : ∀ u ∈ s.secondaryTables, ∀ r ∈ db'.rowsOf u.1, r ∈ db.rowsOf u.1 ∨
    ∃ k : Int64, r.cell 1 = .int k ∧ db.counterOf s.mainTable < k.toInt

theorem Follows.refl (s : Schema) (db : Database) : s.Follows db db :=
  ⟨Int.le_refl _, fun _ _ _ hr => .inl hr⟩

/-- What follows a follower follows. -/
theorem Follows.trans {s : Schema} {a b c : Database} (hab : s.Follows a b)
    (hbc : s.Follows b c) : s.Follows a c := by
  refine ⟨Int.le_trans hab.counter hbc.counter, ?_⟩
  intro u hu r hr
  rcases hbc.rows u hu r hr with hr | ⟨k, hcell, hk⟩
  · exact hab.rows u hu r hr
  · exact .inr ⟨k, hcell, Int.lt_of_le_of_lt hab.counter hk⟩

/-- Rows that refer to an id that was given are not new. -/
theorem Follows.mem_of_cell {s : Schema} {db db' : Database} (h : s.Follows db db')
    {u : String × Table} (hu : u ∈ s.secondaryTables) {r : Row} (hr : r ∈ db'.rowsOf u.1)
    {k : Int64} (hcell : r.cell 1 = .int k) (hk : k.toInt ≤ db.counterOf s.mainTable) :
    r ∈ db.rowsOf u.1 := by
  rcases h.rows u hu r hr with hr | ⟨k', hcell', hk'⟩
  · exact hr
  · obtain rfl : k = k' := Cell.int.inj (hcell.symm.trans hcell')
    omega

/-- A database in which no table has other rows or another counter follows. -/
theorem Follows.of_eq {s : Schema} {db db' : Database}
    (hrows : ∀ name, db'.rowsOf name = db.rowsOf name)
    (hcounter : ∀ name, db'.counterOf name = db.counterOf name) : s.Follows db db' := by
  refine ⟨Int.le_of_eq (hcounter _).symm, ?_⟩
  intro u _ r hr
  exact .inl (hrows u.1 ▸ hr)

theorem tended_empty (s : Schema) (checked : Bool) : s.Tended { checked } where
  planted _ _ _ ht := by cases ht
  owned _ _ _ hr := by cases hr

theorem complete_empty (s : Schema) (checked : Bool) : s.Complete { checked } := by
  rintro ⟨u, -, hu⟩
  cases hu

theorem Complete.of_eq {s : Schema} {db db' : Database} (h : s.Complete db)
    (heq : ∀ name, (db'.table? name).isSome = (db.table? name).isSome) : s.Complete db' := by
  rintro ⟨u, hu, hsome⟩ v hv
  rw [heq]
  exact h ⟨u, hu, by rw [← heq]; exact hsome⟩ v hv

/-! ## Deletion -/

/-- Rows may be gone, but tables and counters stay. -/
def Thins (db db' : Database) : Prop :=
  ∀ name, ∃ p : Row → Bool,
    db'.table? name = (db.table? name).map fun t => { t with rows := t.rows.filter p }

/-- A deletion thins. -/
theorem Thins.delete {db db' : Database} {d : Sql.Delete} {argument : Cell} {n : Nat}
    (hdelete : db.delete d argument = .ok (n, db')) : Thins db db' := by
  rcases Database.delete_eq_ok hdelete with ⟨t, ht, rfl⟩
  obtain ⟨left, hleft⟩ : ∃ left : Database.Table,
      left = { t with rows := t.rows.filter fun r => !t.holds d.key argument r } := ⟨_, rfl⟩
  have hname : left.name = t.name := by rw [hleft]
  rw [← hleft]
  intro name
  rw [Database.table?_replace_eq ht hname]
  split
  · rename_i hsame
    refine ⟨fun r => !t.holds d.key argument r, ?_⟩
    rw [← Database.table?_congr hsame, ht, hleft]
    rfl
  · refine ⟨fun _ => true, ?_⟩
    cases db.table? name <;> simp

section Thins

variable {db db' : Database} (h : Thins db db')

include h

/-- A row that is left was there before. -/
theorem Thins.mem_rowsOf {name : String} {r : Row} (hr : r ∈ db'.rowsOf name) :
    r ∈ db.rowsOf name := by
  rcases h name with ⟨p, hp⟩
  rw [Database.rowsOf, hp] at hr
  cases ht : db.table? name with
  | none =>
    rw [ht] at hr
    cases hr
  | some t =>
    rw [ht] at hr
    rw [Database.rowsOf_eq ht]
    exact (List.mem_filter.1 hr).1

theorem Thins.counterOf (name : String) : db'.counterOf name = db.counterOf name := by
  rcases h name with ⟨p, hp⟩
  rw [Database.counterOf, Database.counterOf, hp, Option.map_map]
  rfl

theorem Thins.isSome_table? (name : String) :
    (db'.table? name).isSome = (db.table? name).isSome := by
  rcases h name with ⟨p, hp⟩
  rw [hp, Option.isSome_map]

end Thins

/-- Rows only go, and counters stay, so every bound on references still holds. -/
theorem Thins.tended {s : Schema} {db db' : Database} (h : Thins db db') (ht : s.Tended db) :
    s.Tended db' where
  planted u hu t' ht' := by
    rcases h u.1 with ⟨p, hp⟩
    rcases Option.map_eq_some_iff.1 (hp.symm.trans ht') with ⟨t, hfound, rfl⟩
    exact (ht.planted u hu t hfound).filter p
  owned u hu r hr := by
    rw [h.counterOf]
    exact ht.owned u hu r (h.mem_rowsOf hr)

/-- Thinning is a step that follows. -/
theorem Thins.follows {s : Schema} {db db' : Database} (h : Thins db db') : s.Follows db db' :=
  ⟨Int.le_of_eq (h.counterOf _).symm, fun _ _ _ hr => .inl (h.mem_rowsOf hr)⟩

/-! ## Definitions -/

/-- Tables of the schema may be added, but rows and counters stay. -/
structure Defines (s : Schema) (db db' : Database) : Prop where
  rows : ∀ name, db'.rowsOf name = db.rowsOf name
  counter : ∀ name, db'.counterOf name = db.counterOf name
  kept : ∀ name, (db.table? name).isSome = true → (db'.table? name).isSome = true
  own : ∀ name, (∀ u ∈ s.tables, Ascii.fold u.1 ≠ Ascii.fold name) →
    db'.table? name = db.table? name
  tended : s.Tended db → s.Tended db'

theorem Defines.refl (s : Schema) (db : Database) : s.Defines db db :=
  ⟨fun _ => rfl, fun _ => rfl, fun _ h => h, fun _ _ => rfl, fun h => h⟩

/-- Tables that are added have no rows, and their counters are zero, as if they were not there. -/
theorem Defines.completed {s : Schema} (hsound : s.Sound) (db : Database) :
    s.Defines db (s.completed s.tables db) := by
  have hlookup : ∀ name, (s.completed s.tables db).table? name = db.table? name ∨
      db.table? name = none ∧ ∃ u ∈ s.tables, Ascii.sameName u.1 name = true ∧
        (s.completed s.tables db).table? name = some (s.created u) := by
    intro name
    cases hold : db.table? name with
    | some t => exact .inl (table?_completed_of_some hold)
    | none =>
      cases hnew : (s.completed s.tables db).table? name with
      | none => exact .inl rfl
      | some t =>
        rcases exists_of_table?_completed hold hnew with ⟨u, hu, hname, rfl⟩
        exact .inr ⟨rfl, u, hu, hname, rfl⟩
  have hrows : ∀ name, (s.completed s.tables db).rowsOf name = db.rowsOf name := by
    intro name
    rcases hlookup name with heq | ⟨hnone, u, -, -, hsome⟩
    · rw [Database.rowsOf, Database.rowsOf, heq]
    · rw [Database.rowsOf_eq hsome, Database.rowsOf, hnone]
      rfl
  have hcounter : ∀ name, (s.completed s.tables db).counterOf name = db.counterOf name := by
    intro name
    rcases hlookup name with heq | ⟨hnone, u, -, -, hsome⟩
    · rw [Database.counterOf, Database.counterOf, heq]
    · rw [Database.counterOf_eq hsome, Database.counterOf, hnone]
      rfl
  refine ⟨hrows, hcounter, ?_, fun _ => table?_completed_of_ne, ?_⟩
  · intro name hsome
    rcases hlookup name with heq | ⟨hnone, -⟩
    · exact heq ▸ hsome
    · rw [hnone] at hsome
      cases hsome
  rintro ⟨hplanted, howned⟩
  refine ⟨?_, ?_⟩
  · intro v hv t ht
    rcases hlookup v.1 with heq | ⟨-, u, hu, hname, hsome⟩
    · exact hplanted v hv t (heq ▸ ht)
    · -- Folded names are apart, so the new table is the one of its own entry.
      rcases eq_of_sameName hsound hu hv hname with rfl
      rcases Option.some.inj (hsome.symm.trans ht) with rfl
      refine .empty ?_ rfl rfl
      rw [created_columns, layout_eq]
  · intro v hv r hr
    rw [hcounter]
    exact howned v hv r (hrows v.1 ▸ hr)

end Schema
end Espalier
