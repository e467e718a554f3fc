import Espalier.Database.Reading
import Espalier.Proofs.Database.Formation

/-!
# What the engine tells about tables

The columns of a table are asked of a function of the engine.  A table that is called like the
function hides it, and then nothing can be asked any more.  Otherwise the engine tells of a table
what it was created with, and of a name that nobody gave to a table what it has under that name
itself, if anything.
-/

namespace Espalier
namespace Database

/-- A table hides the function that tells columns. -/
def Shadowed (db : Database) : Prop :=
  ∃ t ∈ db.tables, Ascii.sameName t.name introspection = true

instance (db : Database) : Decidable db.Shadowed :=
  inferInstanceAs (Decidable (∃ t ∈ db.tables, Ascii.sameName t.name introspection = true))

/-- The columns of a table, or else of a table that the engine has of its own. -/
inductive Tells (db : Database) (name : String) : List Sql.ColumnSpec → Prop
  | created {t : Table} : t ∈ db.tables → Ascii.sameName t.name name = true →
      Tells db name t.columns
  | builtin {b : Builtin} {columns : List (String × String)} :
      (∀ t ∈ db.tables, Ascii.sameName t.name name = false) → db.builtin? name = some b →
      b.columns? = some columns →
      Tells db name (columns.map fun c => { name := c.1, declared := c.2 })

/-- Nobody created the table, and the engine fails to tell what it has under the name itself. -/
structure Untold (db : Database) (name : String) : Prop where
  missing : ∀ t ∈ db.tables, Ascii.sameName t.name name = false
  refused : ∃ b, db.builtin? name = some b ∧ b.columns? = none

/-- Nobody created the table, and the engine has none under the name. -/
structure Unknown (db : Database) (name : String) : Prop where
  missing : ∀ t ∈ db.tables, Ascii.sameName t.name name = false
  unsupplied : db.builtin? name = none

variable {db : Database} {name : String}

theorem table?_eq_none_iff :
    db.table? name = none ↔ ∀ t ∈ db.tables, Ascii.sameName t.name name = false :=
  table?_eq_none.trans (forall₂_congr fun _ _ => Ascii.sameName_eq_false.symm)

theorem not_shadowed_iff : ¬ db.Shadowed ↔ db.table? introspection = none := by
  rw [table?_eq_none_iff]
  simp [Shadowed]

/-- Of any name the engine tells something, or it knows nothing of it, or it fails. -/
theorem tells_or (db : Database) (name : String) :
    (∃ columns, db.Tells name columns) ∨ db.Unknown name ∨ db.Untold name := by
  cases htable : db.table? name with
  | some t => exact .inl ⟨_, .created (List.mem_of_find?_eq_some htable) (table?_name htable)⟩
  | none =>
    have hmissing := table?_eq_none_iff.1 htable
    cases hbuiltin : db.builtin? name with
    | none => exact .inr (.inl ⟨hmissing, hbuiltin⟩)
    | some b =>
      cases hcolumns : b.columns? with
      | some columns => exact .inl ⟨_, .builtin hmissing hbuiltin hcolumns⟩
      | none => exact .inr (.inr ⟨hmissing, b, hbuiltin, hcolumns⟩)

/-- What the engine tells are columns, each under a name of its own. -/
theorem Tells.named (h : db.Named) {columns : List Sql.ColumnSpec} (ht : db.Tells name columns) :
    columns ≠ [] ∧ (columns.map fun c => Ascii.fold c.name).Nodup := by
  cases ht with
  | created ht _ => exact ⟨(h.tables _ ht).inhabited, (h.tables _ ht).distinct⟩
  | @builtin b columns _ _ hcolumns =>
    have hinhabited := b.inhabited
    have hdistinct := b.distinct
    rw [hcolumns] at hinhabited hdistinct
    refine ⟨fun hnil => hinhabited (congrArg some (List.map_eq_nil_iff.1 hnil)), ?_⟩
    rw [List.map_map]
    exact hdistinct

/-! ## Answers -/

/-- Behind a table of its name the function cannot be asked about any table. -/
theorem tableInfo_of_shadowed (h : db.Shadowed) (name : String) :
    db.tableInfo name = .error .statement := by
  have hfound : (db.table? introspection).isSome = true :=
    Option.isSome_iff_ne_none.2 fun hnone => not_shadowed_iff.2 hnone h
  rw [tableInfo, if_pos hfound]

section Plain

variable (hplain : ¬ db.Shadowed)

include hplain

/-- Unless a table hides it, the function looks among the tables first and then among the engine's
own. -/
theorem tableInfo_of_not_shadowed : db.tableInfo name =
    match db.table? name, db.builtin? name with
    | some t, _ => .ok t.columns
    | none, some b => b.columns
    | none, none => .ok [] := by
  rw [tableInfo, not_shadowed_iff.1 hplain]
  rfl

/-- The columns that are told of a name are those that there are. -/
theorem Tells.tableInfo_eq (h : db.Named) {columns : List Sql.ColumnSpec}
    (ht : db.Tells name columns) : db.tableInfo name = .ok columns := by
  rw [tableInfo_of_not_shadowed hplain]
  cases ht with
  | created ht hname => rw [h.table?_eq_some.2 ⟨ht, hname⟩]
  | builtin hmissing hbuiltin hcolumns =>
    rw [table?_eq_none_iff.2 hmissing, hbuiltin]
    simp only [Builtin.columns, hcolumns]

theorem Unknown.tableInfo_eq (h : db.Unknown name) : db.tableInfo name = .ok [] := by
  rw [tableInfo_of_not_shadowed hplain, table?_eq_none_iff.2 h.missing, h.unsupplied]

/-- A table of the engine that needs more than its name is a failure. -/
theorem Untold.tableInfo_eq (h : db.Untold name) : db.tableInfo name = .error .statement := by
  rcases h.refused with ⟨b, hbuiltin, hcolumns⟩
  rw [tableInfo_of_not_shadowed hplain, table?_eq_none_iff.2 h.missing, hbuiltin]
  simp only [Builtin.columns, hcolumns]

end Plain

end Database
end Espalier
