import Espalier.Proofs.Database.Rows
import Espalier.Proofs.Number.Whole
import Espalier.Proofs.Text.Letters

/-!
# Values as their columns keep them

A column for doubles turns integers into doubles on their way in, so it never holds one.  A database
in which that is so is called settled; the empty database is, and every statement keeps it so.
`Reachable` collects the databases that statements can lead to.
-/

namespace Espalier
namespace Database

/-! ## Doubles in cells -/

namespace Cell

theorem toReal_ne_int (c : Cell) (n : Int64) : c.toReal ≠ .int n := by
  unfold toReal
  cases hc : c.toNumeric <;> simp

/-- A column for doubles keeps a double, but for the sign of zero. -/
theorem toReal_real (x : Double) :
    (Cell.real x).toReal = .real (if x.isZero then Double.zero false else x) := by
  have hnumeric : (Cell.real x).toNumeric = settle x := rfl
  cases hz : x.isZero with
  | true =>
    have hsettle : settle x = .int 0 := by
      simp only [settle, Double.toInt?_of_isZero hz]
      rfl
    rw [toReal, hnumeric, hsettle, if_pos rfl]
    rfl
  | false =>
    rw [toReal, hnumeric, settle, if_neg Bool.false_ne_true]
    cases hi : x.toInt? with
    | none => rfl
    | some i =>
      rw [Option.bind_some]
      cases hw : int64? i with
      | none => rfl
      | some n =>
        -- At the ends of the integers a whole double stays a double on its way in.
        by_cases hends : n = Int64.minValue ∨ n = Int64.maxValue
        · simp [hends]
        · simp [hends, toInt_of_int64? hw, Double.ofInt_of_toInt? hi hz]

end Cell

/-! ## Settled databases -/

/-- No column for doubles holds an integer. -/
def Table.Settled (t : Table) : Prop :=
  ∀ r ∈ t.rows, ∀ i, t.affinity i = .real → ∀ n, r.cell i ≠ .int n

def Settled (db : Database) : Prop :=
  ∀ t ∈ db.tables, t.Settled

theorem settled_empty (checked : Bool) : Settled { checked } := by
  intro t ht
  cases ht

theorem Settled.table? {db : Database} (h : db.Settled) {name : String} {t : Table}
    (ht : db.table? name = some t) : t.Settled :=
  h t (List.mem_of_find?_eq_some ht)

theorem settled_replace {db : Database} {t : Table} (h : db.Settled) (ht : t.Settled) :
    (db.replace t).Settled := by
  intro u hu
  rcases List.mem_map.1 hu with ⟨v, hv, rfl⟩
  by_cases hname : Ascii.sameName v.name t.name = true
  · rw [if_pos hname]
    exact ht
  · rw [if_neg hname]
    exact h v hv

/-- Fewer rows leave a table settled. -/
theorem Table.settled_of_subset {t : Table} (h : t.Settled) {rows : List Row}
    (hrows : ∀ r ∈ rows, r ∈ t.rows) : Settled { t with rows } := by
  intro r hr
  exact h r (hrows r hr)

/-! ## New rows -/

/-- The column that is the row number takes numbers. -/
theorem affinity_of_isNumber {c : Sql.ColumnSpec} (h : Table.isNumber c = true) :
    Affinity.ofDeclared c.declared = .numeric := by
  have hname : Ascii.sameName c.declared "INTEGER" = true := (Bool.and_eq_true _ _ ▸ h).2
  rw [Affinity.ofDeclared, Ascii.raise_eq_raise_iff.2 (Ascii.sameName_iff.1 hname)]
  decide

/-- A new row holds no integer in a column for doubles. -/
theorem Table.settled_add {t : Table} (h : t.Settled) (n : Int64)
    (assigned : List (Target × Cell)) : (t.add ⟨n, t.cellsOf n assigned⟩).Settled := by
  intro r hr i hreal k hk
  rcases mem_place.1 hr with rfl | hr
  · have hreal : t.affinity i = .real := hreal
    rw [cell_cellsOf] at hk
    unfold Table.affinity at hreal
    cases hc : t.columns[i]? with
    | none =>
      rw [hc] at hreal
      cases hreal
    | some c =>
      simp only [hc] at hreal hk
      -- The row number itself is an integer, but its column takes numbers.
      by_cases hnumber : t.numberColumn? = some i
      · rcases List.findIdx?_eq_some_iff_getElem.1 hnumber with ⟨hi, hisNumber, -⟩
        have hci : t.columns[i] = c := (List.getElem?_eq_some_iff.1 hc).2
        rw [affinity_of_isNumber (hci ▸ hisNumber)] at hreal
        cases hreal
      · rw [if_neg hnumber, hreal] at hk
        exact Cell.toReal_ne_int _ k hk
  · exact h r hr i hreal k hk

/-! ## Statements keep a database settled -/

/-- A row goes through the affinities of its columns, so the table stays settled. -/
theorem settled_insert {db db' : Database} {s : Sql.Insert} {arguments : List Cell} {n : Int64}
    (h : db.Settled) (hinsert : db.insert s arguments = .ok (n, db')) : db'.Settled := by
  rcases insert_eq_ok.1 hinsert with ⟨t, targets, parents, ht, -, -, -, -, rfl⟩
  exact settled_replace h (Table.settled_add (h.table? ht) n _)

theorem settled_delete {db db' : Database} {s : Sql.Delete} {argument : Cell} {k : Nat}
    (h : db.Settled) (hdelete : db.delete s argument = .ok (k, db')) : db'.Settled := by
  rcases delete_eq_ok hdelete with ⟨t, ht, rfl⟩
  exact settled_replace h
    (Table.settled_of_subset (h.table? ht) fun r hr => (List.mem_filter.1 hr).1)

/-- A new table has no rows to settle. -/
theorem settled_define {db db' : Database} {d : Sql.Definition} (h : db.Settled)
    (hdefine : db.define d = .ok db') : db'.Settled := by
  intro t ht
  rcases define_eq_ok hdefine with heq | ⟨c, -, -, -, heq⟩
  · exact h t (heq ▸ ht)
  · rw [heq, List.mem_append, List.mem_singleton] at ht
    rcases ht with ht | rfl
    · exact h t ht
    · intro r hr
      cases hr

theorem settled_drop {db db' : Database} {d : Sql.DropTable} (h : db.Settled)
    (hdrop : db.drop d = .ok db') : db'.Settled := by
  intro t ht
  rw [drop_eq_ok hdrop] at ht
  exact h t (List.mem_filter.1 ht).1

/-! ## Reachable databases -/

/-- The databases that statements can lead to from an empty one.  Between statements another
connection may be opened, and what is drawn by chance may be anything. -/
inductive Reachable : Database → Prop where
  | empty (checked : Bool) : Reachable { checked }
  | connect {db : Database} (checked : Bool) (builtins : List Builtin) (draws : List Nat) :
      Reachable db → Reachable { db with checked, builtins, draws }
  | define {db db' : Database} {d : Sql.Definition} :
      Reachable db → db.define d = .ok db' → Reachable db'
  | insert {db db' : Database} {s : Sql.Insert} {arguments : List Cell} {n : Int64} :
      Reachable db → db.insert s arguments = .ok (n, db') → Reachable db'
  | delete {db db' : Database} {s : Sql.Delete} {argument : Cell} {k : Nat} :
      Reachable db → db.delete s argument = .ok (k, db') → Reachable db'
  | drop {db db' : Database} {d : Sql.DropTable} :
      Reachable db → db.drop d = .ok db' → Reachable db'

theorem Reachable.settled {db : Database} (h : Reachable db) : db.Settled := by
  induction h with
  | empty checked => exact settled_empty checked
  | connect _ _ _ _ ih => exact ih
  | define _ hdefine ih => exact settled_define ih hdefine
  | insert _ hinsert ih => exact settled_insert ih hinsert
  | delete _ hdelete ih => exact settled_delete ih hdelete
  | drop _ hdrop ih => exact settled_drop ih hdrop

/-- Whether or not a definition succeeds, it leads from a reachable database to one. -/
theorem Reachable.after_define {db : Database} (h : Reachable db) (d : Sql.Definition) :
    Reachable ((Action.define d).after db) := by
  refine Action.change_keeps ?_ h
  intro _ _ hmap
  rcases Outcome.map_eq_ok.1 hmap with ⟨db', hdefine, heq⟩
  cases heq
  exact h.define hdefine

/-- Whether or not an insertion succeeds, it leads from a reachable database to one. -/
theorem Reachable.after_insert {db : Database} (h : Reachable db) (s : Sql.Insert)
    (arguments : List Cell) : Reachable ((Action.insert s arguments).after db) :=
  Action.change_keeps (fun _ _ hinsert => h.insert hinsert) h

end Database
end Espalier
