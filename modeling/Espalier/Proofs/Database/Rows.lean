import Espalier.Database.Action
import Espalier.Proofs.Database.Lookup
import Espalier.Proofs.Sequencing

/-!
# What statements do to rows

The effect of an insertion and of a deletion on the database, with the conditions under which they
succeed.  Later proofs cite these and open no statement again.
-/

namespace Espalier
namespace Database

/-! ## Statements, taken apart -/

/-- An insertion puts one row into its table. -/
theorem insert_eq_ok {db db' : Database} {s : Sql.Insert} {arguments : List Cell} {n : Int64} :
    db.insert s arguments = .ok (n, db') ↔
      ∃ t targets parents, db.table? s.table = some t ∧ s.columns.mapM t.target = .ok targets ∧
        db.parents t = .ok parents ∧
        t.numberFor db.draw (Table.argument (targets.zip arguments) .number) = .ok n ∧
        checkRow t parents ⟨n, t.cellsOf n (targets.zip arguments)⟩ = .ok () ∧
        db' = db.replace (t.add ⟨n, t.cellsOf n (targets.zip arguments)⟩) := by
  unfold insert
  simp only [Outcome.bind_eq_ok, table_eq_ok]
  constructor
  · rintro ⟨t, ht, targets, htargets, parents, hparents, number, hnumber, _, hcheck, hdb⟩
    cases hdb
    exact ⟨t, targets, parents, ht, htargets, hparents, hnumber, hcheck, rfl⟩
  · rintro ⟨t, targets, parents, ht, htargets, hparents, hnumber, hcheck, rfl⟩
    exact ⟨t, ht, targets, htargets, parents, hparents, n, hnumber, (), hcheck, rfl⟩

/-- A row passes if no value is missing, its key is new, and what it refers to is there. -/
theorem checkRow_eq_ok {t : Table} {parents : List (Nat × Table × ReferenceKey)} {r : Row} :
    checkRow t parents r = .ok () ↔ t.isComplete r = true ∧ t.repeated? r = none ∧
      ∀ x ∈ parents, r.cell x.1 = .null ∨ x.2.1.hasReferenced x.2.2 (r.cell x.1) = true := by
  unfold checkRow
  cases t.isComplete r with
  | false => simp
  | true =>
    cases t.repeated? r with
    | some f => simp
    | none => simp [or_iff_not_imp_left]

/-- A row that repeats no key has a number of its own. -/
theorem Table.hasNumber_of_repeated? {t : Table} {r : Row} (h : t.repeated? r = none) :
    t.hasNumber r.number = false := by
  unfold Table.repeated? at h
  cases hnumber : t.hasNumber r.number with
  | false => rfl
  | true =>
    rw [hnumber, if_pos rfl] at h
    cases h

/-- A deletion leaves the rows whose key is another. -/
theorem delete_eq_ok {db db' : Database} {s : Sql.Delete} {argument : Cell} {k : Nat}
    (h : db.delete s argument = .ok (k, db')) :
    ∃ t, db.table? s.table = some t ∧
      db' = db.replace { t with rows := t.rows.filter fun r => !t.holds s.key argument r } := by
  unfold delete at h
  rcases Outcome.bind_eq_ok.1 h with ⟨t, ht, h⟩
  rcases Outcome.bind_eq_ok.1 h with ⟨_, -, h⟩
  refine ⟨t, table_eq_ok.1 ht, ?_⟩
  split at h
  · -- Others refer to the table, so it needs a key and no row that goes may be referred to.
    dsimp only at h
    cases hk : t.referenceKey? with
    | none =>
      rw [hk] at h
      cases h
    | some key =>
      rw [hk] at h
      dsimp only at h
      split at h
      · cases h
      · cases h
        rfl
  · cases h
    rfl

/-- A new table is appended; a table of that name stays as it is if the statement allows for it. -/
theorem createTable_eq_ok {db db' : Database} {d : Sql.CreateTable} :
    db.createTable d = .ok db' ↔ d.columns ≠ [] ∧ isInternal d.table = false ∧
      (((db.table? d.table).isSome = true ∧ d.ifAbsent = true ∧ db' = db) ∨
        (db.table? d.table = none ∧ db.hasIndex d.table = false ∧ areColumns d.columns = true ∧
          db' = { db with tables := db.tables ++ [Table.empty d] })) := by
  have hempty : d.columns.isEmpty = true ↔ d.columns = [] := List.isEmpty_iff
  rw [createTable]
  -- Whether the definition is in order at all is seen first, then what already has its name.
  by_cases hbad : (d.columns.isEmpty || isInternal d.table) = true
  · rw [if_pos hbad]
    constructor
    · intro h
      cases h
    · rintro ⟨hcolumns, hname, -⟩
      rw [Bool.or_eq_true, hempty, hname] at hbad
      rcases hbad with h | h
      · exact absurd h hcolumns
      · cases h
  · rw [if_neg hbad]
    rw [Bool.or_eq_true, not_or, hempty, Bool.not_eq_true] at hbad
    have hcomm : ∀ db₁ db₂ : Database, (Except.ok db₁ : Except Failure Database) = .ok db₂ ↔
        db₂ = db₁ := fun db₁ db₂ => Except.ok.injEq db₁ db₂ ▸ eq_comm
    cases db.table? d.table with
    | some t => cases d.ifAbsent <;> simp [hbad, hcomm]
    | none => cases db.hasIndex d.table <;> cases areColumns d.columns <;> simp [hbad, hcomm]

/-- Creating a table fails in one way only. -/
theorem createTable_eq_error {db : Database} {d : Sql.CreateTable} {f : Failure}
    (h : db.createTable d = .error f) : f = .statement := by
  unfold createTable at h
  repeat' split at h
  all_goals cases h
  all_goals rfl

/-- The steps of a new index: its table, its name, and whether there is one already. -/
theorem createIndex_eq (db : Database) (d : Sql.CreateIndex) :
    db.createIndex d =
      match db.table? d.table with
      | none => .error .statement
      | some t =>
        if isInternal d.index || (db.table? d.index).isSome then .error .statement
        else if db.hasIndex d.index then .ok db
        else .ok { db with indexes := db.indexes ++ [⟨d.index, t.name⟩] } := by
  unfold createIndex Database.table
  cases db.table? d.table with
  | none => rfl
  | some t =>
    cases isInternal d.index || (db.table? d.index).isSome with
    | true => rfl
    | false => cases db.hasIndex d.index <;> rfl

/-- A new index is appended, unless one of its name is there. -/
theorem createIndex_eq_ok {db db' : Database} {d : Sql.CreateIndex} :
    db.createIndex d = .ok db' ↔ ∃ t, db.table? d.table = some t ∧ isInternal d.index = false ∧
      db.table? d.index = none ∧ db' = if db.hasIndex d.index then db
        else { db with indexes := db.indexes ++ [⟨d.index, t.name⟩] } := by
  rw [createIndex_eq]
  cases db.table? d.table with
  | none => simp
  | some t =>
    cases isInternal d.index with
    | true => simp
    | false =>
      cases db.table? d.index with
      | some u => simp
      | none => cases db.hasIndex d.index <;> simp [eq_comm]

/-- A definition changes no table that is there. -/
theorem define_eq_ok {db db' : Database} {d : Sql.Definition} (h : db.define d = .ok db') :
    db'.tables = db.tables ∨ ∃ c : Sql.CreateTable, db.table? c.table = none ∧ c.columns ≠ [] ∧
      areColumns c.columns = true ∧ db'.tables = db.tables ++ [Table.empty c] := by
  cases d with
  | table c =>
    rcases createTable_eq_ok.1 h with ⟨hinhabited, -, ⟨-, -, rfl⟩ | ⟨hnone, -, hcolumns, rfl⟩⟩
    · exact .inl rfl
    · exact .inr ⟨c, hnone, hinhabited, hcolumns, rfl⟩
  | index c =>
    rcases createIndex_eq_ok.1 h with ⟨t, -, -, -, rfl⟩
    split
    · exact .inl rfl
    · exact .inl rfl

/-- Dropping removes the tables of a name. -/
theorem drop_eq_ok {db db' : Database} {d : Sql.DropTable} (h : db.drop d = .ok db') :
    db'.tables = db.tables.filter fun u => !Ascii.sameName u.name d.table := by
  unfold drop at h
  rcases Outcome.bind_eq_ok.1 h with ⟨t, -, h⟩
  dsimp only at h
  cases hk : t.referenceKey? with
  | none =>
    rw [hk] at h
    cases h
    rfl
  | some key =>
    rw [hk] at h
    dsimp only at h
    split at h
    · cases h
    · cases h
      rfl

/-! ## Conditions -/

theorem Cell.equals_int {m n : Int64} : (Cell.int m).equals (.int n) = true ↔ m = n := by
  have hequals : (Cell.int m).equals (.int n) = (compare m.toInt n.toInt == .eq) := rfl
  rw [hequals, beq_iff_eq, Std.compare_eq_iff_eq, Int64.toInt_inj]

/-! ## New rows -/

/-- The value that a new row gets in a column. -/
theorem cell_cellsOf (t : Table) (n : Int64) (assigned : List (Target × Cell)) (i : Nat) :
    (Row.mk n (t.cellsOf n assigned)).cell i =
      match t.columns[i]? with
      | none => .null
      | some c =>
        if t.numberColumn? = some i then .int n
        else (Affinity.ofDeclared c.declared).apply (Table.argument assigned (.column i)) := by
  rw [Row.cell, Table.cellsOf, List.getD_eq_getElem?_getD, List.getElem?_map,
    List.getElem?_zipIdx, Nat.zero_add]
  cases t.columns[i]? <;> rfl

theorem mem_place {r s : Row} {rows : List Row} : s ∈ Table.place r rows ↔ s = r ∨ s ∈ rows := by
  rw [Table.place, List.mem_append, List.mem_cons]
  -- The new row stands between those with smaller numbers and the others.
  have hsplit : s ∈ rows ↔ s ∈ rows.takeWhile (fun u => u.number < r.number) ∨
      s ∈ rows.dropWhile (fun u => u.number < r.number) := by
    rw [← List.mem_append, List.takeWhile_append_dropWhile]
  rw [hsplit]
  exact or_left_comm

end Database
end Espalier
