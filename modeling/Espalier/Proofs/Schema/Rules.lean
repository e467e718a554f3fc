import Espalier.Proofs.Entries
import Espalier.Proofs.Schema.Soundness

/-!
# The rules of a schema

The rules that validation stands for, each said in terms of characters, folded names and positions
and not of the checks.  `Schema.WellFormed` is all of them together, and `Schema.Fault` says what an
error reports: the rule that is broken, by the table and the field that are named, where every table
before the named one obeys the rules of tables.  The main table is looked at before all others, so a
main table that is a list says nothing about the tables before it.
-/

namespace Espalier

/-! ## Names -/

namespace Ascii

def Opening (c : Char) : Prop :=
  ('A' ≤ c ∧ c ≤ 'Z') ∨ ('a' ≤ c ∧ c ≤ 'z') ∨ c = '_'

def Identifier (s : String) : Prop :=
  ∃ c rest, s.toList = c :: rest ∧ Opening c ∧ ∀ d ∈ rest, Opening d ∨ ('0' ≤ d ∧ d ≤ '9')

theorem opensIdentifier_iff {c : Char} : opensIdentifier c = true ↔ Opening c := by
  have hletter : c.isAlpha = (c.isUpper || c.isLower) := rfl
  have hupper : c.isUpper = true ↔ 'A' ≤ c ∧ c ≤ 'Z' := decide_eq_true_iff
  have hlower : c.isLower = true ↔ 'a' ≤ c ∧ c ≤ 'z' :=
    Bool.and_eq_true_iff.trans (and_congr decide_eq_true_iff decide_eq_true_iff)
  simp only [opensIdentifier, Opening, hletter, hupper, hlower, Bool.or_eq_true, beq_iff_eq,
    or_assoc]

theorem continuesIdentifier_iff {c : Char} :
    continuesIdentifier c = true ↔ Opening c ∨ ('0' ≤ c ∧ c ≤ '9') := by
  have hdigit : c.isDigit = true ↔ '0' ≤ c ∧ c ≤ '9' := by
    simp only [Char.isDigit, Bool.and_eq_true, decide_eq_true_eq]
    exact Iff.rfl
  rw [← opensIdentifier_iff, ← hdigit]
  simp only [continuesIdentifier, opensIdentifier, Char.isAlphanum, Bool.or_eq_true]
  tauto

theorem isIdentifier_iff {s : String} : isIdentifier s = true ↔ Identifier s := by
  unfold isIdentifier Identifier
  cases s.toList with
  | nil => simp
  | cons c rest =>
    simp [opensIdentifier_iff, continuesIdentifier_iff]

end Ascii

/-! ## Rules -/

/-- What names of tables may not start with, in any case. -/
def Schema.Reserved (name : String) : Prop :=
  "sqlite_".toList <+: (Ascii.fold name).toList

/-- The rules that a table obeys on its own. -/
structure Table.WellFormed (name : String) (t : Table) : Prop where
  identifier : Ascii.Identifier name
  unreserved : ¬ Schema.Reserved name
  list : t.isList = true → t.valueField ≠ none ∧ t.fields = []
  fields : ∀ f ∈ t.dataFields, Ascii.Identifier f.name
  unsynthetic : ∀ f ∈ t.dataFields, Ascii.fold f.name ≠ "id" ∧ Ascii.fold f.name ≠ "parent_id"
  distinct : (t.dataFields.map fun f => Ascii.fold f.name).Nodup

/-- Tables that obey their rules and whose names are apart, whatever the case. -/
structure Schema.Orderly (us : List (String × Table)) : Prop where
  tables : ∀ u ∈ us, Table.WellFormed u.1 u.2
  distinct : (us.map fun u => Ascii.fold u.1).Nodup

/-- All rules of a schema. -/
structure Schema.WellFormed (s : Schema) : Prop where
  main : ∃ m, (s.mainTable, m) ∈ s.tables ∧ m.isList = false
  orderly : Schema.Orderly s.tables
  apart : ∀ m, (s.mainTable, m) ∈ s.tables → ∀ f ∈ m.fields, ∀ u ∈ s.tables,
    u.1 ≠ s.mainTable → Ascii.fold f.name ≠ Ascii.fold u.1

/-- How a table breaks the rule that an error names, given the tables before it. -/
inductive Table.Fault (before : List (String × Table)) (name : String) (t : Table) :
    SchemaError → Prop where
  | identifier : ¬ Ascii.Identifier name → Fault before name t (.invalidIdentifier name name)
  | reserved : Schema.Reserved name → Fault before name t (.reservedTableName name)
  | duplicate {v : String × Table} : v ∈ before → Ascii.fold v.1 = Ascii.fold name →
      Fault before name t (.duplicateTable name v.1)
  | noValue : t.isList = true → t.valueField = none → Fault before name t (.missingValueField name)
  | listFields : t.isList = true → t.fields ≠ [] →
      Fault before name t (.listTableWithFields name)
  | fieldIdentifier {f : Field} : f ∈ t.dataFields → ¬ Ascii.Identifier f.name →
      Fault before name t (.invalidIdentifier name f.name)
  | fieldReserved {f : Field} : f ∈ t.dataFields →
      Ascii.fold f.name = "id" ∨ Ascii.fold f.name = "parent_id" →
      Fault before name t (.reservedField name f.name)
  | fieldDuplicate {earlier later : List Field} {f g : Field} :
      t.dataFields = earlier ++ f :: later → g ∈ earlier →
      Ascii.fold g.name = Ascii.fold f.name → Fault before name t (.duplicateField name f.name)

/-- What an error says about a schema.  A table is named only if those before it are orderly, and a
collision only if all are. -/
inductive Schema.Fault (s : Schema) : SchemaError → Prop where
  | noMain : (∀ m, (s.mainTable, m) ∉ s.tables) → Fault s (.missingMainTable s.mainTable)
  | mainIsList {m : Table} : (s.mainTable, m) ∈ s.tables → m.isList = true →
      Fault s (.mainTableIsList s.mainTable)
  | table {before later : List (String × Table)} {u : String × Table} {e : SchemaError} :
      s.tables = before ++ u :: later → Schema.Orderly before → Table.Fault before u.1 u.2 e →
      Fault s e
  | collision {m : Table} {f : Field} {u : String × Table} : Schema.Orderly s.tables →
      (s.mainTable, m) ∈ s.tables → f ∈ m.fields → u ∈ s.tables → u.1 ≠ s.mainTable →
      Ascii.fold f.name = Ascii.fold u.1 → Fault s (.nameCollision u.1 s.mainTable)

namespace Schema

theorem isReserved_iff {name : String} : isReserved name = true ↔ Reserved name :=
  List.isPrefixOf_iff_prefix

theorem isSynthetic_iff {name : String} :
    isSynthetic name = true ↔ Ascii.fold name = "id" ∨ Ascii.fold name = "parent_id" := by
  have hid : Ascii.fold idColumn = "id" := by decide
  have hparent : Ascii.fold parentColumn = "parent_id" := by decide
  rw [isSynthetic, Bool.or_eq_true, Ascii.sameName_iff, Ascii.sameName_iff, hid, hparent]

end Schema

/-- The rules of a table are what the checks of a table decide. -/
theorem Table.wellFormed_iff {name : String} {t : Table} :
    Table.WellFormed name t ↔ Table.Sound name t := by
  have hsynthetic : ∀ f : Field, Schema.isSynthetic f.name = false ↔
      Ascii.fold f.name ≠ "id" ∧ Ascii.fold f.name ≠ "parent_id" := by
    intro f
    rw [← Bool.not_eq_true, Schema.isSynthetic_iff, not_or]
  constructor
  · intro h
    refine ⟨Ascii.isIdentifier_iff.2 h.identifier, ?_, ?_, ?_, h.distinct⟩
    · rw [← Bool.not_eq_true, Schema.isReserved_iff]
      exact h.unreserved
    · intro hlist
      exact ⟨Option.isSome_iff_ne_none.2 (h.list hlist).1, (h.list hlist).2⟩
    · intro f hf
      exact ⟨Ascii.isIdentifier_iff.2 (h.fields f hf), (hsynthetic f).2 (h.unsynthetic f hf)⟩
  · intro h
    refine ⟨Ascii.isIdentifier_iff.1 h.identifier, ?_, ?_, ?_, ?_, h.distinct⟩
    · rw [← Schema.isReserved_iff, Bool.not_eq_true]
      exact h.unreserved
    · intro hlist
      exact ⟨Option.isSome_iff_ne_none.1 (h.shape hlist).1, (h.shape hlist).2⟩
    · intro f hf
      exact Ascii.isIdentifier_iff.1 (h.fields f hf).1
    · intro f hf
      exact (hsynthetic f).1 (h.fields f hf).2

namespace Schema

/-- The main table is the one under its name. -/
theorem main?_eq_some {s : Schema} {m : Table} :
    s.main? = some m ↔ (s.mainTable, m) ∈ s.tables :=
  ⟨Entries.mem_of_get?, Entries.get?_of_mem s.distinct⟩

theorem wellFormed_iff {s : Schema} : s.WellFormed ↔ s.Sound := by
  have hsecondary : ∀ u, u ∈ s.secondaryTables ↔ u ∈ s.tables ∧ u.1 ≠ s.mainTable := by
    simp [secondaryTables]
  constructor
  · intro h
    rcases h.main with ⟨m, hm, hlist⟩
    refine ⟨⟨m, main?_eq_some.2 hm, hlist, ?_⟩, ?_, h.orderly.distinct⟩
    · intro f hf u hu
      rcases (hsecondary u).1 hu with ⟨hu, hne⟩
      exact h.apart m hm f hf u hu hne
    · intro u hu
      exact Table.wellFormed_iff.1 (h.orderly.tables u hu)
  · intro h
    rcases h.main with ⟨m, hm, hlist, hapart⟩
    refine ⟨⟨m, main?_eq_some.1 hm, hlist⟩, ⟨?_, h.distinct⟩, ?_⟩
    · intro u hu
      exact Table.wellFormed_iff.2 (h.tables u hu)
    · intro m' hm' f hf u hu hne
      obtain rfl : m' = m := Option.some.inj ((main?_eq_some.2 hm').symm.trans hm)
      exact hapart f hf u ((hsecondary u).2 ⟨hu, hne⟩)

theorem orderly_nil : Orderly [] where
  tables _ hu := by cases hu
  distinct := .nil

/-! ## What errors report -/

/-- An error about a field names one that breaks its rule. -/
theorem fault_of_checkFields {before : List (String × Table)} {name : String} {t : Table}
    {earlier rest : List Field} {e : SchemaError} (hsplit : t.dataFields = earlier ++ rest)
    (h : checkFields name (earlier.map Field.name) rest = .error e) :
    Table.Fault before name t e := by
  -- Induction over the fields that are left; those before them are the names seen.
  induction rest generalizing earlier with
  | nil => cases h
  | cons f rest ih =>
    have hf : f ∈ t.dataFields := by
      rw [hsplit]
      exact List.mem_append_right _ List.mem_cons_self
    rw [checkFields] at h
    split at h
    · rename_i hidentifier
      cases h
      refine .fieldIdentifier hf ?_
      rw [← Ascii.isIdentifier_iff]
      simpa using hidentifier
    · split at h
      · rename_i hsynthetic
        cases h
        exact .fieldReserved hf (isSynthetic_iff.1 hsynthetic)
      · split at h
        · rename_i hseen
          cases h
          rcases List.any_eq_true.1 hseen with ⟨n, hn, hsame⟩
          rcases List.mem_map.1 hn with ⟨g, hg, rfl⟩
          exact .fieldDuplicate hsplit hg (Ascii.sameName_iff.1 hsame).symm
        · have hnext : t.dataFields = (earlier ++ [f]) ++ rest := by rw [hsplit, List.append_cons]
          refine ih hnext ?_
          rw [List.map_append]
          exact h

/-- An error about the shape of a table names a rule that the shape breaks. -/
theorem fault_of_checkShape {before : List (String × Table)} {name : String} {t : Table}
    {e : SchemaError} (h : checkShape name t = .error e) : Table.Fault before name t e := by
  unfold checkShape at h
  split at h
  · rename_i hnone
    cases h
    rw [Bool.and_eq_true, Option.isNone_iff_eq_none] at hnone
    exact .noValue hnone.1 hnone.2
  · split at h
    · rename_i hfields
      cases h
      rw [Bool.and_eq_true] at hfields
      exact .listFields hfields.1 (by simpa using hfields.2)
    · cases h

/-- A check of a table that fails reports a fault of the table. -/
theorem fault_of_checkTable {before : List (String × Table)} {u : String × Table} {e : SchemaError}
    (h : checkTables (before.map Prod.fst) [u] = .error e) : Table.Fault before u.1 u.2 e := by
  rcases u with ⟨name, t⟩
  -- The checks come in the order of the cases, and each is reached only past the ones before it.
  rw [checkTables] at h
  split at h
  · rename_i hidentifier
    cases h
    refine .identifier ?_
    rw [← Ascii.isIdentifier_iff]
    simpa using hidentifier
  · split at h
    · rename_i hreserved
      cases h
      exact .reserved (isReserved_iff.1 hreserved)
    · split at h
      · rename_i existing hfound
        cases h
        rcases List.mem_map.1 (List.mem_of_find?_eq_some hfound) with ⟨v, hv, rfl⟩
        have hsame := List.find?_some hfound
        exact .duplicate hv (Ascii.sameName_iff.1 hsame).symm
      · cases hshape : checkShape name t with
        | error e' =>
          rw [hshape] at h
          cases h
          exact fault_of_checkShape hshape
        | ok _ =>
          cases hfields : checkFields name [] t.dataFields with
          | error e' =>
            rw [hshape, hfields] at h
            cases h
            have hnone : t.dataFields = [] ++ t.dataFields := rfl
            exact fault_of_checkFields hnone hfields
          | ok _ =>
            rw [hshape, hfields] at h
            cases h

/-- The first table is checked on its own, and then the others, with its name seen. -/
theorem checkTables_cons (seen : List String) (u : String × Table) (rest : List (String × Table)) :
    checkTables seen (u :: rest) =
      (checkTables seen [u] >>= fun _ => checkTables (seen ++ [u.1]) rest) := by
  rcases u with ⟨name, t⟩
  rw [checkTables, checkTables]
  split
  · rfl
  · split
    · rfl
    · split
      · rfl
      · cases checkShape name t with
        | error e => rfl
        | ok _ => cases checkFields name [] t.dataFields <;> rfl

/-- An error of the tables is a fault of one of them, and those before it are in order. -/
theorem exists_fault_of_checkTables {before rest : List (String × Table)} {e : SchemaError}
    (hbefore : Orderly before) (h : checkTables (before.map Prod.fst) rest = .error e) :
    ∃ passed u later, rest = passed ++ u :: later ∧ Orderly (before ++ passed) ∧
      Table.Fault (before ++ passed) u.1 u.2 e := by
  -- Induction over the tables that are left: one that passes joins those before.
  induction rest generalizing before with
  | nil => cases h
  | cons u rest ih =>
    rw [checkTables_cons] at h
    cases hfirst : checkTables (before.map Prod.fst) [u] with
    | error e' =>
      rw [hfirst] at h
      cases h
      refine ⟨[], u, rest, rfl, ?_, ?_⟩
      · rwa [List.append_nil]
      · rw [List.append_nil]
        exact fault_of_checkTable hfirst
    | ok _ =>
      rw [hfirst] at h
      rcases checkTables_cons_eq_ok.1 hfirst with ⟨hsound, hnew, -⟩
      have hnext : Orderly (before ++ [u]) := by
        refine ⟨?_, ?_⟩
        · intro v hv
          rcases List.mem_append.1 hv with hv | hv
          · exact hbefore.tables v hv
          · rw [List.mem_singleton.1 hv]
            exact Table.wellFormed_iff.2 hsound
        · rw [List.map_append, List.nodup_append]
          refine ⟨hbefore.distinct, by simp, ?_⟩
          intro a ha b hb
          rcases List.mem_map.1 ha with ⟨v, hv, rfl⟩
          rw [List.mem_singleton.1 hb]
          exact (hnew v.1 (List.mem_map_of_mem hv)).symm
      have hlater : checkTables ((before ++ [u]).map Prod.fst) rest = .error e := by
        rw [List.map_append]
        exact h
      rcases ih hnext hlater with ⟨passed, v, later, rfl, horderly, hfault⟩
      rw [List.append_assoc] at horderly hfault
      exact ⟨u :: passed, v, later, rfl, horderly, hfault⟩

/-- A collision is one of a main field with a table. -/
theorem exists_of_checkCollisions {mainTable : String} {fields : List Field}
    {us : List (String × Table)} {e : SchemaError}
    (h : checkCollisions mainTable fields us = .error e) :
    ∃ f ∈ fields, ∃ u ∈ us, Ascii.fold f.name = Ascii.fold u.1 ∧
      e = .nameCollision u.1 mainTable := by
  induction us with
  | nil => cases h
  | cons u us ih =>
    rcases u with ⟨name, t⟩
    rw [checkCollisions] at h
    split at h
    · rename_i hany
      cases h
      rcases List.any_eq_true.1 hany with ⟨f, hf, hsame⟩
      exact ⟨f, hf, (name, t), List.mem_cons_self, Ascii.sameName_iff.1 hsame, rfl⟩
    · rcases ih h with ⟨f, hf, u, hu, hfold, he⟩
      exact ⟨f, hf, u, List.mem_cons_of_mem _ hu, hfold, he⟩

/-- With a main table there, validation looks at its kind, at all tables, and at collisions. -/
theorem validate_of_main {s : Schema} {m : Table} (hm : s.main? = some m) :
    s.validate = if m.isList then .error (.mainTableIsList s.mainTable)
      else (checkTables [] s.tables >>= fun _ =>
        checkCollisions s.mainTable m.fields s.secondaryTables) := by
  unfold validate Schema.main
  rw [hm]
  cases hlist : m.isList with
  | false => simp [hlist, bind, Except.bind]
  | true => simp [hlist, bind, Except.bind, throw, throwThe, MonadExceptOf.throw]

/-- Without a main table nothing else is looked at. -/
theorem validate_of_no_main {s : Schema} (hm : s.main? = none) :
    s.validate = .error (.missingMainTable s.mainTable) := by
  unfold validate Schema.main
  rw [hm]
  rfl

/-- An error of validation is a fault of the schema. -/
theorem fault_of_validate {s : Schema} {e : SchemaError} (h : s.validate = .error e) :
    s.Fault e := by
  cases hm : s.main? with
  | none =>
    rw [validate_of_no_main hm] at h
    cases h
    refine .noMain fun m hmem => ?_
    rw [main?_eq_some.2 hmem] at hm
    cases hm
  | some m =>
    rw [validate_of_main hm] at h
    have hmem := main?_eq_some.1 hm
    by_cases hlist : m.isList = true
    · rw [if_pos hlist] at h
      cases h
      exact .mainIsList hmem hlist
    · rw [if_neg hlist] at h
      -- Tables are checked before collisions, so what collides is known to be sound.
      cases htables : checkTables [] s.tables with
      | error e' =>
        rw [htables] at h
        cases h
        obtain ⟨passed, u, later, hsplit, horderly, hfault⟩ :=
          exists_fault_of_checkTables orderly_nil htables
        exact .table hsplit horderly hfault
      | ok _ =>
        rw [htables] at h
        rcases checkTables_eq_ok.1 htables with ⟨htables, hdistinct, -⟩
        rcases exists_of_checkCollisions h with ⟨f, hf, u, hu, hfold, rfl⟩
        rcases List.mem_filter.1 hu with ⟨hu, hne⟩
        refine .collision ⟨fun v hv => Table.wellFormed_iff.2 (htables v hv), hdistinct⟩ hmem hf hu
          ?_ hfold
        simpa using hne

/--
Validation accepts exactly the schemas that obey every rule, and an error names a table and a field
that break the rule of the error; if the error is about one table or about a collision, the tables
before the named one, or all of them, are in order.
-/
theorem validate_outcome (s : Schema) :
    (s.validate = .ok () ↔ s.WellFormed) ∧ ∀ e, s.validate = .error e → s.Fault e := by
  refine ⟨?_, fun e => fault_of_validate⟩
  rw [validate_eq_ok, wellFormed_iff]

/-- Plants with two lists whose names differ in case only. -/
def repeated : Schema :=
  .ofTables "plant"
    [("plant", { fields := [⟨"name", .string⟩] }),
      ("tags", { isList := true, valueField := some ⟨"label", .string⟩ }),
      ("TAGS", { isList := true, valueField := some ⟨"label", .string⟩ })]

/-- The second list is named together with the first, and the tables before it are in order. -/
theorem validate_outcome_repeated :
    repeated.validate = .error (.duplicateTable "TAGS" "tags") ∧
      repeated.Fault (.duplicateTable "TAGS" "tags") := by
  have herror : repeated.validate = .error (.duplicateTable "TAGS" "tags") := by decide
  exact ⟨herror, (validate_outcome repeated).2 _ herror⟩

/-- A list as the main table, after a table whose name starts with a digit. -/
def misplaced : Schema :=
  .ofTables "plant"
    [("1bad", {}), ("plant", { isList := true, valueField := some ⟨"name", .string⟩ })]

/-- The main table is named although the table before it is not in order. -/
theorem validate_misplaced :
    misplaced.validate = .error (.mainTableIsList "plant") ∧
      ∃ before u later, misplaced.tables = before ++ u :: later ∧ u.1 = "plant" ∧
        ∃ v ∈ before, ¬ Table.WellFormed v.1 v.2 := by
  refine ⟨by decide, [("1bad", {})], _, [], rfl, rfl, _, List.mem_singleton_self _, ?_⟩
  rw [Table.wellFormed_iff]
  intro hsound
  have hidentifier := hsound.identifier
  revert hidentifier
  decide

end Schema
end Espalier
