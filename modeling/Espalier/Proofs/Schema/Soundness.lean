import Espalier.Proofs.Sequencing
import Espalier.Schema.Validation

/-!
# Sound schemas, declaratively

What validation promises about a schema, said without the order in which it looks: each table obeys
its own rules, and names that may not meet are apart once letter case is folded.  `validate_eq_ok`
says that a schema passes exactly when it is sound.
-/

namespace Espalier

/-! ## Soundness -/

/-- The rules that a table obeys on its own. -/
structure Table.Sound (name : String) (t : Table) : Prop where
  identifier : Ascii.isIdentifier name = true
  unreserved : Schema.isReserved name = false
  shape : t.isList = true → t.valueField.isSome = true ∧ t.fields = []
  fields : ∀ f ∈ t.dataFields, Ascii.isIdentifier f.name = true ∧ Schema.isSynthetic f.name = false
  distinct : (t.dataFields.map fun f => Ascii.fold f.name).Nodup

namespace Schema

/-- The rules of a schema as a whole. -/
structure Sound (s : Schema) : Prop where
  main : ∃ m, s.main? = some m ∧ m.isList = false ∧
    ∀ f ∈ m.fields, ∀ u ∈ s.secondaryTables, Ascii.fold f.name ≠ Ascii.fold u.1
  tables : ∀ u ∈ s.tables, Table.Sound u.1 u.2
  distinct : (s.tables.map fun u => Ascii.fold u.1).Nodup

/-! ## The checks -/

/-- Fields pass if each is well named and no two names are alike. -/
theorem checkFields_eq_ok {table : String} {seen : List String} {fields : List Field} :
    checkFields table seen fields = .ok () ↔
      (∀ f ∈ fields, Ascii.isIdentifier f.name = true ∧ isSynthetic f.name = false) ∧
      (fields.map fun f => Ascii.fold f.name).Nodup ∧
      ∀ f ∈ fields, ∀ n ∈ seen, Ascii.fold f.name ≠ Ascii.fold n := by
  induction fields generalizing seen with
  | nil => simp [checkFields]
  | cons f rest ih =>
    rw [checkFields]
    by_cases hi : Ascii.isIdentifier f.name = true
    · by_cases hs : isSynthetic f.name = true
      · simp [hi, hs]
      · by_cases hd : seen.any (Ascii.sameName f.name) = true
        · -- The name has come before, so both sides fail.
          rcases List.any_eq_true.1 hd with ⟨n, hn, hsame⟩
          have hfold : Ascii.fold f.name = Ascii.fold n := Ascii.sameName_iff.1 hsame
          have hapart : ¬ ∀ n ∈ seen, Ascii.fold f.name ≠ Ascii.fold n :=
            fun h => h n hn hfold
          simp [hi, hs, hd, hapart]
        · have hnew : ∀ n ∈ seen, Ascii.fold f.name ≠ Ascii.fold n := by
            intro n hn hfold
            exact hd (List.any_eq_true.2 ⟨n, hn, Ascii.sameName_iff.2 hfold⟩)
          have hs' : isSynthetic f.name = false := by simpa using hs
          simp only [hi, hs', hd, Bool.not_true, Bool.false_eq_true, if_false, ih,
            List.mem_cons, List.map_cons, List.nodup_cons, List.mem_append, List.mem_map,
            List.not_mem_nil, or_false, forall_eq_or_imp, true_and]
          grind
    · simp [hi]

/-- A shape passes if a list has a value field and nothing else. -/
theorem checkShape_eq_ok {name : String} {t : Table} :
    checkShape name t = .ok () ↔
      (t.isList = true → t.valueField.isSome = true ∧ t.fields = []) := by
  unfold checkShape
  cases hl : t.isList with
  | false => simp
  | true => cases hv : t.valueField <;> cases hf : t.fields <;> simp

/-- What the check of the first table asks. -/
theorem checkTables_cons_eq_ok {seen : List String} {u : String × Table}
    {rest : List (String × Table)} :
    checkTables seen (u :: rest) = .ok () ↔
      Table.Sound u.1 u.2 ∧ (∀ n ∈ seen, Ascii.fold u.1 ≠ Ascii.fold n) ∧
        checkTables (seen ++ [u.1]) rest = .ok () := by
  rcases u with ⟨name, t⟩
  have hsound : Table.Sound name t ↔
      Ascii.isIdentifier name = true ∧ isReserved name = false ∧
        checkShape name t = .ok () ∧ checkFields name [] t.dataFields = .ok () := by
    rw [checkShape_eq_ok, checkFields_eq_ok]
    constructor
    · intro h
      exact ⟨h.identifier, h.unreserved, h.shape, h.fields, h.distinct, by simp⟩
    · rintro ⟨hi, hr, hs, hf, hd, -⟩
      exact ⟨hi, hr, hs, hf, hd⟩
  have hfind : seen.find? (Ascii.sameName name) = none ↔
      ∀ n ∈ seen, Ascii.fold name ≠ Ascii.fold n := by
    simp [List.find?_eq_none, Ascii.sameName_iff]
  rw [checkTables, hsound, ← hfind]
  -- The checks of a name are made before those of what the table holds.
  by_cases hi : Ascii.isIdentifier name = true
  · by_cases hr : isReserved name = true
    · simp [hi, hr]
    · cases hf : seen.find? (Ascii.sameName name) with
      | some n => simp [hi, hr]
      | none => simp [hi, hr, Outcome.unit_bind_eq_ok, and_assoc]
  · simp [hi]

/-- Tables pass if each is sound and no two names are alike. -/
theorem checkTables_eq_ok {seen : List String} {tables : List (String × Table)} :
    checkTables seen tables = .ok () ↔
      (∀ u ∈ tables, Table.Sound u.1 u.2) ∧ (tables.map fun u => Ascii.fold u.1).Nodup ∧
      ∀ u ∈ tables, ∀ n ∈ seen, Ascii.fold u.1 ≠ Ascii.fold n := by
  -- The names seen so far grow by one with each table.
  induction tables generalizing seen with
  | nil => simp [checkTables]
  | cons u rest ih =>
    rw [checkTables_cons_eq_ok, ih]
    simp only [List.mem_cons, List.map_cons, List.nodup_cons, List.mem_append, List.mem_map,
      List.not_mem_nil, or_false, forall_eq_or_imp]
    grind

/-- Collisions are found between all main fields and all secondary tables. -/
theorem checkCollisions_eq_ok {mainTable : String} {fields : List Field}
    {tables : List (String × Table)} :
    checkCollisions mainTable fields tables = .ok () ↔
      ∀ f ∈ fields, ∀ u ∈ tables, Ascii.fold f.name ≠ Ascii.fold u.1 := by
  induction tables with
  | nil => simp [checkCollisions]
  | cons u rest ih =>
    rcases u with ⟨name, t⟩
    rw [checkCollisions]
    by_cases h : fields.any (fun f => Ascii.sameName f.name name) = true
    · rcases List.any_eq_true.1 h with ⟨f, hf, hsame⟩
      have hfold : Ascii.fold f.name = Ascii.fold name := Ascii.sameName_iff.1 hsame
      rw [if_pos h]
      constructor
      · intro herror
        cases herror
      · intro hall
        exact absurd hfold (hall f hf (name, t) List.mem_cons_self)
    · have hnew : ∀ f ∈ fields, Ascii.fold f.name ≠ Ascii.fold name := by
        intro f hf hfold
        exact h (List.any_eq_true.2 ⟨f, hf, Ascii.sameName_iff.2 hfold⟩)
      rw [if_neg h, ih]
      constructor
      · intro hrest f hf v hv
        rcases List.mem_cons.1 hv with rfl | hv
        · exact hnew f hf
        · exact hrest f hf v hv
      · intro hall f hf v hv
        exact hall f hf v (List.mem_cons_of_mem _ hv)

/-! ## Validation -/

/-- A schema passes validation exactly when it is sound. -/
theorem validate_eq_ok {s : Schema} : s.validate = .ok () ↔ s.Sound := by
  unfold validate
  rw [Outcome.bind_eq_ok]
  constructor
  · rintro ⟨m, hm, h⟩
    have hmain : s.main? = some m := by
      unfold Schema.main at hm
      cases hs : s.main? with
      | none => simp [hs] at hm
      | some m' => simpa [hs] using hm
    -- A list is refused as the main table before the tables are looked at.
    by_cases hl : m.isList = true
    · rw [if_pos hl] at h
      cases (Outcome.unit_bind_eq_ok.1 h).1
    · rw [if_neg hl] at h
      rcases Outcome.unit_bind_eq_ok.1 h with ⟨htables, hcollisions⟩
      rcases checkTables_eq_ok.1 htables with ⟨htables, hdistinct, -⟩
      exact ⟨⟨m, hmain, by simpa using hl, checkCollisions_eq_ok.1 hcollisions⟩, htables, hdistinct⟩
  · rintro ⟨⟨m, hmain, hl, hcollisions⟩, htables, hdistinct⟩
    refine ⟨m, by simp [Schema.main, hmain], ?_⟩
    rw [if_neg (by simp [hl])]
    exact Outcome.unit_bind_eq_ok.2
      ⟨checkTables_eq_ok.2 ⟨htables, hdistinct, by simp⟩, checkCollisions_eq_ok.2 hcollisions⟩

end Schema
end Espalier
