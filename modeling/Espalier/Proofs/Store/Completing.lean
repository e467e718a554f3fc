import Espalier.Proofs.Database.Formation
import Espalier.Proofs.Store.Provisioning

/-!
# Provisioning and verifying any database

A database may already hold tables and indexes when a store is provisioned in it, made by whoever
and filled with whatever.  `provision_completes` says what becomes of it: a provision that fails
leaves no trace, and one that succeeds puts the missing tables and indexes behind what is there and
touches nothing else, so that a second one finds nothing to do.  `verify_decides` says what
verifying finds out: whether all tables fit, or else what is wrong with the first that does not;
and since provisioning adds what fits and leaves the rest, it helps only tables that were missing.
Of a database with a table that hides the function for columns it finds out nothing.
-/

namespace Espalier

open Database (Action Reachable)

namespace Schema

/-- A table that is created has the columns of its layout and no row. -/
theorem created_eq (s : Schema) (u : String × Table) :
    s.created u = ⟨u.1, (s.layout u.1 u.2).map Column.spec, [], 0⟩ := by
  rw [← created_columns]
  rfl

instance (s : Schema) (us : List (String × Table)) (db : Database) : Decidable (s.Vacant us db) :=
  decidable_of_iff
    ((∀ u ∈ us, db.table? u.1 = none → db.hasIndex u.1 = false) ∧
      (∀ u ∈ us, u.1 ≠ s.mainTable →
        Database.isInternal (parentIndex u.1) = false ∧ db.table? (parentIndex u.1) = none) ∧
      ∀ u ∈ us, u.1 ≠ s.mainTable → ∀ v ∈ us, Ascii.fold v.1 ≠ Ascii.fold (parentIndex u.1))
    ⟨fun h => ⟨h.1, h.2.1, h.2.2⟩, fun h => ⟨h.tables, h.indexes, h.apart⟩⟩

/-- The indexes that a schema keeps are those of its secondary tables. -/
theorem completed_indexes (s : Schema) (db : Database) :
    (s.completed s.tables db).indexes =
      db.indexes ++ (unindexed s.secondaryTables db).map (indexOver db) :=
  rfl

/-- A table that was there fits as it did, and one that was missing fits now. -/
theorem fits_completed {s : Schema} (hsound : s.Sound) {db : Database} (h : db.Named)
    (h' : (s.completed s.tables db).Named) {u : String × Table} (hu : u ∈ s.tables) :
    s.Fits (s.completed s.tables db) u ↔
      ((∃ t ∈ db.tables, Ascii.sameName t.name u.1 = true) → s.Fits db u) := by
  cases htable : db.table? u.1 with
  | some t =>
    have hthere : ∃ t ∈ db.tables, Ascii.sameName t.name u.1 = true :=
      ⟨t, h.table?_eq_some.1 htable⟩
    rw [fits_iff h' (table?_completed_of_some htable), ← fits_iff h htable]
    exact ⟨fun hfits _ => hfits, fun hfits => hfits hthere⟩
  | none =>
    have hfound : ((s.completed s.tables db).table? u.1).isSome = true :=
      isSome_table?_completed hu
    rcases Option.isSome_iff_exists.1 hfound with ⟨t, ht⟩
    rcases exists_of_table?_completed htable ht with ⟨v, hv, hname, rfl⟩
    rcases eq_of_sameName hsound hv hu hname with rfl
    refine iff_of_true (s.fits_created (h'.table?_eq_some.1 ht).1) ?_
    rintro ⟨t, ht, hname⟩
    exact absurd (Ascii.sameName_iff.1 hname) (Database.table?_eq_none.1 htable t ht)

/-- The function for columns is hidden by a table that was there or by one of the schema. -/
theorem shadowed_completed {s : Schema} {db : Database} :
    (s.completed s.tables db).Shadowed ↔ db.Shadowed ∨ s.Shadows := by
  rw [← not_iff_not, not_or, Database.not_shadowed_iff, table?_completed_eq_none,
    Database.not_shadowed_iff]
  refine and_congr_right fun _ => ?_
  simp only [Shadows, not_exists, not_and, Ascii.sameName_iff]

end Schema

namespace Store

/-- A provision is a run of definitions, and keeps what each of them keeps. -/
theorem provision_keeps (s : Store) {p : Database → Prop}
    (hp : ∀ d db db', Database.define db d = .ok db' → p db → p db') {db : Database} (h : p db) :
    p (s.provision.after db) := by
  have hdefine : ∀ d db, p db → p ((Action.define d).run db).2 := by
    intro d db h
    refine Action.change_keeps ?_ h
    intro _ db' hmap
    rcases Outcome.map_eq_ok.1 hmap with ⟨db'', hdb, heq⟩
    cases heq
    exact hp d db _ hdb h
  have hplan : p (s.plan.provision.run db).2 := by
    rw [plan_provision]
    refine Action.run_forM_keeps ?_ h
    intro u _ db₁ h₁
    refine Action.run_forM_keeps ?_ h₁
    intro d _ db₂ h₂
    rw [Action.run_reporting]
    exact hdefine d db₂ h₂
  rw [provision, Action.after_eq, Action.run_transaction]
  rcases hrun : s.plan.provision.run db with ⟨e | _, db'⟩
  · exact h
  · rw [hrun] at hplan
    exact hplan

/-- Provisioning leaves a formed database formed. -/
theorem formed_provision (s : Store) {db : Database} (h : db.Formed) :
    (s.provision.after db).Formed :=
  s.provision_keeps (fun _ _ _ hdefine h => h.define hdefine) h

/-- Provisioning leaves names distinct. -/
theorem named_provision (s : Store) {db : Database} (h : db.Named) :
    (s.provision.after db).Named :=
  s.provision_keeps (fun _ _ _ hdefine h => h.define hdefine) h

/-- What provisioning leads to can be reached. -/
theorem reachable_provision (s : Store) {db : Database} (h : Reachable db) :
    Reachable (s.provision.after db) :=
  s.provision_keeps (fun _ _ _ hdefine h => h.define hdefine) h

/--
Provisioning fails without a trace or completes the database.  It succeeds exactly when the names
that it needs are free.  Then every table of the schema is there, all tables and indexes that were
there are as they were, the missing tables have been added with their columns and without rows, the
missing indexes have been added, and a second provision succeeds and changes nothing.
-/
theorem provision_completes (s : Store) (db : Database) :
    (∀ f, s.provision.result db = .error f → s.provision.after db = db) ∧
    (s.provision.result db = .ok () ↔ s.schema.Vacant s.schema.tables db) ∧
    (s.provision.result db = .ok () →
      (∀ u ∈ s.schema.tables, ((s.provision.after db).table? u.1).isSome = true) ∧
      (s.provision.after db).tables = db.tables ++
        (Schema.absent s.schema.tables db).map
          (fun u => ⟨u.1, (s.schema.layout u.1 u.2).map Column.spec, [], 0⟩) ∧
      (s.provision.after db).indexes = db.indexes ++
        (Schema.unindexed s.schema.secondaryTables db).map (Schema.indexOver db) ∧
      (s.provision.after db).checked = db.checked ∧
      s.provision.run (s.provision.after db) = (.ok (), s.provision.after db)) := by
  rcases s.run_provision db with ⟨hgood, hbad⟩
  by_cases hvacant : s.schema.Vacant s.schema.tables db
  · have hrun := hgood hvacant
    have hresult : s.provision.result db = .ok () := congrArg Prod.fst hrun
    have hafter : s.provision.after db = s.schema.completed s.schema.tables db :=
      congrArg Prod.snd hrun
    -- The names are still free, and nothing is missing any more.
    have hagain : s.provision.run (s.provision.after db) = (.ok (), s.provision.after db) := by
      rw [hafter, (s.run_provision _).1 hvacant.completed, Schema.completed_completed]
    refine ⟨?_, iff_of_true hresult hvacant, fun _ => ⟨?_, ?_, ?_, ?_, hagain⟩⟩
    · intro f hf
      rw [hresult] at hf
      cases hf
    · intro u hu
      rw [hafter]
      exact Schema.isSome_table?_completed hu
    · rw [hafter, Schema.completed]
      exact congrArg _ (List.map_congr_left fun u _ => s.schema.created_eq u)
    · rw [hafter]
      exact s.schema.completed_indexes db
    · rw [hafter]
      rfl
  · rcases hbad hvacant with ⟨n, hrun⟩
    have hresult : s.provision.result db =
        .error (.query .provision n (.database .statement)) := congrArg Prod.fst hrun
    have hnot : s.provision.result db ≠ .ok () := by
      rw [hresult]
      rintro ⟨⟩
    refine ⟨fun _ _ => congrArg Prod.snd hrun, iff_of_false hnot hvacant, fun h => absurd h hnot⟩

/-- A provision that succeeds adds the missing tables and nothing else. -/
theorem after_provision_of_ok {s : Store} {db : Database} (hok : s.provision.result db = .ok ()) :
    s.provision.after db = s.schema.completed s.schema.tables db := by
  rcases s.run_provision db with ⟨hgood, hbad⟩
  by_cases hvacant : s.schema.Vacant s.schema.tables db
  · exact congrArg Prod.snd (hgood hvacant)
  · rcases hbad hvacant with ⟨n, hrun⟩
    have herror := (congrArg Prod.fst hrun).symm.trans hok
    cases herror

/-- A garden that others have planted: plants in columns of their own, and beds with a key of two
columns, in a table that may be called like the index of the tags. -/
def garden (index : String) : Database where
  tables :=
    [⟨"Plant", [{ name := "species", declared := "VARCHAR(20)" }],
      [⟨-3, [.text "fern"]⟩], 0⟩,
      ⟨index, [{ name := "row", declared := "INTEGER", primaryKey := true },
        { name := "place", declared := "INTEGER", primaryKey := true }], [], 0⟩]

/-- The plants of others stay, and the tags find their place beside them, unless the name of their
index is taken. -/
theorem provision_completes_garden :
    (plants.provision.result (garden "beds") = .ok () ∧
      (plants.provision.after (garden "beds")).tables.map Database.Table.name =
        ["Plant", "beds", "tags", "leaves"] ∧
      plants.provision.run (plants.provision.after (garden "beds")) =
        (.ok (), plants.provision.after (garden "beds"))) ∧
    plants.provision.result (garden "TAGS_parent_id_idx") ≠ .ok () ∧
    plants.provision.after (garden "TAGS_parent_id_idx") = garden "TAGS_parent_id_idx" := by
  rcases provision_completes plants (garden "beds") with ⟨-, hiff, hgood⟩
  have hok := hiff.2 (by decide)
  rcases hgood hok with ⟨-, htables, -, -, hagain⟩
  rcases provision_completes plants (garden "TAGS_parent_id_idx") with ⟨hbad, hiff', -⟩
  have hnot : plants.provision.result (garden "TAGS_parent_id_idx") ≠ .ok () :=
    fun h => absurd (hiff'.1 h) (by decide)
  refine ⟨⟨hok, ?_, hagain⟩, hnot, ?_⟩
  · rw [htables]
    decide
  · cases hresult : plants.provision.result (garden "TAGS_parent_id_idx") with
    | ok _ => exact absurd hresult hnot
    | error f => exact hbad f hresult

/--
Verifying succeeds exactly if no table hides the function for columns and every table of the schema
is there and has, for each column of its layout, a column that meets it.  Under a table that hides
the function the query for the columns of the main table fails.  Otherwise verifying complains about
the first table that does not fit, the main table before the others, and there about the first
column of the layout that is not met; of a missing table the engine may have one of its own, and
fail to describe it.  After a provision that succeeded verifying succeeds exactly if nothing hides
the function, the tables of the schema included, and the tables that had been there before fitted.
-/
theorem verify_decides (s : Store) {db : Database} (h : db.Named) :
    (s.verify.result db = .ok () ↔
      ¬ db.Shadowed ∧ ∀ u ∈ s.schema.tables, s.schema.Fits db u) ∧
    (db.Shadowed → s.verify.result db =
      .error (.query .verify s.schema.mainTable (.database .statement))) ∧
    (¬ db.Shadowed → ∀ f, s.verify.result db = .error f ↔ ∃ before u after,
      s.schema.trunkFirst = before ++ u :: after ∧ (∀ v ∈ before, s.schema.Fits db v) ∧
        s.schema.Complaint db u f) ∧
    (s.provision.result db = .ok () →
      (s.verify.result (s.provision.after db) = .ok () ↔
        ¬ db.Shadowed ∧ ¬ s.schema.Shadows ∧ ∀ u ∈ s.schema.tables,
          (∃ t ∈ db.tables, Ascii.sameName t.name u.1 = true) → s.schema.Fits db u)) := by
  refine ⟨s.verify_eq_ok h, s.verify_of_shadowed, fun hplain f => s.verify_eq_error h hplain, ?_⟩
  intro hok
  have hnamed := s.named_provision h
  rw [s.verify_eq_ok hnamed]
  rw [after_provision_of_ok hok] at hnamed ⊢
  rw [Schema.shadowed_completed, not_or, and_assoc]
  refine and_congr_right fun _ => and_congr_right fun _ => forall₂_congr fun u hu => ?_
  exact Schema.fits_completed s.schema_sound h hnamed hu

/-- The plants of others have no ids, and a provision does not give them any.  A list that is called
like the function for columns is provisioned, and then nothing can be verified. -/
theorem verify_decides_garden :
    ((garden "beds").Named ∧
      plants.verify.result (garden "beds") =
        .error (.layoutMismatch "plant" "missing column 'id'") ∧
      plants.provision.result (garden "beds") = .ok () ∧
      plants.verify.result (plants.provision.after (garden "beds")) ≠ .ok ()) ∧
    Database.Named {} ∧
    shadowing.provision.result {} = .ok () ∧
    shadowing.verify.result (shadowing.provision.after {}) =
      .error (.query .verify "plant" (.database .statement)) := by
  have hnamed : (garden "beds").Named := by decide
  have hempty : Database.Named {} := by decide
  rcases verify_decides plants hnamed with ⟨-, -, herror, hagain⟩
  have hok : plants.provision.result (garden "beds") = .ok () :=
    ((provision_completes plants (garden "beds")).2.1).2 (by decide)
  have hok' : shadowing.provision.result {} = .ok () :=
    ((provision_completes shadowing {}).2.1).2 (by decide)
  refine ⟨⟨hnamed, ?_, hok, ?_⟩, hempty, hok', ?_⟩
  · refine (herror (by decide) _).2 ⟨[], ("plant", _), _, rfl, by simp, .mismatch ?_⟩
    exact .column (.created List.mem_cons_self (by decide)) (List.nil_append _).symm (by simp)
      (.missing (by decide))
  · rw [Ne, hagain hok]
    rintro ⟨-, -, hfits⟩
    have hplant := hfits _ List.mem_cons_self ⟨_, List.mem_cons_self, by decide⟩
    exact absurd hplant (by decide)
  · exact (verify_decides shadowing (shadowing.named_provision hempty)).2.1 (by decide +kernel)

end Store
end Espalier
