import Espalier.Proofs.Store.Gathering
import Espalier.Proofs.Store.Keys

/-!
# Two ways to read

A page and a document are read by different statements, but both find a main row by its number and
decode it alike, and no branch has the name of a main field.  So a page of all main rows and the
documents agree wherever the tables fit, whoever wrote the rows: `get_agrees_list` says that the ids
on the page are those of the documents, each once, and that a document has what its item has.
-/

namespace Espalier

open Database (Action Cell Reachable Row)

namespace Store

/-- A page without an offset and without a limit is made of all rows. -/
theorem Window.rows_all (rows : List Row) : (⟨0, 0⟩ : Window).rows rows = rows := by
  have hoffset : (Window.clamp 0).toInt.toNat = 0 := by decide
  have hlimit : (-1 : Int64) < 0 := by decide
  rw [Window.rows, if_pos rfl, Database.windowed, if_pos hlimit, hoffset, List.drop_zero]

section Main

variable {s : Store} {db : Database} {m : Table} {t : Database.Table}

/-- A main row is decoded into its number and the main fields. -/
theorem decodeMain_mainCells {r : Row} {trunk : Entries Tree}
    (h : s.schema.mainPlan.decodeMain (s.mainCells t r) = .ok trunk) :
    Entries.keys trunk = idColumn :: s.schema.mainFields.map Field.name ∧
      Entries.get? trunk idColumn = some (.int r.number) :=
  decodeMain_cons s.schema_sound (List.length_map _) h

variable (ht : db.table? s.schema.mainTable = some t)
  (hfitted : t.Fitted (s.schema.planted s.schema.mainTable m))

include ht hfitted

/-- The items of a page of all main rows are these rows decoded, in order. -/
theorem forall₂_items {page : Page} (h : (s.list ⟨0, 0⟩).result db = .ok page) :
    List.Forall₂ (fun r item => s.schema.mainPlan.decodeMain (s.mainCells t r) = .ok item)
      t.rows page.items := by
  rw [list, s.plan_eq, Plan.listPage_eq_ok (select_list ht hfitted ⟨0, 0⟩), Window.rows_all] at h
  exact List.forall₂_map_left_iff.1 (Outcome.mapM_eq_ok.1 h.1)

/-- A document begins with the main row of its id, decoded, and has the fields of it. -/
theorem exists_trunk {id : Int64} {entries : Entries Tree}
    (h : (s.get id).result db = .ok entries) : ∃ r ∈ t.rows, r.number = id ∧ ∃ trunk,
      s.schema.mainPlan.decodeMain (s.mainCells t r) = .ok trunk ∧
      ∀ f ∈ s.schema.mainFields, Entries.get? entries f.name = Entries.get? trunk f.name := by
  by_cases hrow : ∃ r ∈ t.rows, r.number = id
  · rcases hrow with ⟨r, hr, rfl⟩
    have hselect := select_main ht hfitted hr
    rcases get_eq_ok.1 h with ⟨row, rest, trunk, grown, hfound, htrunk, hgrown, rfl⟩
    obtain ⟨rfl, -⟩ : s.mainCells t r = row ∧ [] = rest :=
      List.cons_eq_cons.1 (Except.ok.inj (hselect.symm.trans hfound))
    refine ⟨r, hr, rfl, trunk, htrunk, fun f hf => ?_⟩
    have hnames := map_fst_grown hgrown
    -- What the branches are put under is no main field.
    have hnone : Entries.get? (s.schema.branchNames.zip (grown.map Tree.seq)) f.name = none := by
      rw [Entries.get?_eq_none, Entries.keys, hnames]
      exact fun hbranch =>
        Schema.branchNames_disjoint s.schema_sound hbranch (List.mem_map_of_mem hf)
    have hdistinct : ((s.schema.branchNames.zip (grown.map Tree.seq)).map Prod.fst).Nodup := by
      rw [hnames]
      exact s.schema.nodup_branchNames
    rw [Entries.get?_merge hdistinct, hnone, Option.none_or]
  · have hnone : ∀ r ∈ t.rows, r.number ≠ id := fun r hr hid => hrow ⟨r, hr, hid⟩
    rw [get_of_missing ht hfitted hnone] at h
    cases h

end Main

/--
In a database that statements have led to and that verifies, and where a page of all main rows can
be read: no two of its items have one id, a document is missing exactly if no item has its id, and a
document has under the name of every main field what the item with its id has there.
-/
theorem get_agrees_list (s : Store) {db : Database} (h : Reachable db)
    (hverify : s.verify.result db = .ok ()) {page : Page}
    (hlist : (s.list ⟨0, 0⟩).result db = .ok page) :
    (∃ ids : List Int64, ids.Nodup ∧
      (page.items.map fun item => Entries.get? item idColumn) =
        ids.map fun id => some (.int id)) ∧
    ∀ id, ((∃ table n, (s.get id).result db = .error (.notFound table n)) ↔
        ∀ item ∈ page.items, Entries.get? item idColumn ≠ some (.int id)) ∧
      ∀ entries, (s.get id).result db = .ok entries → ∃ item ∈ page.items,
        Entries.get? item idColumn = some (.int id) ∧
        ∀ f ∈ s.schema.mainFields, ∃ value, Entries.get? entries f.name = some value ∧
          Entries.get? item f.name = some value := by
  rcases s.schema_sound.main with ⟨m, hm, -⟩
  have hbranches : ∀ u ∈ s.schema.secondaryTables, ∃ t, db.table? u.1 = some t ∧
      t.Fitted (s.schema.planted u.1 u.2) :=
    fun u hu => s.exists_fitted h hverify (Schema.mem_secondaryTables.1 hu).1
  rcases s.exists_fitted h hverify (Schema.mem_of_table? hm) with ⟨t, ht, hfitted⟩
  have hrows := forall₂_items ht hfitted hlist
  have hids : (page.items.map fun item => Entries.get? item idColumn) =
      t.rows.map fun r => some (.int r.number) := by
    rw [← List.forall₂_eq_eq_eq, List.forall₂_map_left_iff, List.forall₂_map_right_iff]
    exact hrows.flip.imp fun item r hitem => (decodeMain_mainCells hitem).2
  have hnumbers : ∀ id, (∃ item ∈ page.items, Entries.get? item idColumn = some (.int id)) ↔
      ∃ r ∈ t.rows, r.number = id := by
    intro id
    have hmem : some (Tree.int id) ∈ (page.items.map fun item => Entries.get? item idColumn) ↔
        some (Tree.int id) ∈ t.rows.map fun r => some (Tree.int r.number) := by rw [hids]
    simpa [List.mem_map] using hmem
  refine ⟨⟨t.rows.map Row.number, ?_, ?_⟩, fun id => ⟨?_, ?_⟩⟩
  · refine List.pairwise_map.2 (hfitted.numbered.sorted.imp ?_)
    intro r r' hlt heq
    exact Int.ne_of_lt hlt (congrArg Int64.toInt heq)
  · rw [hids, List.map_map]
    rfl
  · have hnone : (∀ item ∈ page.items, Entries.get? item idColumn ≠ some (.int id)) ↔
        ¬ ∃ r ∈ t.rows, r.number = id := by
      rw [← hnumbers id]
      push Not
      exact Iff.rfl
    rw [hnone]
    rcases get_found_or_missing hm ht hfitted hbranches id with
      ⟨hmissing, hresult⟩ | ⟨hfound, herrors⟩
    · refine iff_of_true ⟨_, _, hresult⟩ ?_
      rintro ⟨r, hr, hid⟩
      exact hmissing r hr hid
    · refine iff_of_false ?_ fun hnot => hnot hfound
      rintro ⟨table, n, hresult⟩
      rcases herrors _ hresult with ⟨u, -, hquery, -⟩
      cases hquery
  · intro entries hentries
    rcases exists_trunk ht hfitted hentries with ⟨r, hr, rfl, trunk, htrunk, hfields⟩
    -- The row stands on the page as well, decoded into the same trunk.
    have hanswers : t.rows.map (fun r => s.schema.mainPlan.decodeMain (s.mainCells t r)) =
        page.items.map Except.ok := by
      rw [← List.forall₂_eq_eq_eq, List.forall₂_map_left_iff, List.forall₂_map_right_iff]
      exact hrows
    have hitem : trunk ∈ page.items := by
      rw [← List.mem_map_of_injective (f := Except.ok) fun _ _ => Except.ok.inj, ← hanswers]
      exact List.mem_map.2 ⟨r, hr, htrunk⟩
    rcases decodeMain_mainCells htrunk with ⟨hkeys, hid⟩
    refine ⟨trunk, hitem, hid, fun f hf => ?_⟩
    cases hvalue : Entries.get? trunk f.name with
    | none =>
      rw [Entries.get?_eq_none, hkeys] at hvalue
      exact absurd (List.mem_cons_of_mem _ (List.mem_map_of_mem hf)) hvalue
    | some value => exact ⟨value, (hfields f hf).trans hvalue, rfl⟩

/-- A garden for plants in a table that others have made, with notes and the id in the midst, and a
plant with a number of their own. -/
def noted : Database :=
  (Action.insert ⟨"plant", ["id", "name", "note"]⟩ [.int (-4), .text "fern", .text "shady"]).after
    (plants.provision.after ((Action.define (.table
      { ifAbsent := false
        table := "plant"
        columns :=
          [{ name := "note", declared := "TEXT" }, { name := "height", declared := "REAL" },
            { name := "id", declared := "INTEGER", primaryKey := true },
            { name := "name", declared := "TEXT" }] })).after {}))

theorem reachable_noted : Reachable noted :=
  (plants.reachable_provision ((Reachable.empty true).after_define _)).after_insert _ _

theorem list_noted : (plants.list ⟨0, 0⟩).result noted =
    .ok ⟨[[("id", .int (-4)), ("name", .text "fern"), ("height", .null)]], 0⟩ := by
  have hselect : noted.select Schema.plants.plan.list (⟨0, 0⟩ : Window).arguments =
      .ok [[.int (-4), .text "fern", .null]] := by decide +kernel
  exact (Plan.listPage_eq_ok (p := Schema.plants.plan) hselect).2 ⟨rfl, rfl⟩

/-- The plant of others is on the page with its own number, and is found by it and by no other. -/
theorem get_agrees_list_noted : Reachable noted ∧ plants.verify.result noted = .ok () ∧
    ∃ page, (plants.list ⟨0, 0⟩).result noted = .ok page ∧
      (∀ id, id ≠ -4 → ∃ table n, (plants.get id).result noted = .error (.notFound table n)) ∧
      ∃ entries, (plants.get (-4)).result noted = .ok entries ∧
        Entries.get? entries "name" = some (.text "fern") := by
  have hverify : plants.verify.result noted = .ok () := by decide +kernel
  have hagrees := (get_agrees_list plants reachable_noted hverify list_noted).2
  refine ⟨reachable_noted, hverify, _, list_noted, fun id hid => (hagrees id).1.2 ?_, ?_⟩
  · intro item hitem hget
    rw [List.mem_singleton.1 hitem] at hget
    cases hget
    exact hid rfl
  · have hfound : Outcome.error? ((plants.get (-4)).result noted) = none := by decide +kernel
    rcases Outcome.error?_eq_none.1 hfound with ⟨entries, hentries⟩
    rcases (hagrees (-4)).2 entries hentries with ⟨item, hitem, -, hfields⟩
    have hname : (⟨"name", .string⟩ : Field) ∈ Schema.plants.mainFields := by decide
    rcases hfields _ hname with ⟨value, hvalue, hfern⟩
    rw [List.mem_singleton.1 hitem] at hfern
    cases hfern
    exact ⟨entries, hentries, hvalue⟩

end Store
end Espalier
