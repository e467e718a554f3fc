import Espalier.Proofs.Store.Gathering
import Espalier.Proofs.Store.Replanting
import Espalier.Proofs.Store.Restricting

/-!
# A store with further tables

The schema of a store can be extended by secondary tables once there are documents.  If the new
names are free, provisioning the larger store adds its tables without rows and touches nothing else,
so all that is known of the database of the smaller store holds for the larger one too.
`provision_extended` says what follows: both stores verify unless a new table takes the place of
the function that tells columns, every document that was there is read as before with nothing in the
new tables, and whatever is inserted later, the smaller store reads its part of every document.
-/

namespace Espalier

open Database (Reachable Row)

namespace Schema

/-- The tables of a schema that number their rows fit, once they are all there. -/
theorem Tended.fits {s : Schema} {db : Database} (h : s.Tended db) (hfurnished : s.Furnished db)
    {u : String × Table} (hu : u ∈ s.tables) : s.Fits db u := by
  rcases Option.isSome_iff_exists.1 (hfurnished u hu) with ⟨t, ht⟩
  refine ⟨t, List.mem_of_find?_eq_some ht, Database.table?_name ht, fun e he => ?_⟩
  rw [layout_eq] at he
  exact ⟨e.spec, (h.planted u hu t ht).columns ▸ List.mem_map_of_mem he, e.metBy_spec⟩

namespace Extends

variable {s' s : Schema} (hext : s'.Extends s) {db : Database}

include hext

/-! ## Rows -/

theorem mainRow_eq (hsound : s.Sound) : s'.mainRow = s.mainRow := by
  funext n cells
  rw [mainRow, mainRow, hext.mainFields_eq hsound]

theorem branchRow_eq (u : String × Table) : s'.branchRow u = s.branchRow u := by
  funext k n cells
  rw [branchRow, branchRow, hext.planted_eq]

/-- The rows of a document are the same under both schemas. -/
theorem bears_iff {u : String × Table} {id : Int64} {items : List Tree} {rows : List Row} :
    s'.Bears u id items rows ↔ s.Bears u id items rows := by
  rw [Bears, Bears, hext.branch_eq, hext.branchRow_eq]

theorem fits_iff {u : String × Table} : s'.Fits db u ↔ s.Fits db u := by
  rw [Fits, Fits, layout_eq, layout_eq, hext.planted_eq]

/-! ## Databases of the smaller schema -/

section New

variable (hnew : ∀ u ∈ s'.tables, u ∉ s.tables → db.table? u.1 = none)

include hnew

omit hext in
/-- No row is there for a table that the schema adds. -/
theorem rowsOf_new {u : String × Table} (hu : u ∈ s'.tables) (hne : u ∉ s.tables) :
    db.rowsOf u.1 = [] := by
  rw [Database.rowsOf, hnew u hu hne]
  rfl

/-- Where the further tables are not, there is nothing to number and nothing to refer. -/
theorem tended (h : s.Tended db) : s'.Tended db where
  planted u hu t ht := by
    by_cases hold : u ∈ s.tables
    · rw [hext.planted_eq]
      exact h.planted u hold t ht
    · rw [hnew u hu hold] at ht
      cases ht
  owned u hu r hr := by
    by_cases hold : u ∈ s.tables
    · rw [hext.mainTable]
      exact h.owned u ((hext.mem_secondaryTables hold).1 hu) r hr
    · rw [rowsOf_new hnew (Schema.mem_secondaryTables.1 hu).1 hold] at hr
      cases hr

theorem stocked (hsound : s.Sound) (h : s.Stocked db) : s'.Stocked db where
  main r hr := by
    rw [hext.mainPlan_eq hsound, hext.mainRow_eq hsound]
    exact h.main r (hext.mainTable ▸ hr)
  branches u hu r hr := by
    by_cases hold : u ∈ s.tables
    · rw [hext.branch_eq, hext.branchRow_eq]
      exact h.branches u ((hext.mem_secondaryTables hold).1 hu) r hr
    · rw [rowsOf_new hnew (Schema.mem_secondaryTables.1 hu).1 hold] at hr
      cases hr

/-- A document has nothing in the further tables. -/
theorem rooted (hsound : s.Sound) {db' : Database}
    (hrows : ∀ name, db'.rowsOf name = db.rowsOf name) {id : Int64} {source : Entries Tree}
    {items : String × Table → List Tree} (h : s.Rooted id source items db) :
    s'.Rooted id source (fun u => if u ∈ s.tables then items u else []) db' where
  main := by
    rw [hext.mainPlan_eq hsound, hext.mainRow_eq hsound, hext.mainTable, hrows]
    exact h.main
  branches u hu := by
    rw [hrows]
    by_cases hold : u ∈ s.tables
    · rw [if_pos hold]
      rcases h.branches u ((hext.mem_secondaryTables hold).1 hu) with ⟨rows, hbears, hsorted, hiff⟩
      exact ⟨rows, hext.bears_iff.2 hbears, hsorted, hiff⟩
    · rw [if_neg hold, rowsOf_new hnew (Schema.mem_secondaryTables.1 hu).1 hold]
      refine ⟨[], .nil, .nil, fun r => ?_⟩
      simp

end New

end Extends
end Schema

namespace Store

/-! ## What can be read of a run -/

section Reading

variable {s : Store} {db : Database} (htended : s.schema.Tended db)
  (hstocked : s.schema.Stocked db)

include htended hstocked

omit hstocked in
/-- A database that is tended and furnished for a schema verifies. -/
theorem verify_of_tended (hnamed : db.Named) (hplain : ¬ db.Shadowed)
    (hfurnished : s.schema.Furnished db) : s.verify.result db = .ok () :=
  (s.verify_eq_ok hnamed).2 ⟨hplain, fun _ hu => htended.fits hfurnished hu⟩

/-- Every branch of a furnished database can be grown. -/
theorem exists_grow (hfurnished : s.schema.Furnished db) {u : String × Table}
    (hu : u ∈ s.schema.secondaryTables) (id : Int64) :
    ∃ items, ((s.schema.branch u).grow id).result db = .ok items := by
  have hmem := (Schema.mem_secondaryTables.1 hu).1
  rcases hstocked.exists_rows htended hu id with ⟨items, rows, hbears, hsorted, hrows⟩
  exact ⟨_, htended.grow_branch s.schema_sound hu (fun f hf => s.fieldType_codec hmem hf)
    (hfurnished u hmem) hbears hsorted hrows⟩

/-- Every main row of a complete database can be read. -/
theorem exists_get (hc : s.schema.Complete db) {r : Row}
    (hr : r ∈ db.rowsOf s.schema.mainTable) :
    ∃ entries, (s.get r.number).result db = .ok entries := by
  rcases hstocked.exists_rooted htended hr with ⟨source, items, hrooted⟩
  exact ⟨_, get_of_rooted htended hc hrooted⟩

/-- Every row of the main table is decoded, so there is a page for every window. -/
theorem exists_list (hfurnished : s.schema.Furnished db) (w : Window) :
    ∃ page, (s.list w).result db = .ok page := by
  have hsound := s.schema_sound
  rcases Schema.mainSound hsound with ⟨m, hm, -, hmain⟩
  have hmem := Schema.mem_of_table? hm
  rcases Option.isSome_iff_exists.1 (hfurnished _ hmem) with ⟨t, ht⟩
  have hplanted := htended.planted _ hmem t ht
  have hfitted := hplanted.fitted (Schema.trailing_planted (s := s.schema) hmain)
  cases hresult : (s.list w).result db with
  | ok page => exact ⟨page, rfl⟩
  | error e =>
    have hselect := Database.selectWindow_eq (p := s.schema.mainPlan) ht w
    have hnames : s.schema.mainPlan.columns.map DataColumn.name =
        s.schema.mainFields.map Field.name := List.map_map
    rw [hfitted.sorted_eq (List.Sublist.refl _), hnames] at hselect
    rw [list, s.plan_eq] at hresult
    rcases Plan.listPage_eq_error (p := s.schema.plan) hselect hresult with
      ⟨row, hrow, cause, hdecode, -⟩
    -- The row that was not decoded is one of the table, and those have been written.
    rcases List.mem_map.1 hrow with ⟨r, hr, rfl⟩
    have hr : r ∈ db.rowsOf s.schema.mainTable :=
      Database.rowsOf_eq ht ▸ (Database.windowed_sublist _ _ t.rows).subset hr
    rcases hstocked.main r hr with ⟨source, cells, n, hcells, rfl⟩
    have hvalues : (idColumn :: s.schema.mainFields.map Field.name).map
        (fun name => (t.operand name).value (s.schema.mainRow n cells)) =
          (s.schema.mainRow n cells).cells :=
      Schema.map_operand_mainRow hcells hsound hm hplanted
    rw [hvalues] at hdecode
    cases (Schema.decodeMain_mainRow hcells hsound s.fieldType_mainCodec).symm.trans hdecode

end Reading

/-! ## Extended stores -/

section Extended

variable {s s' : Store} (hext : s'.schema.Extends s.schema)

include hext

/-- A document that was there is read by the larger store with the same entries, and with nothing in
the further tables. -/
theorem get_extended {db db' : Database} (htended : s.schema.Tended db)
    (hc : s.schema.Complete db)
    (hnew : ∀ u ∈ s'.schema.tables, u ∉ s.schema.tables → db.table? u.1 = none)
    (hrows : ∀ name, db'.rowsOf name = db.rowsOf name) (htended' : s'.schema.Tended db')
    (hc' : s'.schema.Complete db') {id : Int64} {source : Entries Tree}
    {items : String × Table → List Tree} (hrooted : s.schema.Rooted id source items db) :
    ∃ old new, (s.get id).result db = .ok old ∧ (s'.get id).result db' = .ok new ∧
      (∀ name ∈ s.schema.mainFields.map Field.name ++ s.schema.branchNames,
        ∃ value, Entries.get? old name = some value ∧ Entries.get? new name = some value) ∧
      ∀ u ∈ s'.schema.tables, u ∉ s.schema.tables → Entries.get? new u.1 = some (.seq []) := by
  have hsound := s.schema_sound
  have hsound' := s'.schema_sound
  -- The document is rooted under both schemas, with no items at the tables that are new.
  have hrooted' := hext.rooted hnew hsound hrows hrooted
  refine ⟨_, _, get_of_rooted htended hc hrooted, get_of_rooted htended' hc' hrooted', ?_, ?_⟩
  · intro name hname
    rcases List.mem_append.1 hname with hname | hname
    · rcases List.mem_map.1 hname with ⟨f, hf, rfl⟩
      have hf' : f ∈ s'.schema.mainFields := hext.mainFields_eq hsound ▸ hf
      exact ⟨_, Schema.get?_assembled_field id _ _ hsound hf,
        Schema.get?_assembled_field id _ _ hsound' hf'⟩
    · rcases List.mem_map.1 hname with ⟨u, hu, rfl⟩
      have hold := (Schema.mem_secondaryTables.1 hu).1
      refine ⟨_, Schema.get?_assembled_branch id _ _ hu, ?_⟩
      rw [Schema.get?_assembled_branch id _ _ ((hext.mem_secondaryTables hold).2 hu), if_pos hold]
  · intro u hu hne
    have hu' := hext.mem_secondaryTables_of_new hsound hu hne
    rw [Schema.get?_assembled_branch id _ _ hu', if_neg hne]
    rfl

/-- Of a database that the larger store keeps, both read the same pages, and the smaller store reads
its part of every document. -/
theorem reads_extended {db : Database} (htended : s'.schema.Tended db)
    (hc : s'.schema.Complete db) (hstocked : s'.schema.Stocked db)
    (hfurnished : s'.schema.Furnished db) :
    (∀ w, ∃ page, (s.list w).result db = .ok page ∧ (s'.list w).result db = .ok page) ∧
    ((∀ u ∈ s'.schema.tables, u ∉ s.schema.tables → u.1 ≠ idColumn) →
      (∀ id, (s.get id).result db =
        ((s'.get id).result db).map (Entries.restrict s.schema.knows)) ∧
      ∀ r ∈ db.rowsOf s.schema.mainTable, ∃ entries,
        (s'.get r.number).result db = .ok entries) := by
  refine ⟨fun w => ?_, fun hid => ⟨fun id => ?_, fun r hr => ?_⟩⟩
  · rw [← list_extended hext]
    rcases exists_list htended hstocked hfurnished w with ⟨page, hpage⟩
    exact ⟨page, hpage, hpage⟩
  · exact get_restrict hext hid fun u hu _ => exists_grow htended hstocked hfurnished hu id
  · rw [← hext.mainTable] at hr
    exact exists_get htended hstocked hc hr

end Extended

/-- After its provision in a database of the smaller store, only tables of the larger schema can
hide the function for columns. -/
theorem shadowed_extended (s s' : Store) (hext : s'.schema.Extends s.schema) (checked : Bool)
    (steps : List Step) (hok : s'.provision.result (s.reached { checked } steps) = .ok ()) :
    (s'.provision.after (s.reached { checked } steps)).Shadowed ↔ s'.schema.Shadows := by
  rw [after_provision_of_ok hok, Schema.shadowed_completed]
  refine or_iff_right_of_imp fun hbefore => ?_
  by_contra hnot
  refine Database.not_shadowed_iff.2 (s.table?_reached_eq_none checked steps ?_) hbefore
  intro u hu hname
  exact hnot ⟨u, hext.tables.subset hu, Ascii.sameName_iff.2 hname⟩

/--
A store is extended after any run that left the names of the further tables free.  Once the larger
store was provisioned, both stores verify, unless a table of the larger schema hides the function
for columns and neither of them does; every document that was there is read by the larger store
with the same main fields and the same elements, and with nothing in the further tables.  After any
steps of the larger store both read the same pages, and, unless a further table is called `id`, the
smaller store reads of any id what is left of the document of the larger one when only its own
entries are kept.
-/
theorem provision_extended (s s' : Store) (hext : s'.schema.Extends s.schema) (checked : Bool)
    (steps : List Step) (hnew : ∀ u ∈ s'.schema.tables, u ∉ s.schema.tables →
      (s.reached { checked } steps).table? u.1 = none) {db : Database}
    (hprovision : s'.provision.run (s.reached { checked } steps) = (.ok (), db)) :
    (¬ s'.schema.Shadows → s.verify.result db = .ok () ∧ s'.verify.result db = .ok ()) ∧
    (s'.schema.Shadows →
      s.verify.result db =
        .error (.query .verify s.schema.mainTable (.database .statement)) ∧
      s'.verify.result db =
        .error (.query .verify s.schema.mainTable (.database .statement))) ∧
    (∀ r ∈ (s.reached { checked } steps).rowsOf s.schema.mainTable, ∃ old new,
      (s.get r.number).result (s.reached { checked } steps) = .ok old ∧
      (s'.get r.number).result db = .ok new ∧
      (∀ name ∈ s.schema.mainFields.map Field.name ++ s.schema.branchNames,
        ∃ value, Entries.get? old name = some value ∧ Entries.get? new name = some value) ∧
      ∀ u ∈ s'.schema.tables, u ∉ s.schema.tables → Entries.get? new u.1 = some (.seq [])) ∧
    ∀ later,
      (∀ w, ∃ page, (s.list w).result (s'.reached db later) = .ok page ∧
        (s'.list w).result (s'.reached db later) = .ok page) ∧
      ((∀ u ∈ s'.schema.tables, u ∉ s.schema.tables → u.1 ≠ idColumn) →
        (∀ id, (s.get id).result (s'.reached db later) =
          ((s'.get id).result (s'.reached db later)).map (Entries.restrict s.schema.knows)) ∧
        ∀ r ∈ (s'.reached db later).rowsOf s.schema.mainTable, ∃ entries,
          (s'.get r.number).result (s'.reached db later) = .ok entries) := by
  have hsound := s.schema_sound
  rcases s.keeps_reached_empty checked steps with ⟨htended, hcomplete, -⟩
  have hstocked := s.stocked_reached checked steps
  have hformed : (s.reached { checked } steps).Formed :=
    (s.reachable_reached (.empty checked) steps).formed
  have hshadowed := s.shadowed_extended s' hext checked steps (congrArg Prod.fst hprovision)
  generalize s.reached { checked } steps = before at *
  -- The larger store finds its tables there, the further ones without rows.
  have hresult : s'.provision.result before = .ok () := congrArg Prod.fst hprovision
  obtain rfl : s'.provision.after before = db := congrArg Prod.snd hprovision
  rcases s'.defines_provision before with ⟨hdefines, hfurnished⟩
  have hfurnished := hfurnished hresult
  have hcomplete' : s'.schema.Complete (s'.provision.after before) := fun _ => hfurnished
  have htended' := hdefines.tended (hext.tended hnew htended)
  have hstocked' : s'.schema.Stocked (s'.provision.after before) :=
    (hext.stocked hnew hsound hstocked).of_subset fun name r hr => hdefines.rows name ▸ hr
  have hnamed' := (s'.formed_provision hformed).named
  refine ⟨fun hplain => ?_, fun hshadows => ?_, ?_, fun later => ?_⟩
  · have hplain' := hshadowed.not.2 hplain
    refine ⟨(s.verify_eq_ok hnamed').2 ⟨hplain', fun u hu => ?_⟩,
      verify_of_tended htended' hnamed' hplain' hfurnished⟩
    -- The larger schema asks the same of the tables that the smaller one has.
    exact hext.fits_iff.1 (htended'.fits hfurnished (hext.tables.subset hu))
  · have hhidden := hshadowed.2 hshadows
    exact ⟨s.verify_of_shadowed hhidden, hext.mainTable ▸ s'.verify_of_shadowed hhidden⟩
  · -- Provisioning left the rows as they were, so what an id is the root of is still there.
    intro r hr
    rcases hstocked.exists_rooted htended hr with ⟨source, items, hrooted⟩
    exact get_extended hext htended hcomplete hnew hdefines.rows htended' hcomplete' hrooted
  · rcases keeps_reached htended' hcomplete' later with ⟨htended'', hcomplete'', -⟩
    exact reads_extended hext htended'' hcomplete''
      (stocked_of_run htended' hcomplete' hstocked' later)
      fun u hu => isSome_table?_of_run htended' hcomplete' later (hfurnished u hu)

/-- Plants that also have flowers, between the tags and the leaves. -/
def flowering : Store :=
  ⟨.ofTables "plant" [
      ("plant", { fields := [⟨"name", .string⟩, ⟨"height", .float⟩] }),
      ("tags", { isList := true, valueField := some ⟨"label", .string⟩ }),
      ("flowers", { fields := [⟨"color", .string⟩] }),
      ("leaves", { fields := [⟨"shape", .string⟩, ⟨"count", .integer⟩] })],
    _, by decide, rfl⟩

/-- Plants with a further list that is called like the function for columns. -/
def overgrown : Store :=
  ⟨.ofTables "plant" [
      ("plant", { fields := [⟨"name", .string⟩, ⟨"height", .float⟩] }),
      ("tags", { isList := true, valueField := some ⟨"label", .string⟩ }),
      ("leaves", { fields := [⟨"shape", .string⟩, ⟨"count", .integer⟩] }),
      ("Pragma_Table_Info", { isList := true, valueField := some ⟨"label", .string⟩ })],
    _, by decide, rfl⟩

/-- A fern that was there before there were flowers. -/
def beforeFlowers : List Step :=
  [.provision, .insert (.map [("name", .text "fern")])]

def redRose : Tree :=
  .map [("name", .text "rose"), ("flowers", .map [("color", .text "red")])]

/-- Of a rose that came with the flowers, the store of plants reads all but the flowers.  A list
that is called like the function leaves neither store verified. -/
theorem provision_extended_flowering :
    (flowering.schema.Extends plants.schema ∧
      (∀ u ∈ flowering.schema.tables, u ∉ plants.schema.tables →
        (plants.reached {} beforeFlowers).table? u.1 = none) ∧
      ∃ db, flowering.provision.run (plants.reached {} beforeFlowers) = (.ok (), db) ∧
        (plants.verify.result db = .ok () ∧ flowering.verify.result db = .ok ()) ∧
        (∃ fern, (flowering.get 1).result db = .ok fern ∧
          Entries.get? fern "flowers" = some (.seq [])) ∧
        ∃ rose, (flowering.get 2).result (flowering.reached db [.insert redRose]) = .ok rose ∧
          (plants.get 2).result (flowering.reached db [.insert redRose]) =
            .ok (Entries.restrict plants.schema.knows rose)) ∧
    (overgrown.schema.Extends plants.schema ∧
      (∀ u ∈ overgrown.schema.tables, u ∉ plants.schema.tables →
        (plants.reached {} beforeFlowers).table? u.1 = none) ∧
      ∃ db, overgrown.provision.run (plants.reached {} beforeFlowers) = (.ok (), db) ∧
        plants.verify.result db = .error (.query .verify "plant" (.database .statement)) ∧
        overgrown.verify.result db = .error (.query .verify "plant" (.database .statement))) := by
  have hext : flowering.schema.Extends plants.schema := ⟨rfl, by decide +kernel⟩
  have hnew : ∀ u ∈ flowering.schema.tables, u ∉ plants.schema.tables →
      (plants.reached {} beforeFlowers).table? u.1 = none := by
    decide +kernel
  have hprovision : flowering.provision.run (plants.reached {} beforeFlowers) =
      (.ok (), flowering.provision.after (plants.reached {} beforeFlowers)) :=
    Prod.ext (by decide +kernel) rfl
  rcases provision_extended plants flowering hext true beforeFlowers hnew hprovision with
    ⟨hverify, -, hbefore, hlater⟩
  have hext' : overgrown.schema.Extends plants.schema := ⟨rfl, by decide +kernel⟩
  have hnew' : ∀ u ∈ overgrown.schema.tables, u ∉ plants.schema.tables →
      (plants.reached {} beforeFlowers).table? u.1 = none := by
    decide +kernel
  have hprovision' : overgrown.provision.run (plants.reached {} beforeFlowers) =
      (.ok (), overgrown.provision.after (plants.reached {} beforeFlowers)) :=
    Prod.ext (by decide +kernel) rfl
  rcases provision_extended plants overgrown hext' true beforeFlowers hnew' hprovision' with
    ⟨-, hhidden, -, -⟩
  refine ⟨⟨hext, hnew, _, hprovision, hverify (by decide), ?_, ?_⟩,
    hext', hnew', _, hprovision', hhidden (by decide)⟩
  · have hfern : ⟨1, [.int 1, .text "fern", .null]⟩ ∈
        (plants.reached {} beforeFlowers).rowsOf plants.schema.mainTable := by
      decide +kernel
    rcases hbefore _ hfern with ⟨-, fern, -, hfern, -, hempty⟩
    exact ⟨fern, hfern, hempty ("flowers", { fields := [⟨"color", .string⟩] }) (by decide)
      (by decide)⟩
  · rcases (hlater [.insert redRose]).2 (by decide) with ⟨hrestrict, hread⟩
    have hrose : ⟨2, [.int 2, .text "rose", .null]⟩ ∈
        (flowering.reached (flowering.provision.after (plants.reached {} beforeFlowers))
          [.insert redRose]).rowsOf plants.schema.mainTable := by
      decide +kernel
    rcases hread _ hrose with ⟨rose, hrose⟩
    exact ⟨rose, hrose, by rw [hrestrict, hrose]; rfl⟩

end Store
end Espalier
