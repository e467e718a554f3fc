import Espalier.Proofs.Store.RoundTrip

/-!
# Ids of documents

The counter of the main table tells how many documents have been put in, so ids come in order and
none comes twice, whatever fails or is deleted.  Every secondary row refers to an id that had been
given when it was written, so rows that a deletion has left behind never refer to a later document.
-/

namespace Espalier

namespace Store

/-- The counter of the main table counts the documents put in. -/
theorem Effect.counterOf_main {s : Store} {db db' : Database} {a : Step}
    {doc : Option (Int64 × Tree)} (h : s.Effect db a doc db') :
    db'.counterOf s.schema.mainTable = db.counterOf s.schema.mainTable + doc.toList.length := by
  cases h with
  | idle hdefines _ => exact (hdefines.counter _).trans (Int.add_zero _).symm
  | grew _ hgrew _ => exact hgrew.counter.trans hgrew.number
  | thinned _ hthins => exact (hthins.counterOf _).trans (Int.add_zero _).symm

/-- The counter of the main table counts the documents that were inserted. -/
theorem counterOf_reached (s : Store) (checked : Bool) (steps : List Step) :
    (s.reached { checked } steps).counterOf s.schema.mainTable =
      (s.inserted { checked } steps).length := by
  induction steps using List.reverseRecOn with
  | nil => rfl
  | append_singleton steps a ih =>
    rcases s.effect_reached checked steps a with ⟨doc, heffect, hinserted⟩
    rw [heffect.counterOf_main, ih, hinserted, List.length_append, Int.natCast_add]

/-- Of the rows in the table of a branch those of the new document refer to its id, and no older row
does. -/
theorem filter_parent {s : Store} {db db' : Database} (h : s.schema.Tended db)
    (h' : s.schema.Tended db') {entries : Entries Tree} {id : Int64}
    (hgrew : s.schema.Grew entries id db db') {u : String × Table}
    (hu : u ∈ s.schema.secondaryTables) {t : Database.Table} (ht : db'.table? u.1 = some t) :
    ∃ written, t.rows = db.rowsOf u.1 ++ written ∧
      written.length = (Tree.elements (Entries.get? entries u.1)).length ∧
      t.rows.filter (t.holds parentColumn (.int id)) = written := by
  have hmem := (Schema.mem_secondaryTables.1 hu).1
  have hnumber := hgrew.number
  rcases hgrew.branches u hu with ⟨items, written, helements, hbears, hrows⟩
  rw [Database.rowsOf_eq ht] at hrows
  have hplanted := h'.planted u hmem t ht
  have htrailing := Schema.trailing_planted (s := s.schema) (s.schema_sound.tables u hmem)
  rw [Schema.planted_secondary hu] at hplanted htrailing
  refine ⟨written, hrows, ?_, ?_⟩
  · rw [← hbears.length_eq, Branch.elements_eq helements]
  · rw [hrows, List.filter_append, List.filter_eq_nil_iff.2, List.filter_eq_self.2,
      List.nil_append]
    · intro r hr
      exact (hplanted.holds_parent htrailing (hbears.cell hu hr)).2 rfl
    · -- An older row refers to an id that had been given.
      intro r hr hholds
      rcases h.owned u hu r hr with ⟨k, hcell, hk⟩
      rw [hplanted.holds_parent htrailing hcell] at hholds
      rw [hholds] at hk
      omega

/--
The insertions of a run that succeed are numbered from one on, whatever fails or is deleted between
them, and right after an insertion the rows that refer to its id are those that it has put at the
ends of the secondary tables, one for each element.
-/
theorem insert_numbered (s : Store) (checked : Bool) (steps : List Step) (tree : Tree) (id : Int64)
    (hinsert : (s.insert tree).result (s.reached { checked } steps) = .ok id) :
    id.toInt = (s.inserted { checked } steps).length + 1 ∧
      ∀ u ∈ s.schema.secondaryTables, ∃ t written,
        ((s.insert tree).after (s.reached { checked } steps)).table? u.1 = some t ∧
        t.rows = (s.reached { checked } steps).rowsOf u.1 ++ written ∧
        written.length = (Tree.elements (tree.get? u.1)).length ∧
        t.rows.filter (t.holds parentColumn (.int id)) = written := by
  rcases s.keeps_reached_empty checked steps with ⟨htended, hcomplete, -⟩
  rcases grew_of_insert htended hinsert with ⟨entries, xs, rfl, htended', hgrew, -⟩
  have hcomplete' := hcomplete.of_eq hgrew.tables
  refine ⟨?_, fun u hu => ?_⟩
  · rw [hgrew.number, counterOf_reached]
  · -- The main row is there now, and with the main table all others are.
    rcases s.schema_sound.main with ⟨m, hm, -⟩
    rcases hgrew.main with ⟨cells, -, hrows⟩
    have hfurnished : s.schema.Furnished
        ((s.insert (.map entries)).after (s.reached { checked } steps)) := by
      obtain ⟨t, ht, -⟩ := Database.exists_of_mem_rowsOf
        (hrows ▸ List.mem_append_right _ List.mem_cons_self)
      exact hcomplete' ⟨_, Schema.mem_of_table? hm, by rw [ht]; rfl⟩
    rcases Option.isSome_iff_exists.1 (hfurnished u (Schema.mem_secondaryTables.1 hu).1) with
      ⟨t, ht⟩
    obtain ⟨written, hwritten⟩ := filter_parent htended htended' hgrew hu ht
    exact ⟨t, written, ht, hwritten⟩

/-- Steps that leave the tags of a plant behind, and fail to put in another plant. -/
def orphaning : List Step :=
  [.provision, .insert (.map [("tags", .seq [.text "green", .text "brown"])]), .delete "plant" 1,
    .insert (.map [("tags", .int 3)])]

/-- The next plant has the second id, and only its own tag refers to it. -/
theorem insert_numbered_plants :
    (plants.insert (.map [("tags", .seq [.text "red"])])).result
      (plants.reached { checked := false } orphaning) = .ok 2 ∧
    (plants.inserted { checked := false } orphaning).length = 1 ∧
    ∃ t written, ((plants.insert (.map [("tags", .seq [.text "red"])])).after
        (plants.reached { checked := false } orphaning)).table? "tags" = some t ∧
      t.rows.length = 3 ∧ written.length = 1 ∧
      t.rows.filter (t.holds parentColumn (.int 2)) = written := by
  have hinsert : (plants.insert (.map [("tags", .seq [.text "red"])])).result
      (plants.reached { checked := false } orphaning) = .ok 2 := by
    decide +kernel
  rcases insert_numbered plants false orphaning _ 2 hinsert with ⟨hnumber, hbranches⟩
  obtain ⟨t, written, ht, hrows, hlength, hfilter⟩ :=
    hbranches ("tags", ⟨[], true, some ⟨"label", .string⟩⟩) (by decide)
  have hold : ((plants.reached { checked := false } orphaning).rowsOf "tags").length = 2 := by
    decide +kernel
  have htwo : (2 : Int64).toInt = 2 := rfl
  refine ⟨hinsert, by omega, t, written, ht, ?_, hlength, hfilter⟩
  rw [hrows, List.length_append, hlength, hold]
  rfl

end Store
end Espalier
