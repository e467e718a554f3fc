import Espalier.Proofs.Store.Conformity
import Espalier.Proofs.Store.RoundTrip

/-!
# Which documents are admitted

Where the tables of the schema are there and have numbers left, no constraint of the database can
stop a row: the main row refers to nothing, and every other row refers to the main row that was
written before it.  So only the checks of the store decide, and a document is admitted exactly if it
conforms to the schema.
-/

namespace Espalier

open Database (Cell Row)

namespace Schema

variable {s : Schema} {db : Database}

/-- Every table has numbers left for the rows that a document asks for. -/
structure HasRoom (s : Schema) (db : Database) (tree : Tree) : Prop where
  main : db.counterOf s.mainTable + 1 ≤ Int64.maxValue.toInt
  branches : ∀ u ∈ s.secondaryTables,
    db.counterOf u.1 + (Tree.elements (tree.get? u.1)).length ≤ Int64.maxValue.toInt

/-! ## The database takes every row -/

/-- The columns of fields need no value and refer to nothing. -/
theorem unconstrained_data {fields : List Field} {cells : List Cell} :
    ∀ x ∈ (fields.map Field.column).zip cells, x.1.notNull = false ∧ x.1.references = none := by
  intro x hx
  rcases List.mem_map.1 (List.of_mem_zip hx).1 with ⟨f, -, hf⟩
  rw [← hf]
  exact ⟨rfl, rfl⟩

/-- The main table takes a row for every mapping whose values pass. -/
theorem Tended.takes_main (hsound : s.Sound) (h : s.Tended db) (hfurnished : s.Furnished db)
    (hroom : db.counterOf s.mainTable < Int64.maxValue.toInt) {cells : List Cell}
    (hlength : cells.length = s.mainFields.length) :
    ∃ n db', db.insert s.mainPlan.insert cells = .ok (n, db') := by
  rcases hsound.main with ⟨m, hm, -⟩
  have hmem := mem_of_table? hm
  rcases Option.isSome_iff_exists.1 (hfurnished _ hmem) with ⟨t, ht⟩
  have hplanted := h.planted _ hmem t ht
  have htrailing := trailing_planted (s := s) (hsound.tables _ hmem)
  rw [planted_main hm] at hplanted htrailing
  rw [Database.counterOf_eq ht] at hroom
  have hnames : s.mainPlan.insert =
      ⟨s.mainTable, (s.mainFields.map Field.column).map Column.name⟩ := by
    rw [List.map_map]
    rfl
  rw [hnames]
  refine hplanted.takes htrailing ht hroom ht (hplanted.fitted htrailing) (by simp [hlength]) ?_ ?_
  · intro x hx hneeds
    rw [(unconstrained_data x hx).1] at hneeds
    cases hneeds
  · intro x hx parent hparent
    rw [(unconstrained_data x hx).2] at hparent
    cases hparent

/-- A secondary table takes a row for every element whose values pass if the main row is there. -/
theorem Tended.takes_branch (hsound : s.Sound) (h : s.Tended db) (hfurnished : s.Furnished db)
    {u : String × Table} (hu : u ∈ s.secondaryTables)
    (hroom : db.counterOf u.1 < Int64.maxValue.toInt) {r : Row} (hr : r ∈ db.rowsOf s.mainTable)
    {cells : List Cell} (hlength : cells.length = u.2.dataFields.length) :
    ∃ n db', db.insert (s.branch u).table.insert (.int r.number :: cells) = .ok (n, db') := by
  rcases hsound.main with ⟨m, hm, -⟩
  have hmain := mem_of_table? hm
  have hmem := (mem_secondaryTables.1 hu).1
  rcases Database.exists_of_mem_rowsOf hr with ⟨tm, htm, hr⟩
  rcases Option.isSome_iff_exists.1 (hfurnished u hmem) with ⟨t, ht⟩
  have hplanted := h.planted u hmem t ht
  have htrailing := trailing_planted (s := s) (hsound.tables u hmem)
  rw [planted_secondary hu] at hplanted htrailing
  rw [Database.counterOf_eq ht] at hroom
  have hfitted := (h.planted _ hmain tm htm).fitted
    (trailing_planted (s := s) (hsound.tables _ hmain))
  have hnames : (s.branch u).table.insert =
      ⟨u.1, (Column.parent s.mainTable :: u.2.dataFields.map Field.column).map Column.name⟩ := by
    rw [List.map_cons, List.map_map]
    rfl
  rw [hnames]
  refine hplanted.takes htrailing ht hroom htm hfitted (by simp [hlength]) ?_ ?_
  · rw [List.zip_cons_cons, List.forall_mem_cons]
    refine ⟨fun _ => Cell.noConfusion, fun x hx hneeds => ?_⟩
    rw [(unconstrained_data x hx).1] at hneeds
    cases hneeds
  · -- The one reference is the number of the main row.
    rw [List.zip_cons_cons, List.forall_mem_cons]
    refine ⟨?_, fun x hx parent hparent => ?_⟩
    · rintro parent ⟨⟩
      exact ⟨Ascii.sameName_refl _, rfl, r, hr, rfl⟩
    · rw [(unconstrained_data x hx).2] at hparent
      cases hparent

/-! ## Rows of one table -/

/-- Of the rows of a document, those of one secondary table are the rows of its branch. -/
theorem filter_writings (hsound : s.Sound) (entries : Entries Tree) {u : String × Table}
    (hu : u ∈ s.secondaryTables) :
    (s.secondaryTables.flatMap fun v => (s.branch v).writings (Entries.get? entries v.1)).filter
        (fun w => Ascii.sameName w.table.name u.1) =
      (s.branch u).writings (Entries.get? entries u.1) := by
  have hname : ∀ v, ∀ w ∈ (s.branch v).writings (Entries.get? entries v.1), w.table.name = v.1 := by
    intro v w hw
    rw [Store.Branch.table_of_mem_writings hw]
    rfl
  have hself : ((s.branch u).writings (Entries.get? entries u.1)).filter
      (fun w => Ascii.sameName w.table.name u.1) =
        (s.branch u).writings (Entries.get? entries u.1) := by
    rw [List.filter_eq_self]
    intro w hw
    rw [hname u w hw]
    exact Ascii.sameName_refl u.1
  -- No other branch has a row under the name.
  have hother : ∀ us : List (String × Table), (∀ v ∈ us, v ∈ s.secondaryTables ∧ v ≠ u) →
      (us.flatMap fun v => (s.branch v).writings (Entries.get? entries v.1)).filter
        (fun w => Ascii.sameName w.table.name u.1) = [] := by
    intro us hus
    rw [List.filter_eq_nil_iff]
    intro w hw
    rcases List.mem_flatMap.1 hw with ⟨v, hv, hw⟩
    rcases hus v hv with ⟨hv, hne⟩
    rw [hname v w hw, sameName_of_ne hsound (mem_secondaryTables.1 hv).1
      (mem_secondaryTables.1 hu).1 hne]
    exact Bool.false_ne_true
  have hnodup : s.secondaryTables.Nodup := (List.Nodup.of_map _ s.distinct).filter _
  rcases List.append_of_mem hu with ⟨earlier, later, hsplit⟩
  rw [hsplit] at hnodup hother ⊢
  rw [List.nodup_append, List.nodup_cons] at hnodup
  rcases hnodup with ⟨-, ⟨hlater, -⟩, hearlier⟩
  rw [List.flatMap_append, List.flatMap_cons, List.filter_append, List.filter_append, hself,
    hother earlier, hother later, List.nil_append, List.append_nil]
  · intro v hv
    refine ⟨List.mem_append_right _ (List.mem_cons_of_mem u hv), ?_⟩
    rintro rfl
    exact hlater hv
  · intro v hv
    exact ⟨List.mem_append_left _ hv, hearlier v hv u List.mem_cons_self⟩

/-- Rows are counted by the names of their tables. -/
theorem length_rowsFor {name : String} {xs : List (String × Row)} {ws : List Store.Writing}
    (h : xs.map Prod.fst = ws.map fun w => w.table.name) :
    (rowsFor name xs).length = (ws.filter fun w => Ascii.sameName w.table.name name).length := by
  have hxs : (rowsFor name xs).length =
      ((xs.map Prod.fst).filter fun n => Ascii.sameName n name).length := by
    rw [rowsFor, List.length_map, List.filter_map, List.length_map]
    rfl
  rw [hxs, h, List.filter_map, List.length_map]
  rfl

/-- Before a row of a branch is written there are fewer rows of its table than elements. -/
theorem length_rowsFor_lt (hsound : s.Sound) {entries : Entries Tree} {u : String × Table}
    (hu : u ∈ s.secondaryTables) {done rest : List Store.Writing} {w : Store.Writing}
    (hsplit : (s.secondaryTables.flatMap fun v =>
      (s.branch v).writings (Entries.get? entries v.1)) = done ++ w :: rest)
    {items : List Tree} (helements : (s.branch u).elements (Entries.get? entries u.1) = .ok items)
    (hname : w.table.name = u.1) {xs : List (String × Row)}
    (hxs : xs.map Prod.fst = done.map fun w => w.table.name) :
    (rowsFor u.1 xs).length < (Tree.elements (Entries.get? entries u.1)).length := by
  have hfilter := filter_writings hsound entries hu
  rw [hsplit, List.filter_append, List.filter_cons, hname, if_pos (Ascii.sameName_refl u.1),
    Store.Branch.writings, helements] at hfilter
  have hlength := congrArg List.length hfilter
  rw [List.length_append, List.length_cons, List.length_map] at hlength
  rw [length_rowsFor hxs, ← Store.Branch.elements_eq helements]
  omega

/-! ## The course of an insertion -/

/-- After the main row, a row of a branch whose values pass can be written. -/
theorem Tended.write_after_main (hsound : s.Sound) (h : s.Tended db) (hfurnished : s.Furnished db)
    {entries : Entries Tree} (hroom : s.HasRoom db (.map entries)) {done rest : List Store.Writing}
    {w : Store.Writing} {q : Store.Progress}
    (hsplit : (s.secondaryTables.flatMap fun v =>
      (s.branch v).writings (Entries.get? entries v.1)) = done ++ w :: rest)
    (hdone : Store.Written ⟨none, db⟩
      (⟨s.mainPlan, s.mainPlan.encodeEntries entries⟩ :: done) q)
    {cells : List Cell} (hcells : w.cells = .ok cells) : ∃ q', w.write q = .ok q' := by
  have hws : ∀ w' ∈ done ++ w :: rest, ∃ u ∈ s.secondaryTables,
      w' ∈ (s.branch u).writings (Entries.get? entries u.1) := by
    rw [← hsplit]
    exact fun w' hw' => List.mem_flatMap.1 hw'
  obtain ⟨id, cells', xs, hparent, hr, hsown, hnames, htended⟩ :=
    h.sown_document hsound (fun w' hw' => hws w' (List.mem_append_left _ hw')) hdone
  rcases hws w (List.mem_append_right _ List.mem_cons_self) with ⟨u, hu, hw⟩
  obtain ⟨items, item, helements, rfl⟩ := Store.Branch.exists_item hw hcells
  have hlength : cells.length = u.2.dataFields.length := by
    rw [length_encode hcells]
    simp [branch, branchPlan]
  have hfurnished' : s.Furnished q.db := fun v hv =>
    (hsown.isSome_table? v.1).trans (hfurnished v hv)
  -- The rows so far have left a number for this one.
  have hcount := length_rowsFor_lt hsound hu hsplit helements rfl hnames
  have hroom' : q.db.counterOf u.1 < Int64.maxValue.toInt := by
    have hbranch : db.counterOf u.1 + (Tree.elements (Entries.get? entries u.1)).length ≤
        Int64.maxValue.toInt := hroom.branches u hu
    rw [hsown.counterOf, rowsFor_cons, sameName_main hsound hu, if_neg Bool.false_ne_true,
      List.nil_append]
    omega
  refine Store.Writing.exists_write hcells ?_
  rw [hparent]
  exact htended.takes_branch hsound hfurnished' hu hroom' hr hlength

/-- In the course of an insertion every row whose values pass can be written. -/
theorem Tended.write_next (hsound : s.Sound) (h : s.Tended db) (hfurnished : s.Furnished db)
    {tree : Tree} (hroom : s.HasRoom db tree) {done rest : List Store.Writing} {w : Store.Writing}
    {q : Store.Progress} (hsplit : s.plan.writings tree = done ++ w :: rest)
    (hdone : Store.Written ⟨none, db⟩ done q) {cells : List Cell} (hcells : w.cells = .ok cells) :
    ∃ q', w.write q = .ok q' := by
  cases tree with
  | map entries =>
    rw [Store.Plan.writings_map] at hsplit
    cases done with
    | nil =>
      rcases List.cons.inj hsplit with ⟨rfl, -⟩
      rcases Store.written_nil_iff.1 hdone with rfl
      have hlength : cells.length = s.mainFields.length := by
        rw [length_encodeEntries hcells]
        simp [mainPlan]
      have hmain := hroom.main
      exact Store.Writing.exists_write hcells (h.takes_main hsound hfurnished (by omega) hlength)
    | cons d done =>
      rw [List.cons_append, List.cons.injEq] at hsplit
      rcases hsplit with ⟨rfl, hsplit⟩
      exact h.write_after_main hsound hfurnished hroom hsplit hdone hcells
  | _ =>
    -- What is no mapping has a single row, and that one is refused.
    have hmem : w ∈ done ++ w :: rest := List.mem_append_right _ List.mem_cons_self
    rw [← hsplit] at hmem
    rw [List.mem_singleton.1 hmem] at hcells
    cases hcells

end Schema

namespace Store

/-! ## Only checks refuse -/

/-- What is written was not refused. -/
theorem Written.refusal?_eq_none {p q : Progress} {ws : List Writing} (h : Written p ws q) :
    ∀ w ∈ ws, w.refusal? = none := by
  induction h with
  | nil =>
    intro w hw
    cases hw
  | cons hfirst _ ih =>
    rcases Writing.write_eq_ok.1 hfirst with ⟨cells, n, hcells, -, -⟩
    rw [List.forall_mem_cons, Writing.refusal?, hcells]
    exact ⟨rfl, ih⟩

/-- An insertion fails with the first refusal of a check, and otherwise succeeds. -/
theorem error?_insert {s : Store} {db : Database} (h : s.schema.Tended db)
    (hfurnished : s.schema.Furnished db) {tree : Tree} (hroom : s.schema.HasRoom db tree) :
    Outcome.error? ((s.insert tree).result db) =
      (s.plan.writings tree).findSome? Writing.refusal? := by
  rcases s.run_insert tree db with ⟨hok, herror⟩
  cases hresult : (s.insert tree).result db with
  | ok id =>
    have hwritten := (hok id _).1 (Prod.ext hresult rfl)
    exact (List.findSome?_eq_none_iff.2 hwritten.refusal?_eq_none).symm
  | error f =>
    obtain ⟨done, w, rest, q, cause, hsplit, hdone, hfail, rfl⟩ := herror f hresult
    cases hcells : w.cells with
    | ok cells =>
      -- The database would have taken the row.
      rw [s.plan_eq] at hsplit
      obtain ⟨q', hwrite⟩ :=
        h.write_next s.schema_sound hfurnished hroom hsplit hdone hcells
      rw [hfail] at hwrite
      cases hwrite
    | error cause' =>
      have hcause : w.write q = .error cause' := by
        rw [Writing.write, Writing.store, hcells]
        rfl
      obtain rfl : cause = cause' := Except.error.inj (hfail.symm.trans hcause)
      have hnone := List.findSome?_eq_none_iff.2 hdone.refusal?_eq_none
      have hfirst : w.refusal? = some (w.table.insertFailure cause) := by
        rw [Writing.refusal?, hcells]
        rfl
      rw [hsplit, List.findSome?_append, hnone, List.findSome?_cons, hfirst]
      rfl

/--
After a provision that succeeded, whatever came before it and after it, a document is inserted
exactly if it conforms to the schema, as long as numbers are left for its rows.  A document that
does not conform is refused for its first violation, never for a constraint of the database.
-/
theorem insert_admits (s : Store) (checked : Bool) (before later : List Step) (tree : Tree)
    (hprovision : s.provision.result (s.reached { checked } before) = .ok ())
    (hroom : s.schema.HasRoom (s.reached { checked } (before ++ .provision :: later)) tree) :
    ((∃ id, (s.insert tree).result (s.reached { checked } (before ++ .provision :: later)) =
        .ok id) ↔ s.schema.Conforms tree) ∧
      (¬ s.schema.Conforms tree → ∃ v rest, s.schema.violations tree = v :: rest ∧
        (s.insert tree).result (s.reached { checked } (before ++ .provision :: later)) =
          .error v.failure) := by
  -- The insertion fails with the head of the violations, if there is one.
  have herror := error?_insert (s.keeps_reached_empty checked _).tended
    (s.furnished_reached checked before later hprovision) hroom
  rw [← s.head?_violations] at herror
  cases hviolations : s.schema.violations tree with
  | nil =>
    have hconforms := Schema.violations_eq_nil.1 hviolations
    rw [hviolations] at herror
    exact ⟨iff_of_true (Outcome.error?_eq_none.1 herror) hconforms, fun h => absurd hconforms h⟩
  | cons v rest =>
    have hnot : ¬ s.schema.Conforms tree := by
      intro hconforms
      rw [Schema.violations_eq_nil.2 hconforms] at hviolations
      cases hviolations
    rw [hviolations] at herror
    have hresult := Outcome.error?_eq_some.1 herror
    refine ⟨iff_of_false ?_ hnot, fun _ => ⟨v, rest, rfl, hresult⟩⟩
    rintro ⟨id, hid⟩
    rw [hresult] at hid
    cases hid

/-- A plant with two tags and three leaves, of which two are wrong. -/
def frayedPlant : Tree :=
  .map [("tags", .seq [.text "green", .null]),
    ("leaves", .seq [.map [("count", .int 3)], .map [("count", .text "four")], .int 5])]

/-- Of the wrong leaves the first is reported, although four rows were written before it. -/
theorem insert_admits_plants :
    plants.schema.violations frayedPlant =
        [.type "leaves" "count" .integer "string", .shape "leaves" .mapping "integer"] ∧
      (plants.insert frayedPlant).result (plants.reached {}
          [.provision, .insert (.map [("height", .int 3)]), .delete "plant" 1]) =
        .error (.query .insert "leaves" (.typeMismatch "count" .integer "string")) := by
  have hviolations : plants.schema.violations frayedPlant =
      [.type "leaves" "count" .integer "string", .shape "leaves" .mapping "integer"] := by
    decide +kernel
  have hnot : ¬ plants.schema.Conforms frayedPlant := by
    intro hconforms
    rw [Schema.violations_eq_nil.2 hconforms] at hviolations
    cases hviolations
  obtain ⟨v, rest, hfirst, hresult⟩ := (insert_admits plants true []
    [.insert (.map [("height", .int 3)]), .delete "plant" 1] frayedPlant (by decide +kernel)
    ⟨by decide +kernel, by decide +kernel⟩).2 hnot
  rw [hviolations] at hfirst
  rcases List.cons.inj hfirst with ⟨rfl, -⟩
  exact ⟨hviolations, hresult⟩

end Store
end Espalier
