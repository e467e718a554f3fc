import Espalier.Proofs.Database.Rows
import Espalier.Proofs.Store.Layout

/-!
# Growing a document

What a document that was grown is made of: the decoded main row, and for each branch the decoded
rows that refer to it, put under the name of the branch.  Reading changes no database, so the parts
are all taken from one and the same.
-/

namespace Espalier

open Database (Action Cell)

/-! ## Selections -/

namespace Database

/-- What the selection of a main row answers. -/
theorem selectMain_eq {db : Database} {name : String} {t : Table} (ht : db.table? name = some t)
    (columns : List String) (argument : Cell) :
    db.select (Store.TablePlan.selectMain name columns) [argument] =
      .ok ((t.rows.filter (t.holds idColumn argument)).map fun r =>
        (idColumn :: columns).map fun n => (t.operand n).value r) := by
  have htable : db.table name = .ok t := table_eq_ok.2 ht
  simp only [select, Store.TablePlan.selectMain, htable]
  rfl

/-- What the selection of the rows of a branch answers. -/
theorem selectSecondary_eq {db : Database} {name : String} {t : Table}
    (ht : db.table? name = some t) (columns : List String) (argument : Cell) :
    db.select (Store.TablePlan.selectSecondary name columns) [argument] =
      .ok ((t.sorted idColumn (t.rows.filter (t.holds parentColumn argument))).map fun r =>
        (if columns.isEmpty then [idColumn] else columns).map fun n => (t.operand n).value r) := by
  have htable : db.table name = .ok t := table_eq_ok.2 ht
  simp only [select, Store.TablePlan.selectSecondary, htable]
  rfl

/-- What can be selected from is there. -/
theorem exists_of_select {db : Database} {s : Sql.Select} {arguments : List Cell}
    {rows : List (List Cell)} (h : db.select s arguments = .ok rows) :
    ∃ t, db.table? s.table = some t := by
  rcases Outcome.bind_eq_ok.1 h with ⟨t, ht, -⟩
  exact ⟨t, table_eq_ok.1 ht⟩

end Database

namespace Schema

/-- A list has the column of its elements. -/
theorem checkValue_branch {s : Schema} (hsound : s.Sound) {u : String × Table}
    (hu : u ∈ s.secondaryTables) : (s.branch u).checkValue = .ok () := by
  unfold Store.Branch.checkValue
  cases hlist : u.2.isList with
  | true =>
    have hshape := (hsound.tables u (mem_secondaryTables.1 hu).1).shape hlist
    rcases Option.isSome_iff_exists.1 hshape.1 with ⟨f, hf⟩
    simp [branch, branchPlan, hlist, Table.dataFields, hf, Store.TablePlan.valueColumn, Except.map]
  | false => simp [branch, hlist]

end Schema

namespace Store

/-! ## Reading -/

theorem Branch.reads_grow (b : Branch) (id : Int64) : (b.grow id).Reads := by
  refine ((Action.reads_select _ _).reporting _).bind fun rows => ?_
  cases b.checkValue with
  | error e => exact Action.reads_throw _
  | ok _ =>
    dsimp only
    cases rows.mapM b.decode with
    | ok items => exact Action.reads_pure items
    | error cause => exact Action.reads_throw _

theorem Plan.reads_growTree (p : Plan) (id : Int64) : (p.growTree id).Reads := by
  refine ((Action.reads_select _ _).reporting _).bind fun rows => ?_
  cases rows with
  | nil => exact Action.reads_throw _
  | cons row rest =>
    dsimp only
    cases p.main.decodeMain row with
    | error cause => exact Action.reads_throw _
    | ok trunk =>
      exact Action.reads_foldlM fun entries b =>
        (b.reads_grow id).bind fun items => Action.reads_pure _

/-- The elements of a branch are its decoded rows. -/
theorem Branch.grow_eq_ok {b : Branch} (hb : b.checkValue = .ok ()) {id : Int64} {db : Database}
    {items : List Tree} :
    (b.grow id).result db = .ok items ↔
      ∃ rows, db.select b.table.select [.int id] = .ok rows ∧ rows.mapM b.decode = .ok items := by
  rw [Branch.grow, ((Action.reads_select _ _).reporting _).bind_eq_ok]
  refine exists_congr fun rows => ?_
  rw [Action.result_reporting_eq_ok, hb]
  refine and_congr Iff.rfl ?_
  dsimp only
  cases hrows : rows.mapM b.decode with
  | ok items' =>
    constructor
    · intro h
      cases h
      rfl
    · intro h
      cases h
      rfl
  | error cause =>
    constructor
    · intro h
      cases h
    · intro h
      cases h

/-- Branches are put under their names one after the other. -/
theorem result_foldlM_branches {id : Int64} {db : Database} {branches : List Branch}
    {trunk entries : Entries Tree} :
    Action.result (branches.foldlM (fun entries b => do
        let items ← b.grow id
        return Entries.put entries b.table.name (.seq items)) trunk) db = .ok entries ↔
      ∃ grown, List.Forall₂ (fun b items => (b.grow id).result db = .ok items) branches grown ∧
        entries = Entries.merge trunk
          ((branches.zip grown).map fun x => (x.1.table.name, .seq x.2)) := by
  -- Induction over the branches, for every trunk that the ones before may have left.
  induction branches generalizing trunk with
  | nil =>
    rw [List.foldlM_nil]
    constructor
    · intro h
      cases h
      exact ⟨[], .nil, rfl⟩
    · rintro ⟨grown, hgrown, rfl⟩
      cases hgrown
      rfl
  | cons b branches ih =>
    rw [List.foldlM_cons, ((b.reads_grow id).bind fun items => Action.reads_pure _).bind_eq_ok]
    constructor
    · rintro ⟨entries', hfirst, hrest⟩
      rcases (b.reads_grow id).bind_eq_ok.1 hfirst with ⟨items, hitems, hput⟩
      rcases ih.1 hrest with ⟨grown, hgrown, rfl⟩
      cases hput
      exact ⟨items :: grown, .cons hitems hgrown, rfl⟩
    · rintro ⟨grown, hgrown, rfl⟩
      cases hgrown with
      | cons hitems hgrown =>
        exact ⟨_, (b.reads_grow id).bind_eq_ok.2 ⟨_, hitems, rfl⟩, ih.2 ⟨_, hgrown, rfl⟩⟩

/-- A grown document is its decoded main row with the elements of every branch. -/
theorem Plan.growTree_eq_ok {p : Plan} {id : Int64} {db : Database} {entries : Entries Tree} :
    (p.growTree id).result db = .ok entries ↔
      ∃ row rest trunk grown, db.select p.main.select [.int id] = .ok (row :: rest) ∧
        p.main.decodeMain row = .ok trunk ∧
        List.Forall₂ (fun b items => (b.grow id).result db = .ok items) p.branches grown ∧
        entries = Entries.merge trunk
          ((p.branches.zip grown).map fun x => (x.1.table.name, .seq x.2)) := by
  rw [Plan.growTree, ((Action.reads_select _ _).reporting _).bind_eq_ok]
  constructor
  -- Only the first row counts; without one the document is not found.
  · rintro ⟨rows, hrows, h⟩
    have hselect := Action.result_reporting_eq_ok.1 hrows
    cases rows with
    | nil => cases h
    | cons row rest =>
      dsimp only at h
      cases hrow : p.main.decodeMain row with
      | error cause =>
        rw [hrow] at h
        cases h
      | ok trunk =>
        rw [hrow] at h
        rcases result_foldlM_branches.1 h with ⟨grown, hgrown, hentries⟩
        exact ⟨row, rest, trunk, grown, hselect, hrow, hgrown, hentries⟩
  · rintro ⟨row, rest, trunk, grown, hselect, hrow, hgrown, hentries⟩
    refine ⟨row :: rest, Action.result_reporting_eq_ok.2 hselect, ?_⟩
    dsimp only
    rw [hrow]
    exact result_foldlM_branches.2 ⟨grown, hgrown, hentries⟩

/-! ## Rows -/

/-- Decoded data columns keep their names. -/
theorem TablePlan.keys_decodeEntries {t : TablePlan} {cells : List Cell} {entries : Entries Tree}
    (h : t.decodeEntries cells = .ok entries) (hlength : cells.length = t.columns.length) :
    Entries.keys entries = t.columns.map DataColumn.name := by
  have hkeys : ∀ {pairs : List (DataColumn × Cell)} {entries : Entries Tree},
      List.Forall₂ (fun x entry => (do
        let value ← x.1.codec.decode x.2
        return (x.1.name, value)) = (.ok entry : Except Cause (String × Tree))) pairs entries →
      Entries.keys entries = pairs.map fun x => x.1.name := by
    intro pairs entries hrow
    -- Each decoded entry carries the name of its column.
    induction hrow with
    | nil => rfl
    | cons hentry _ ih =>
      rcases Outcome.bind_eq_ok.1 hentry with ⟨value, -, hvalue⟩
      cases hvalue
      rw [List.map_cons, ← ih]
      rfl
  have hzip : (t.columns.zip cells).map Prod.fst = t.columns :=
    List.map_fst_zip (by omega)
  calc
    Entries.keys entries = (t.columns.zip cells).map (fun x => x.1.name) :=
      hkeys (Outcome.mapM_eq_ok.1 h)
    _ = ((t.columns.zip cells).map Prod.fst).map DataColumn.name := by rw [List.map_map]; rfl
    _ = t.columns.map DataColumn.name := by rw [hzip]

/-- The entries of a main row begin with the number that stands first in it. -/
theorem TablePlan.decodeMain_eq_ok {t : TablePlan} {row : List Cell} {trunk : Entries Tree}
    (h : t.decodeMain row = .ok trunk) :
    ∃ id cells entries, row = .int id :: cells ∧ t.decodeEntries cells = .ok entries ∧
      trunk = Entries.merge [(idColumn, .int id)] entries := by
  unfold TablePlan.decodeMain at h
  split at h
  · rename_i id cells
    rcases Outcome.bind_eq_ok.1 h with ⟨entries, hentries, htrunk⟩
    cases htrunk
    exact ⟨id, cells, entries, rfl, hentries, rfl⟩
  · cases h

end Store
end Espalier
