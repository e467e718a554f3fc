import Espalier.Proofs.Database.Rows
import Espalier.Proofs.Store.Planning

/-!
# A document as a list of rows to write

An insertion checks and writes one row after the other: the main row first, then the rows of each
branch in the order of the schema.  `Plan.writings` is that list, made from the document alone, and
`run_insertTree` says that inserting a document is writing the list up to the first writing that
fails.
-/

namespace Espalier

open Database (Action Cell)

namespace Store

/-! ## Writings -/

/-- A row to be written: its table, and the values of the data columns unless a check refuses
them. -/
structure Writing where
  table : TablePlan
  cells : Except Cause (List Cell)

/-- How far an insertion has come: the id of the main row, once it is there, and the database. -/
structure Progress where
  parent : Option Int64
  db : Database

namespace Writing

def store (w : Writing) (parent : Option Int64) (db : Database) :
    Except Cause (Int64 × Database) :=
  match w.cells with
  | .error cause => .error cause
  | .ok cells =>
    (db.insert w.table.insert (parent.toList.map Cell.int ++ cells)).mapError Cause.database

/-- Writes one row; the first row written gives the id that all others refer to. -/
def write (w : Writing) (p : Progress) : Except Cause Progress :=
  (w.store p.parent p.db).map fun x => ⟨some (p.parent.getD x.1), x.2⟩

def act (w : Writing) (parent : Option Int64) : Action Failure Int64 :=
  match w.cells with
  | .ok cells => w.table.insertCells parent cells
  | .error cause => throw (w.table.insertFailure cause)

/-- An insertion stores its row or fails under the name of its table. -/
theorem run_act (w : Writing) (parent : Option Int64) (db : Database) :
    (w.act parent).run db =
      match w.store parent db with
      | .ok (n, db') => (.ok n, db')
      | .error cause => (.error (w.table.insertFailure cause), db) := by
  unfold act store
  cases w.cells with
  | error cause => rfl
  | ok cells =>
    dsimp only
    rw [TablePlan.insertCells, Action.run_reporting, Action.insert, Action.run_change]
    cases db.insert w.table.insert (parent.toList.map Cell.int ++ cells) <;> rfl

/-- A row is written if its values pass and the database takes them. -/
theorem write_eq_ok {w : Writing} {p q : Progress} :
    w.write p = .ok q ↔ ∃ cells n, w.cells = .ok cells ∧
      p.db.insert w.table.insert (p.parent.toList.map Cell.int ++ cells) = .ok (n, q.db) ∧
      q.parent = some (p.parent.getD n) := by
  rcases q with ⟨parent, db⟩
  rw [write, Outcome.map_eq_ok, store]
  constructor
  · rintro ⟨⟨n, db'⟩, hstore, hq⟩
    cases hq
    cases hcells : w.cells with
    | error cause =>
      rw [hcells] at hstore
      cases hstore
    | ok cells =>
      rw [hcells] at hstore
      exact ⟨cells, n, rfl, Outcome.mapError_eq_ok.1 hstore, rfl⟩
  · rintro ⟨cells, n, hcells, hinsert, hparent⟩
    rw [hcells]
    exact ⟨(n, db), Outcome.mapError_eq_ok.2 hinsert, congrArg (Progress.mk · db) hparent.symm⟩

/-- A row can be written if its values pass and the database takes them. -/
theorem exists_write {w : Writing} {p : Progress} {cells : List Cell} (hcells : w.cells = .ok cells)
    (h : ∃ n db', p.db.insert w.table.insert (p.parent.toList.map Cell.int ++ cells) =
      .ok (n, db')) : ∃ q, w.write p = .ok q := by
  rcases h with ⟨n, db', hinsert⟩
  exact ⟨⟨some (p.parent.getD n), db'⟩, write_eq_ok.2 ⟨cells, n, hcells, hinsert, rfl⟩⟩

end Writing

/-- Writings that succeed one after the other. -/
inductive Written : Progress → List Writing → Progress → Prop where
  | nil (p : Progress) : Written p [] p
  | cons {p q r : Progress} {w : Writing} {ws : List Writing} :
      w.write p = .ok q → Written q ws r → Written p (w :: ws) r

/-- Of the writings, some succeed and the next one fails; the failure names its table. -/
def FailsFirst (p : Progress) (ws : List Writing) (f : Failure) : Prop :=
  ∃ done w rest q cause, ws = done ++ w :: rest ∧ Written p done q ∧
    w.write q = .error cause ∧ f = .query .insert w.table.name cause

/-- A writing that fails is the first to do so if it comes first. -/
theorem FailsFirst.head {p : Progress} {w : Writing} {ws : List Writing} {cause : Cause}
    (h : w.write p = .error cause) :
    FailsFirst p (w :: ws) (.query .insert w.table.name cause) :=
  ⟨[], w, ws, p, cause, rfl, .nil p, h, rfl⟩

/-- What fails first after a writing fails first behind it. -/
theorem FailsFirst.cons {p q : Progress} {w : Writing} {ws : List Writing} {f : Failure}
    (hw : w.write p = .ok q) (h : FailsFirst q ws f) : FailsFirst p (w :: ws) f := by
  rcases h with ⟨done, v, rest, r, cause, rfl, hdone, hfail, hf⟩
  exact ⟨w :: done, v, rest, r, cause, rfl, .cons hw hdone, hfail, hf⟩

theorem written_nil_iff {p r : Progress} : Written p [] r ↔ r = p := by
  constructor
  · intro h
    cases h
    rfl
  · rintro rfl
    exact .nil r

/-- Writings are done one after another. -/
theorem written_cons_iff {p r : Progress} {w : Writing} {ws : List Writing} :
    Written p (w :: ws) r ↔ ∃ q, w.write p = .ok q ∧ Written q ws r := by
  constructor
  · intro h
    cases h with
    | cons hw hws => exact ⟨_, hw, hws⟩
  · rintro ⟨q, hw, hws⟩
    exact .cons hw hws

theorem written_append_iff {p r : Progress} {vs ws : List Writing} :
    Written p (vs ++ ws) r ↔ ∃ q, Written p vs q ∧ Written q ws r := by
  induction vs generalizing p with
  | nil => simp [written_nil_iff]
  | cons v vs ih =>
    rw [List.cons_append, written_cons_iff]
    simp only [ih, written_cons_iff]
    constructor
    · rintro ⟨q, hv, q', hvs, hws⟩
      exact ⟨q', ⟨q, hv, hvs⟩, hws⟩
    · rintro ⟨q', ⟨q, hv, hvs⟩, hws⟩
      exact ⟨q, hv, q', hvs, hws⟩

/-- Once there is an id it stays. -/
theorem Written.parent_eq {p q : Progress} {ws : List Writing} (h : Written p ws q) {id : Int64}
    (hp : p.parent = some id) : q.parent = some id := by
  induction h with
  | nil => exact hp
  | cons hw _ ih =>
    rcases Writing.write_eq_ok.1 hw with ⟨cells, n, -, -, hparent⟩
    exact ih (by rw [hparent, hp]; rfl)

/-! ## The rows of a document -/

/-- The values for an element of a branch.  The one column of a list takes the element itself. -/
def Branch.encode (b : Branch) (element : Tree) : Except Cause (List Cell) :=
  match b.kind, element with
  | .list, element => b.table.columns.mapM fun c => c.codec.encode c.name element
  | .object, .map entries => b.table.encodeEntries entries
  | .object, other => .error (.shape .mapping other.kind)

/-- The rows of a branch, or the one refusal of what is not the branch's shape. -/
def Branch.writings (b : Branch) (value : Option Tree) : List Writing :=
  match b.elements value with
  | .ok items => items.map fun item => ⟨b.table, b.encode item⟩
  | .error cause => [⟨b.table, .error cause⟩]

/-- All that a branch writes goes into its table. -/
theorem Branch.table_of_mem_writings {b : Branch} {value : Option Tree} {w : Writing}
    (hw : w ∈ b.writings value) : w.table = b.table := by
  unfold Branch.writings at hw
  split at hw
  · rcases List.mem_map.1 hw with ⟨item, -, rfl⟩
    rfl
  · rw [List.mem_singleton.1 hw]

/-- A row of a branch whose values pass is that of an element. -/
theorem Branch.exists_item {b : Branch} {value : Option Tree} {w : Writing}
    (hw : w ∈ b.writings value) {cells : List Cell} (hcells : w.cells = .ok cells) :
    ∃ items item, b.elements value = .ok items ∧ w = ⟨b.table, b.encode item⟩ := by
  unfold Branch.writings at hw
  split at hw
  · rename_i items helements
    rcases List.mem_map.1 hw with ⟨item, -, rfl⟩
    exact ⟨items, item, helements, rfl⟩
  · rw [List.mem_singleton.1 hw] at hcells
    cases hcells

def Plan.writings (p : Plan) (tree : Tree) : List Writing :=
  match tree with
  | .map entries =>
    ⟨p.main, p.main.encodeEntries entries⟩ ::
      p.branches.flatMap fun b => b.writings (Entries.get? entries b.table.name)
  | other => [⟨p.main, .error (.shape .mapping other.kind)⟩]

/-- The rows of a mapping: that of the main table, then those of the secondary tables in order. -/
theorem Plan.writings_map (s : Schema) (entries : Entries Tree) :
    s.plan.writings (.map entries) =
      ⟨s.mainPlan, s.mainPlan.encodeEntries entries⟩ ::
        s.secondaryTables.flatMap fun u => (s.branch u).writings (Entries.get? entries u.1) :=
  congrArg (List.cons _) (List.flatMap_map _ _ _)

/-- Branches whose lists have the one column that they need. -/
def Plan.Regular (p : Plan) : Prop :=
  ∀ b ∈ p.branches, b.kind = .list → ∃ c, b.table.columns = [c]

theorem regular_plan (s : Store) : s.plan.Regular := by
  rw [plan_eq]
  intro b hb hlist
  rcases List.mem_map.1 hb with ⟨u, hu, rfl⟩
  have hu' := (Schema.mem_secondaryTables.1 hu).1
  -- Validation gives every list its value field, and a list has no other data.
  have hisList : u.2.isList = true := by
    by_contra hnot
    simp [Schema.branch, hnot] at hlist
  rcases (s.schema_sound.tables u hu').shape hisList with ⟨hvalue, -⟩
  rcases Option.isSome_iff_exists.1 hvalue with ⟨f, hf⟩
  refine ⟨f.dataColumn, ?_⟩
  simp [Schema.branch, Schema.branchPlan, Table.dataFields, hisList, hf]

/-! ## Insertions as writings -/

theorem Branch.insertElement_eq {b : Branch} (hb : b.kind = .list → ∃ c, b.table.columns = [c])
    (parent : Int64) (element : Tree) :
    b.insertElement parent element =
      (Writing.mk b.table (b.encode element)).act (some parent) := by
  -- A list of the plan has its one column, so the element is what that column takes.
  unfold Branch.insertElement Branch.encode Writing.act
  cases hkind : b.kind with
  | list =>
    rcases hb hkind with ⟨c, hc⟩
    simp only [TablePlan.insertElement, TablePlan.valueColumn, hc, List.mapM_cons, List.mapM_nil]
    cases c.codec.encode c.name element <;> rfl
  | object => cases element <;> rfl

/-- A branch inserts what its writings are, in their order. -/
theorem Branch.insert_eq {b : Branch} (hb : b.kind = .list → ∃ c, b.table.columns = [c])
    (parent : Int64) (value : Option Tree) :
    b.insert parent value = (b.writings value).forM fun w => discard (w.act (some parent)) := by
  unfold Branch.insert Branch.writings
  cases b.elements value with
  | ok items =>
    simp only [List.forM_eq_forM, List.forM_map, Branch.insertElement_eq hb]
  | error cause => rfl

/-- The branches one after the other are their rows one after the other. -/
theorem Branch.forM_insert_eq {bs : List Branch}
    (hbs : ∀ b ∈ bs, b.kind = .list → ∃ c, b.table.columns = [c]) (id : Int64)
    (entries : Entries Tree) :
    (bs.forM fun b => b.insert id (Entries.get? entries b.table.name)) =
      (bs.flatMap fun b => b.writings (Entries.get? entries b.table.name)).forM
        fun w => discard (w.act (some id)) := by
  induction bs with
  | nil => rfl
  | cons b bs ih =>
    have hrest := ih fun c hc => hbs c (List.mem_cons_of_mem b hc)
    rw [List.forM_eq_forM] at hrest ⊢
    rw [List.forM_cons, List.flatMap_cons, List.forM_eq_forM, List.forM_append, hrest,
      Branch.insert_eq (hbs b List.mem_cons_self)]
    rfl

/-- A plan inserts the main row and then what its branches write. -/
theorem Plan.insertTree_eq {p : Plan} (hp : p.Regular) (entries : Entries Tree) :
    p.insertTree entries = (do
      let id ← (Writing.mk p.main (p.main.encodeEntries entries)).act none
      (p.branches.flatMap fun b => b.writings (Entries.get? entries b.table.name)).forM
        fun w => discard (w.act (some id))
      return id) := by
  unfold Plan.insertTree
  simp only [Branch.forM_insert_eq hp]
  rfl

/-- Carrying out the writings after the main row is writing them up to the first that fails. -/
theorem run_forM_act (id : Int64) (ws : List Writing) (db : Database) :
    (∀ db', Action.run (ws.forM fun w => discard (w.act (some id))) db = (.ok (), db') ↔
      Written ⟨some id, db⟩ ws ⟨some id, db'⟩) ∧
    ∀ f, (Action.run (ws.forM fun w => discard (w.act (some id))) db).1 = .error f →
      FailsFirst ⟨some id, db⟩ ws f := by
  -- Induction over the writings, for every database that the ones before may have left.
  induction ws generalizing db with
  | nil =>
    constructor
    · intro db'
      rw [written_nil_iff]
      constructor
      · intro h
        cases h
        rfl
      · intro h
        cases h
        rfl
    · intro f h
      cases h
  | cons w ws ih =>
    rw [List.forM_eq_forM, List.forM_cons, Action.run_bind, Action.run_discard, Writing.run_act]
    cases hw : w.store (some id) db with
    | error cause =>
      have hwrite : w.write ⟨some id, db⟩ = .error cause := by rw [Writing.write, hw]; rfl
      constructor
      · intro db'
        rw [written_cons_iff, hwrite]
        constructor
        · intro h
          cases h
        · rintro ⟨q, hq, -⟩
          cases hq
      · intro f h
        cases h
        exact .head hwrite
    | ok x =>
      have hwrite : w.write ⟨some id, db⟩ = .ok ⟨some id, x.2⟩ := by rw [Writing.write, hw]; rfl
      rcases ih x.2 with ⟨hok, herror⟩
      rw [List.forM_eq_forM] at hok herror
      constructor
      · intro db'
        rw [written_cons_iff, hwrite]
        refine (hok db').trans ⟨fun h => ⟨_, rfl, h⟩, ?_⟩
        rintro ⟨q, hq, h⟩
        cases hq
        exact h
      · intro f h
        exact (herror f h).cons hwrite

/-- Inserting a document is writing its rows up to the first that fails. -/
theorem run_insertTree {p : Plan} (hp : p.Regular) (entries : Entries Tree) (db : Database) :
    (∀ id db', (p.insertTree entries).run db = (.ok id, db') ↔
      Written ⟨none, db⟩ (p.writings (.map entries)) ⟨some id, db'⟩) ∧
    ∀ f, ((p.insertTree entries).run db).1 = .error f →
      FailsFirst ⟨none, db⟩ (p.writings (.map entries)) f := by
  obtain ⟨w, hw⟩ : ∃ w : Writing, w = ⟨p.main, p.main.encodeEntries entries⟩ := ⟨_, rfl⟩
  obtain ⟨ws, hws⟩ : ∃ ws, ws = p.branches.flatMap fun b =>
      b.writings (Entries.get? entries b.table.name) := ⟨_, rfl⟩
  have hall : p.writings (.map entries) = w :: ws := by rw [hw, hws]; rfl
  rw [Plan.insertTree_eq hp, ← hw, ← hws, hall, Action.run_bind, Writing.run_act]
  cases hstore : w.store none db with
  | error cause =>
    have hwrite : w.write ⟨none, db⟩ = .error cause := by rw [Writing.write, hstore]; rfl
    constructor
    · intro id db'
      rw [written_cons_iff, hwrite]
      constructor
      · intro h
        cases h
      · rintro ⟨q, hq, -⟩
        cases hq
    · intro f h
      cases h
      exact .head hwrite
  | ok x =>
    have hwrite : w.write ⟨none, db⟩ = .ok ⟨some x.1, x.2⟩ := by rw [Writing.write, hstore]; rfl
    rcases run_forM_act x.1 ws x.2 with ⟨hok, herror⟩
    dsimp only
    rw [Action.run_bind]
    constructor
    · intro id db'
      rw [written_cons_iff, hwrite]
      constructor
      · intro h
        rcases hrest : Action.run (ws.forM fun v => discard (v.act (some x.1))) x.2 with
          ⟨e | u, db''⟩
        · rw [hrest] at h
          cases h
        · rw [hrest] at h
          cases h
          exact ⟨_, rfl, (hok db').1 hrest⟩
      · rintro ⟨q, hq, h⟩
        cases hq
        -- The id is the number of the first row, and no later row changes it.
        obtain rfl : id = x.1 := Option.some.inj (h.parent_eq rfl)
        rw [(hok db').2 h]
        rfl
    · intro f h
      rcases hrest : Action.run (ws.forM fun v => discard (v.act (some x.1))) x.2 with
        ⟨e | u, db''⟩
      · rw [hrest] at h
        cases h
        exact (herror _ (congrArg Prod.fst hrest)).cons hwrite
      · rw [hrest] at h
        cases h

/-- What is no mapping is refused before anything is written. -/
theorem writings_of_root_error {p : Plan} {tree : Tree} {f : Failure} (h : p.root tree = .error f) :
    ∃ cause, p.writings tree = [⟨p.main, .error cause⟩] ∧ f = .query .insert p.main.name cause := by
  cases tree with
  | map entries => cases h
  | _ =>
    cases h
    exact ⟨_, rfl, rfl⟩

/-- An insertion succeeds exactly if all its rows can be written, and its failure is that of the
first one that cannot. -/
theorem run_insert (s : Store) (tree : Tree) (db : Database) :
    (∀ id db', (s.insert tree).run db = (.ok id, db') ↔
      Written ⟨none, db⟩ (s.plan.writings tree) ⟨some id, db'⟩) ∧
    ∀ f, (s.insert tree).result db = .error f →
      FailsFirst ⟨none, db⟩ (s.plan.writings tree) f := by
  unfold Store.insert
  -- A tree that is no mapping has a single writing, which fails before anything is stored.
  cases hroot : s.plan.root tree with
  | error e =>
    rcases writings_of_root_error hroot with ⟨cause, hwritings, he⟩
    rw [hwritings]
    constructor
    · intro id db'
      constructor
      · intro h
        cases h
      · intro h
        rcases written_cons_iff.1 h with ⟨q, hq, -⟩
        cases hq
    · intro f h
      cases h
      rw [he]
      exact .head rfl
  | ok entries =>
    obtain rfl : tree = .map entries := by
      cases tree <;> cases hroot
      rfl
    rcases run_insertTree s.regular_plan entries db with ⟨hok, herror⟩
    constructor
    · intro id db'
      exact Action.transaction_eq_ok.trans (hok id db')
    · intro f h
      exact herror f ((Action.result_transaction _ db).symm.trans h)

end Store
end Espalier
