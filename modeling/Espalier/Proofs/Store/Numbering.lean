import Espalier.Proofs.Store.Sowing

/-!
# Rows as they are numbered

An insertion sows rows one after the other, each at the end of its own table and under the next
number of that table.  `Sown` is such a sequence of rows, and what it does to a table depends on the
rows of that table alone.  A table from which nothing is ever deleted stays `Dense`: its rows have
the numbers from one on, and its counter tells how many there are.
-/

namespace Espalier

open Database (Cell Row)

namespace Database

/-- Counters do not depend on capitals. -/
theorem counterOf_congr {a b : String} (h : Ascii.sameName a b = true) (db : Database) :
    db.counterOf a = db.counterOf b := by
  rw [counterOf, counterOf, table?_congr h]

/-- The rows of a table have the numbers from one on, and its counter is at the last. -/
structure Dense (db : Database) (name : String) : Prop where
  numbers : (db.rowsOf name).map (fun r => r.number.toInt) =
    (List.range (db.rowsOf name).length).map fun i : Nat => (i : Int) + 1
  counter : db.counterOf name = (db.rowsOf name).length

theorem dense_empty (checked : Bool) (name : String) : Dense { checked } name :=
  ⟨rfl, rfl⟩

/-- Numbers stay dense where neither rows nor counter change. -/
theorem Dense.of_eq {db db' : Database} {name : String} (h : db.Dense name)
    (hrows : db'.rowsOf name = db.rowsOf name) (hcounter : db'.counterOf name = db.counterOf name) :
    db'.Dense name := by
  refine ⟨?_, ?_⟩
  · rw [hrows]
    exact h.numbers
  · rw [hrows, hcounter]
    exact h.counter

end Database

namespace Schema

/-! ## Sequences of rows -/

/-- Rows sown one after the other, each with the name of its table. -/
inductive Sown : Database → List (String × Row) → Database → Prop where
  | nil (db : Database) : Sown db [] db
  | cons {x : String × Row} {xs : List (String × Row)} {a b c : Database} :
      Sows x.1 x.2 a b → Sown b xs c → Sown a (x :: xs) c

/-- Of the rows sown, those of one table. -/
def rowsFor (name : String) (xs : List (String × Row)) : List Row :=
  (xs.filter fun x => Ascii.sameName x.1 name).map Prod.snd

theorem rowsFor_cons (name : String) (x : String × Row) (xs : List (String × Row)) :
    rowsFor name (x :: xs) =
      (if Ascii.sameName x.1 name then [x.2] else []) ++ rowsFor name xs := by
  rw [rowsFor, List.filter_cons]
  split <;> rfl

section Sown

variable {db db' : Database} {xs : List (String × Row)}

/-- A counter rises by the row that is sown under its name. -/
theorem Sows.counterOf {name : String} {r : Row} (h : Sows name r db db') (other : String) :
    db'.counterOf other = db.counterOf other +
      (if Ascii.sameName name other then [r] else []).length := by
  rw [h.counter]
  split
  · rename_i hsame
    rw [Database.counterOf_congr hsame]
    rfl
  · exact (Int.add_zero _).symm

/-- The rows of a table are followed by those sown in it. -/
theorem Sown.rowsOf (h : Sown db xs db') (name : String) :
    db'.rowsOf name = db.rowsOf name ++ rowsFor name xs := by
  induction h with
  | nil db => exact (List.append_nil _).symm
  | cons hfirst _ ih => rw [ih, hfirst.rows, rowsFor_cons, List.append_assoc]

/-- The counter of a table goes on by one for each row sown in it. -/
theorem Sown.counterOf (h : Sown db xs db') (name : String) :
    db'.counterOf name = db.counterOf name + (rowsFor name xs).length := by
  induction h with
  | nil db => exact (Int.add_zero _).symm
  | cons hfirst _ ih =>
    rw [ih, hfirst.counterOf, rowsFor_cons, List.length_append, Int.natCast_add, Int.add_assoc]

/-- Sowing makes and drops no table. -/
theorem Sown.isSome_table? (h : Sown db xs db') (name : String) :
    (db'.table? name).isSome = (db.table? name).isSome := by
  induction h with
  | nil db => rfl
  | cons hfirst _ ih => exact ih.trans (hfirst.tables name)

/-- A dense table is dense with one more row. -/
theorem Sows.dense {name other : String} {r : Row} (h : Sows name r db db')
    (hdense : db.Dense other) : db'.Dense other := by
  have hnumber := h.number
  have hrows := h.rows other
  have hcounter := h.counterOf other
  cases hsame : Ascii.sameName name other with
  | true =>
    rw [hsame, if_pos rfl] at hrows hcounter
    rw [Database.counterOf_congr hsame, hdense.counter] at hnumber
    refine ⟨?_, ?_⟩
    · rw [hrows, List.map_append, hdense.numbers, List.length_append, List.length_singleton,
        List.range_succ, List.map_append, List.map_singleton, List.map_singleton, hnumber]
    · rw [hcounter, hdense.counter, hrows, List.length_append, Int.natCast_add]
  | false =>
    rw [hsame, if_neg Bool.false_ne_true] at hrows hcounter
    exact hdense.of_eq (hrows.trans (List.append_nil _)) (hcounter.trans (Int.add_zero _))

/-- Sowing keeps the numbers dense. -/
theorem Sown.dense (h : Sown db xs db') {name : String} (hdense : db.Dense name) :
    db'.Dense name := by
  induction h with
  | nil db => exact hdense
  | cons hfirst _ ih => exact ih (hfirst.dense hdense)

end Sown

/-! ## Writings as rows -/

section Written

variable {s : Schema} {db : Database} {q : Store.Progress} {ws : List Store.Writing}

/-- The writings of branches that succeed sow a row each, in the table that they name. -/
theorem Tended.sown_branches (hsound : s.Sound) (h : s.Tended db) {id : Int64}
    (hid : id.toInt ≤ db.counterOf s.mainTable)
    (hws : ∀ w ∈ ws, ∃ u ∈ s.secondaryTables, ∃ value, w ∈ (s.branch u).writings value)
    (hw : Store.Written ⟨some id, db⟩ ws q) :
    ∃ xs, Sown db xs q.db ∧ xs.map Prod.fst = ws.map (fun w => w.table.name) ∧ s.Tended q.db := by
  -- Induction over the writings: each is a row of its branch in the database before it.
  induction ws generalizing db with
  | nil =>
    rcases Store.written_nil_iff.1 hw with rfl
    exact ⟨[], .nil _, rfl, h⟩
  | cons w ws ih =>
    rcases Store.written_cons_iff.1 hw with ⟨⟨parent, db₁⟩, hfirst, hrest⟩
    rcases hws w List.mem_cons_self with ⟨u, hu, value, hmem⟩
    rcases Store.Writing.write_eq_ok.1 hfirst with ⟨_, -, hcells, -⟩
    rcases Store.Branch.exists_item hmem hcells with ⟨-, item, -, rfl⟩
    rcases h.write_branch hsound hu hid hfirst with ⟨cells, n, -, hparent, hsows, htended⟩
    obtain rfl : parent = some id := hparent
    rcases ih htended ((hsows.counterOf_main hsound hu).symm ▸ hid)
      (fun v hv => hws v (List.mem_cons_of_mem _ hv)) hrest with ⟨xs, hsown, hnames, hlast⟩
    refine ⟨(u.1, s.branchRow u id n cells) :: xs, .cons hsows hsown, ?_, hlast⟩
    rw [List.map_cons, List.map_cons, hnames]
    rfl

/-- The first writings of a document, the main row among them, sow a row each; the main row is there
under the id. -/
theorem Tended.sown_document (hsound : s.Sound) (h : s.Tended db) {entries : Entries Tree}
    (hws : ∀ w ∈ ws, ∃ u ∈ s.secondaryTables,
      w ∈ (s.branch u).writings (Entries.get? entries u.1))
    (hw : Store.Written ⟨none, db⟩
      (⟨s.mainPlan, s.mainPlan.encodeEntries entries⟩ :: ws) q) :
    ∃ id cells xs, q.parent = some id ∧ s.mainRow id cells ∈ q.db.rowsOf s.mainTable ∧
      Sown db ((s.mainTable, s.mainRow id cells) :: xs) q.db ∧
      xs.map Prod.fst = ws.map (fun w => w.table.name) ∧ s.Tended q.db := by
  rcases Store.written_cons_iff.1 hw with ⟨⟨parent, db₁⟩, hfirst, hrest⟩
  rcases h.write_main hsound hfirst with ⟨cells, id, -, hparent, hsows, htended⟩
  obtain rfl : parent = some id := hparent
  have hid : id.toInt ≤ db₁.counterOf s.mainTable := by
    have hnumber : id.toInt = db.counterOf s.mainTable + 1 := hsows.number
    rw [hsows.counter, if_pos (Ascii.sameName_refl _)]
    omega
  obtain ⟨xs, hsown, hnames, hlast⟩ := htended.sown_branches hsound hid
    (fun w hw => (hws w hw).imp fun u hu => ⟨hu.1, _, hu.2⟩) hrest
  refine ⟨id, cells, xs, hrest.parent_eq rfl, ?_, .cons hsows hsown, hnames, hlast⟩
  rw [hsown.rowsOf, hsows.rows, if_pos (Ascii.sameName_refl _)]
  simp

end Written

end Schema
end Espalier
