import Espalier.Proofs.Store.Keys
import Mathlib.Data.List.Perm.Subperm
import Mathlib.Data.Prod.Basic

/-!
# Reading with fewer tables

A schema with further secondary tables has a larger plan, but the parts that both plans have are the
same.  A document is read part by part, so the smaller store reads what is left of the document of
the larger one when only the parts that it knows are kept: `get_restrict` says so of every database
in which the further tables can be read, be the document there or not.
-/

namespace Espalier

open Database (Action)

namespace Schema

/-- A schema extends another one if it has the same main table and all tables of the other,
unchanged and in their order; what it has besides are secondary tables. -/
structure Extends (s' s : Schema) : Prop where
  mainTable : s'.mainTable = s.mainTable
  tables : s.tables.Sublist s'.tables

/-- The names that a document of a schema has entries under. -/
def knows (s : Schema) (name : String) : Bool :=
  name ∈ idColumn :: (s.mainFields.map Field.name ++ s.branchNames)

namespace Extends

variable {s' s : Schema} (h : s'.Extends s)

include h

/-! ## Common parts -/

theorem main?_eq (hsound : s.Sound) : s'.main? = s.main? := by
  rcases hsound.main with ⟨m, hm, -⟩
  rw [hm, main?, h.mainTable]
  exact table?_of_mem (h.tables.subset (mem_of_table? hm))

theorem mainFields_eq (hsound : s.Sound) : s'.mainFields = s.mainFields := by
  rw [mainFields, h.main?_eq hsound]
  rfl

theorem mainPlan_eq (hsound : s.Sound) : s'.mainPlan = s.mainPlan := by
  rw [mainPlan, mainPlan, h.mainTable, h.mainFields_eq hsound]

theorem branch_eq (u : String × Table) : s'.branch u = s.branch u := by
  rw [branch, branch, branchPlan, branchPlan, h.mainTable]

theorem planted_eq (name : String) (t : Table) : s'.planted name t = s.planted name t := by
  rw [planted, planted, h.mainTable]

/-- Among its own tables a restricted schema has the same secondary ones. -/
theorem mem_secondaryTables {u : String × Table} (hu : u ∈ s.tables) :
    u ∈ s'.secondaryTables ↔ u ∈ s.secondaryTables := by
  rw [Schema.mem_secondaryTables, Schema.mem_secondaryTables, h.mainTable]
  exact and_congr_left fun _ => iff_of_true (h.tables.subset hu) hu

/-- Every further table is secondary. -/
theorem mem_secondaryTables_of_new {u : String × Table} (hsound : s.Sound) (hu : u ∈ s'.tables)
    (hnew : u ∉ s.tables) : u ∈ s'.secondaryTables := by
  refine Schema.mem_secondaryTables.2 ⟨hu, fun hname => hnew ?_⟩
  -- Under the main name there is the main table only, which is not a further one.
  rcases hsound.main with ⟨m, hm, -⟩
  have hmain := table?_of_mem hu
  rw [hname] at hmain
  obtain rfl : u.2 = m := Option.some.inj (hmain.symm.trans ((h.main?_eq hsound).trans hm))
  rw [← Prod.mk.eta (p := u), hname, h.mainTable]
  exact mem_of_table? hm

/-- Of the tables of the larger schema the smaller one knows its own, unless another takes the place
of the id. -/
theorem knows_iff (hsound : s.Sound) (hsound' : s'.Sound)
    (hid : ∀ u ∈ s'.tables, u ∉ s.tables → u.1 ≠ idColumn) {u : String × Table}
    (hu : u ∈ s'.secondaryTables) : s.knows u.1 = true ↔ u ∈ s.tables := by
  have hmem := (Schema.mem_secondaryTables.1 hu).1
  have hfield : u.1 ∉ s.mainFields.map Field.name := by
    rw [← h.mainFields_eq hsound]
    exact branchNames_disjoint hsound' (List.mem_map_of_mem hu)
  rw [knows, decide_eq_true_iff, List.mem_cons, List.mem_append, or_iff_right hfield]
  constructor
  · rintro (hname | hname)
    · by_contra hnew
      exact hid u hmem hnew hname
    · -- Within the larger schema there is one table of the name.
      rcases List.mem_map.1 hname with ⟨v, hv, hvu⟩
      have hv := (Schema.mem_secondaryTables.1 hv).1
      have hfound := table?_of_mem (h.tables.subset hv)
      rw [hvu, table?_of_mem hmem] at hfound
      obtain rfl : u = v := Prod.ext hvu.symm (Option.some.inj hfound)
      exact hv
  · intro hold
    exact .inr (List.mem_map_of_mem ((h.mem_secondaryTables hold).1 hu))

/-- The secondary tables of the smaller schema are those of the larger one that it knows. -/
theorem secondaryTables_eq (hsound : s.Sound) (hsound' : s'.Sound)
    (hid : ∀ u ∈ s'.tables, u ∉ s.tables → u.1 ≠ idColumn) :
    s.secondaryTables = s'.secondaryTables.filter fun u => s.knows u.1 := by
  have hnodup : s'.secondaryTables.Nodup := (List.Nodup.of_map _ s'.distinct).filter _
  have hsub : s.secondaryTables.Sublist s'.secondaryTables := by
    rw [secondaryTables, secondaryTables, h.mainTable]
    exact h.tables.filter _
  have hknown : ∀ u ∈ s.secondaryTables, s.knows u.1 = true := fun u hu =>
    (h.knows_iff hsound hsound' hid (hsub.subset hu)).2 (Schema.mem_secondaryTables.1 hu).1
  have hkept : s.secondaryTables.Sublist (s'.secondaryTables.filter fun u => s.knows u.1) := by
    rw [← List.filter_eq_self.2 hknown]
    exact hsub.filter _
  -- Nothing is repeated, so the members decide which of the two sublists is longer.
  refine hkept.eq_of_length_le (List.subperm_of_subset (hnodup.filter _) fun u hu => ?_).length_le
  rcases List.mem_filter.1 hu with ⟨hu, hknows⟩
  exact (h.mem_secondaryTables ((h.knows_iff hsound hsound' hid hu).1 hknows)).1 hu

end Extends
end Schema

namespace Store

/-! ## Plans -/

/-- Grows a branch and puts it under its name. -/
def Branch.attach (id : Int64) (entries : Entries Tree) (b : Branch) :
    Action Failure (Entries Tree) := do
  let items ← b.grow id
  return Entries.put entries b.table.name (.seq items)

section Plans

variable {keep : String → Bool} {db : Database} {id : Int64}

/-- Attaching a branch puts what it has grown under its name. -/
theorem Branch.result_attach (b : Branch) (entries : Entries Tree) :
    (b.attach id entries).result db = ((b.grow id).result db).map fun items =>
      Entries.put entries b.table.name (.seq items) := by
  rw [attach, (b.reads_grow id).result_bind_eq]
  cases (b.grow id).result db <;> rfl

theorem Branch.reads_attach (b : Branch) (entries : Entries Tree) : (b.attach id entries).Reads :=
  (b.reads_grow id).bind fun _ => Action.reads_pure _

/-- Branches that are not kept can be left out if they can be grown at all. -/
theorem result_attach_restrict {branches : List Branch}
    (hnew : ∀ b ∈ branches, keep b.table.name = false → ∃ items, (b.grow id).result db = .ok items)
    (trunk : Entries Tree) :
    Action.result ((branches.filter fun b => keep b.table.name).foldlM (Branch.attach id)
        (Entries.restrict keep trunk)) db =
      (Action.result (branches.foldlM (Branch.attach id) trunk) db).map
        (Entries.restrict keep) := by
  -- Induction over the branches, for every trunk that the ones before may have left.
  induction branches generalizing trunk with
  | nil => rfl
  | cons b branches ih =>
    rw [List.forall_mem_cons] at hnew
    have hrest := ih hnew.2
    rw [List.foldlM_cons, (b.reads_attach trunk).result_bind_eq, b.result_attach]
    by_cases hkeep : keep b.table.name = true
    · have hfilter : (b :: branches).filter (fun b => keep b.table.name) =
          b :: branches.filter fun b => keep b.table.name := List.filter_cons_of_pos hkeep
      rw [hfilter, List.foldlM_cons, (b.reads_attach _).result_bind_eq, b.result_attach]
      cases (b.grow id).result db with
      | error e => rfl
      | ok items =>
        have hgrown := hrest (Entries.put trunk b.table.name (.seq items))
        rw [Entries.restrict_put_of_kept hkeep] at hgrown
        exact hgrown
    · have hfilter : (b :: branches).filter (fun b => keep b.table.name) =
          branches.filter fun b => keep b.table.name := List.filter_cons_of_neg hkeep
      have hdropped : keep b.table.name = false := Bool.not_eq_true _ ▸ hkeep
      rcases hnew.1 hdropped with ⟨items, hitems⟩
      have hgrown := hrest (Entries.put trunk b.table.name (.seq items))
      rw [Entries.restrict_put_of_dropped hdropped] at hgrown
      rw [hfilter, hitems]
      exact hgrown

/-- A plan with fewer branches reads what is left of the document of the other. -/
theorem Plan.growTree_restrict {p p' : Plan} (hmain : p'.main = p.main)
    (hbranches : p.branches = p'.branches.filter fun b => keep b.table.name)
    (htrunk : ∀ row rest trunk, db.select p.main.select [.int id] = .ok (row :: rest) →
      p.main.decodeMain row = .ok trunk → Entries.restrict keep trunk = trunk)
    (hnew : ∀ b ∈ p'.branches, keep b.table.name = false →
      ∃ items, (b.grow id).result db = .ok items) :
    (p.growTree id).result db = ((p'.growTree id).result db).map (Entries.restrict keep) := by
  rw [Plan.growTree, Plan.growTree, hmain, ((Action.reads_select _ _).reporting _).result_bind_eq,
    ((Action.reads_select _ _).reporting _).result_bind_eq]
  refine Outcome.bind_eq_map_bind fun rows hrows => ?_
  cases rows with
  | nil => rfl
  | cons row rest =>
    dsimp only
    cases hrow : p.main.decodeMain row with
    | error cause => rfl
    | ok trunk =>
      have hselect : db.select p.main.select [.int id] = .ok (row :: rest) :=
        Action.result_reporting_eq_ok.1 hrows
      have hattach := result_attach_restrict hnew trunk
      rw [← hbranches, htrunk row rest trunk hselect hrow] at hattach
      exact hattach

end Plans

/-! ## Stores -/

section Stores

variable {s s' : Store} (hext : s'.schema.Extends s.schema)

include hext

/-- A page has nothing of the secondary tables. -/
theorem list_extended (w : Window) : s'.list w = s.list w := by
  have hmain := hext.mainPlan_eq s.schema_sound
  have hplan : s'.schema.plan.list = s.schema.plan.list :=
    congrArg Plan.selectWindow hmain
  have hmain : s'.schema.plan.main = s.schema.plan.main := hmain
  rw [list, list, s.plan_eq, s'.plan_eq, Plan.listPage, Plan.listPage, hplan, hmain]

/-- The smaller store reads what is left of the document of the larger one, if no further table
takes the place of the id and all of them can be read. -/
theorem get_restrict (hid : ∀ u ∈ s'.schema.tables, u ∉ s.schema.tables → u.1 ≠ idColumn)
    {db : Database} {id : Int64}
    (hnew : ∀ u ∈ s'.schema.secondaryTables, u ∉ s.schema.tables →
      ∃ items, ((s'.schema.branch u).grow id).result db = .ok items) :
    (s.get id).result db =
      ((s'.get id).result db).map (Entries.restrict s.schema.knows) := by
  have hsound := s.schema_sound
  have hsound' := s'.schema_sound
  rw [get, get, s.plan_eq, s'.plan_eq]
  refine Plan.growTree_restrict (p := s.schema.plan)
    (hext.mainPlan_eq hsound) ?_ ?_ ?_
  · have hbranches : s.schema.branch = s'.schema.branch :=
      funext fun u => (hext.branch_eq u).symm
    have hbranch : ∀ u, s.schema.knows (s'.schema.branch u).table.name = s.schema.knows u.1 :=
      fun _ => rfl
    rw [Schema.plan, Schema.plan, hext.secondaryTables_eq hsound hsound' hid, hbranches,
      List.filter_map]
    rfl
  · -- The trunk has the id and the main fields, all of which are known.
    intro row rest trunk hselect hrow
    have hkeys := (decodeMain_select hselect hrow).1
    refine List.filter_eq_self.2 fun e he => ?_
    have hkey : e.1 ∈ Entries.keys trunk := List.mem_map_of_mem he
    rw [hkeys, List.mem_cons] at hkey
    rw [Schema.knows, decide_eq_true_iff, List.mem_cons, List.mem_append]
    exact hkey.imp_right .inl
  · -- Only a further table is not known.
    intro b hb hdropped
    rcases List.mem_map.1 hb with ⟨u, hu, rfl⟩
    refine hnew u hu fun hold => ?_
    have hknown := (hext.knows_iff hsound hsound' hid hu).2 hold
    exact absurd hknown (Bool.not_eq_true _ ▸ hdropped)

end Stores

end Store
end Espalier
