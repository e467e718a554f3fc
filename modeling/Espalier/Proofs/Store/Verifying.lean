import Espalier.Proofs.Database.Introspection
import Espalier.Proofs.Store.Layout

/-!
# Verified layouts

Verifying compares each table of a schema, the main one first, with the columns that it is laid out
with, and stops at the first that does not fit.  `Schema.Fits` says what a table must have, and
`Schema.Complaint` how verifying fails at one that does not fit; both speak of the tables that are
there, not of how they are looked up.  `Shadowed` is the one case in which no table is looked at,
since the engine does not even tell what the main one has.
-/

namespace Espalier

/-! ## Columns -/

namespace Column

/-- A stored column is what a column of a layout asks for: it has its name, its declared type but
for letter case, and its constraints. -/
structure MetBy (e : Column) (c : Sql.ColumnSpec) : Prop where
  name : c.name = e.name
  declared : Ascii.sameName c.declared e.type.name = true
  primaryKey : e.primaryKey = true → c.primaryKey = true
  notNull : e.notNull = true → c.notNull = true

theorem metBy_iff {e : Column} {c : Sql.ColumnSpec} : e.MetBy c ↔ c.name = e.name ∧
    Ascii.sameName c.declared e.type.name = true ∧ (e.primaryKey = true → c.primaryKey = true) ∧
    (e.notNull = true → c.notNull = true) :=
  ⟨fun h => ⟨h.name, h.declared, h.primaryKey, h.notNull⟩, fun h => ⟨h.1, h.2.1, h.2.2.1, h.2.2.2⟩⟩

instance (e : Column) (c : Sql.ColumnSpec) : Decidable (e.MetBy c) :=
  decidable_of_iff' _ metBy_iff

/-- What a column of a layout finds wrong with stored columns, in the order in which it looks. -/
inductive Drift (e : Column) (columns : List Sql.ColumnSpec) : String → Prop
  | missing : (∀ c ∈ columns, c.name ≠ e.name) → Drift e columns s!"missing column '{e.name}'"
  | type {c : Sql.ColumnSpec} : c ∈ columns → c.name = e.name →
      Ascii.sameName c.declared e.type.name = false →
      Drift e columns s!"column '{e.name}' has type {c.declared}, expected {e.type.name}"
  | key {c : Sql.ColumnSpec} : c ∈ columns → c.name = e.name →
      Ascii.sameName c.declared e.type.name = true →
      e.primaryKey = true → c.primaryKey = false →
      Drift e columns s!"column '{e.name}' is not the primary key"
  | null {c : Sql.ColumnSpec} : c ∈ columns → c.name = e.name →
      Ascii.sameName c.declared e.type.name = true →
      (e.primaryKey = true → c.primaryKey = true) → e.notNull = true → c.notNull = false →
      Drift e columns s!"column '{e.name}' accepts NULL"

/-- A column of a layout is met by the one that is made from it. -/
theorem metBy_spec (e : Column) : e.MetBy e.spec :=
  ⟨rfl, Ascii.sameName_refl _, fun h => h, fun h => h⟩

end Column

namespace Store
namespace TablePlan

section Drift

variable {e : Column} {columns : List Sql.ColumnSpec}
  (hdistinct : (columns.map fun c => Ascii.fold c.name).Nodup)

include hdistinct

/-- The looks at the one column of the name. -/
theorem drift?_of_mem {c : Sql.ColumnSpec} (hc : c ∈ columns) (hname : c.name = e.name) :
    drift? e columns =
      if Ascii.sameName c.declared e.type.name = false then
        some s!"column '{e.name}' has type {c.declared}, expected {e.type.name}"
      else if e.primaryKey = true ∧ c.primaryKey = false then
        some s!"column '{e.name}' is not the primary key"
      else if e.notNull = true ∧ c.notNull = false then
        some s!"column '{e.name}' accepts NULL"
      else none := by
  rw [drift?, (Database.find?_name_eq_some hdistinct).2 ⟨hc, hname⟩]
  simp only [hname, Bool.not_eq_true', Bool.and_eq_true]

/-- A column that meets the expected one has no drift. -/
theorem drift?_of_met {c : Sql.ColumnSpec} (hc : c ∈ columns) (h : e.MetBy c) :
    drift? e columns = none := by
  rcases h with ⟨hname, hdeclared, hkey, hnull⟩
  rw [drift?_of_mem hdistinct hc hname, if_neg, if_neg, if_neg]
  · rintro ⟨he, hc⟩
    exact absurd (hnull he) (Bool.not_eq_true _ ▸ hc)
  · rintro ⟨he, hc⟩
    exact absurd (hkey he) (Bool.not_eq_true _ ▸ hc)
  · exact Bool.not_eq_false _ ▸ hdeclared

/-- A drift is reported with its detail. -/
theorem drift?_of_drift {detail : String} (h : e.Drift columns detail) :
    drift? e columns = some detail := by
  cases h with
  | missing hnone =>
    have hfind : columns.find? (fun c => c.name = e.name) = none :=
      List.find?_eq_none.2 fun c hc => by simpa using hnone c hc
    rw [drift?, hfind]
  | type hc hname hdeclared =>
    rw [drift?_of_mem hdistinct hc hname, if_pos hdeclared]
  | key hc hname hdeclared hkey hckey =>
    rw [drift?_of_mem hdistinct hc hname, if_neg, if_pos ⟨hkey, hckey⟩]
    exact Bool.not_eq_false _ ▸ hdeclared
  | null hc hname hdeclared hkey hnull hcnull =>
    rw [drift?_of_mem hdistinct hc hname, if_neg, if_neg, if_pos ⟨hnull, hcnull⟩]
    · rintro ⟨he, hckey⟩
      exact absurd (hkey he) (Bool.not_eq_true _ ▸ hckey)
    · exact Bool.not_eq_false _ ▸ hdeclared

omit hdistinct in
/-- Each expected column is met or has drifted. -/
theorem met_or_drift (e : Column) (columns : List Sql.ColumnSpec) :
    (∃ c ∈ columns, e.MetBy c) ∨ ∃ detail, e.Drift columns detail := by
  by_cases hname : ∃ c ∈ columns, c.name = e.name
  · rcases hname with ⟨c, hc, hname⟩
    by_cases hdeclared : Ascii.sameName c.declared e.type.name = true
    · by_cases hkey : e.primaryKey = true → c.primaryKey = true
      · by_cases hnull : e.notNull = true → c.notNull = true
        · exact .inl ⟨c, hc, hname, hdeclared, hkey, hnull⟩
        · rcases Classical.not_imp.1 hnull with ⟨he, hcnull⟩
          exact .inr ⟨_, .null hc hname hdeclared hkey he (Bool.not_eq_true _ ▸ hcnull)⟩
      · rcases Classical.not_imp.1 hkey with ⟨he, hckey⟩
        exact .inr ⟨_, .key hc hname hdeclared he (Bool.not_eq_true _ ▸ hckey)⟩
    · exact .inr ⟨_, .type hc hname (Bool.not_eq_true _ ▸ hdeclared)⟩
  · exact .inr ⟨_, .missing fun c hc heq => hname ⟨c, hc, heq⟩⟩

theorem drift?_eq_none : drift? e columns = none ↔ ∃ c ∈ columns, e.MetBy c := by
  refine ⟨fun h => ?_, fun ⟨c, hc, hmet⟩ => drift?_of_met hdistinct hc hmet⟩
  rcases met_or_drift e columns with hmet | ⟨detail, hdrift⟩
  · exact hmet
  · rw [drift?_of_drift hdistinct hdrift] at h
    cases h

/-- A drift is reported just if it is there. -/
theorem drift?_eq_some {detail : String} :
    drift? e columns = some detail ↔ e.Drift columns detail := by
  refine ⟨fun h => ?_, drift?_of_drift hdistinct⟩
  rcases met_or_drift e columns with ⟨c, hc, hmet⟩ | ⟨other, hdrift⟩
  · rw [drift?_of_met hdistinct hc hmet] at h
    cases h
  · rw [drift?_of_drift hdistinct hdrift] at h
    exact Option.some.inj h ▸ hdrift

end Drift

/-- A table fails with the first complaint of its layout. -/
theorem error?_check (t : TablePlan) (columns : List Sql.ColumnSpec) :
    Outcome.error? (t.check columns) =
      (if columns.isEmpty then some "table does not exist"
        else t.layout.findSome? fun e => drift? e columns).map (.layoutMismatch t.name) := by
  rw [check]
  split
  · rfl
  · cases t.layout.findSome? fun e => drift? e columns <;> rfl

end TablePlan
end Store

/-! ## Tables -/

namespace Schema

/-- A table of the schema is there and has a column for each column of its layout. -/
def Fits (s : Schema) (db : Database) (u : String × Table) : Prop :=
  ∃ t ∈ db.tables, Ascii.sameName t.name u.1 = true ∧
    ∀ e ∈ s.layout u.1 u.2, ∃ c ∈ t.columns, e.MetBy c

instance (s : Schema) (db : Database) (u : String × Table) : Decidable (s.Fits db u) :=
  inferInstanceAs (Decidable (∃ t ∈ db.tables, Ascii.sameName t.name u.1 = true ∧
    ∀ e ∈ s.layout u.1 u.2, ∃ c ∈ t.columns, e.MetBy c))

/-- What is wrong with a table of the schema: that there is none of the name, or else what the first
column of its layout that is not met finds. -/
inductive Mismatch (s : Schema) (db : Database) (u : String × Table) : String → Prop
  | absent : db.Unknown u.1 → Mismatch s db u "table does not exist"
  | column {columns : List Sql.ColumnSpec} {before after : List Column} {e : Column}
      {detail : String} : db.Tells u.1 columns → s.layout u.1 u.2 = before ++ e :: after →
      (∀ d ∈ before, ∃ c ∈ columns, d.MetBy c) → e.Drift columns detail → Mismatch s db u detail

/-- How verifying fails at a table of the schema that does not fit. -/
inductive Complaint (s : Schema) (db : Database) (u : String × Table) : Store.Failure → Prop
  | mismatch {detail : String} : s.Mismatch db u detail →
      Complaint s db u (.layoutMismatch u.1 detail)
  | untold : db.Untold u.1 → Complaint s db u (.query .verify u.1 (.database .statement))

/-- A table of the schema hides the function that tells columns. -/
def Shadows (s : Schema) : Prop :=
  ∃ u ∈ s.tables, Ascii.sameName u.1 Database.introspection = true

instance (s : Schema) : Decidable s.Shadows :=
  inferInstanceAs (Decidable (∃ u ∈ s.tables, Ascii.sameName u.1 Database.introspection = true))

/-- The complaint about a table of the schema, if there is one. -/
def complaint? (s : Schema) (db : Database) (u : String × Table) : Option Store.Failure :=
  match db.tableInfo u.1 with
  | .ok columns =>
    (if columns.isEmpty then some "table does not exist"
      else (s.layout u.1 u.2).findSome? fun e => Store.TablePlan.drift? e columns).map
        (.layoutMismatch u.1)
  | .error f => some (.query .verify u.1 (.database f))

/-- Behind a table that hides the introspection, every table is complained of as a failed query. -/
theorem complaint?_of_shadowed (s : Schema) {db : Database} (h : db.Shadowed)
    (u : String × Table) :
    s.complaint? db u = some (.query .verify u.1 (.database .statement)) := by
  simp only [complaint?, Database.tableInfo_of_shadowed h]

section Complaint

variable {s : Schema} {db : Database} (h : db.Named) (hplain : ¬ db.Shadowed)
  {u : String × Table}

include h

/-- A table fits if the one of its name does. -/
theorem fits_iff {t : Database.Table} (ht : db.table? u.1 = some t) :
    s.Fits db u ↔ ∀ e ∈ s.layout u.1 u.2, ∃ c ∈ t.columns, e.MetBy c := by
  have htable := h.table?_eq_some.1 ht
  constructor
  · rintro ⟨t', ht', hname, hmet⟩
    have heq : t' = t := Option.some.inj ((h.table?_eq_some.2 ⟨ht', hname⟩).symm.trans ht)
    exact heq ▸ hmet
  · intro hmet
    exact ⟨t, htable.1, htable.2, hmet⟩

/-- A table fits if the columns that the engine tells of meet its layout.  The engine's own tables
never do, since they have no keys. -/
theorem fits_iff_of_tells {columns : List Sql.ColumnSpec} (ht : db.Tells u.1 columns) :
    s.Fits db u ↔ ∀ e ∈ s.layout u.1 u.2, ∃ c ∈ columns, e.MetBy c := by
  cases ht with
  | created ht hname => exact fits_iff h (h.table?_eq_some.2 ⟨ht, hname⟩)
  | builtin hmissing _ _ =>
    refine iff_of_false ?_ ?_
    · rintro ⟨t, ht, hname, -⟩
      rw [hmissing t ht] at hname
      cases hname
    · intro hmet
      have hid : Column.id ∈ s.layout u.1 u.2 := s.layout_eq u.1 u.2 ▸ List.mem_cons_self
      rcases hmet _ hid with ⟨c, hc, hmet⟩
      rcases List.mem_map.1 hc with ⟨d, -, rfl⟩
      cases hmet.primaryKey rfl

omit h in
/-- A table that is missing fits nothing. -/
theorem not_fits_of_missing (hmissing : ∀ t ∈ db.tables, Ascii.sameName t.name u.1 = false) :
    ¬ s.Fits db u := by
  rintro ⟨t, ht, hname, -⟩
  rw [hmissing t ht] at hname
  cases hname

include hplain

theorem complaint?_of_tells {columns : List Sql.ColumnSpec} (ht : db.Tells u.1 columns) :
    s.complaint? db u = ((s.layout u.1 u.2).findSome? fun e =>
      Store.TablePlan.drift? e columns).map (.layoutMismatch u.1) := by
  have hinhabited : ¬ columns.isEmpty = true := by
    simpa [List.isEmpty_iff] using (ht.named h).1
  simp only [complaint?, ht.tableInfo_eq hplain h, if_neg hinhabited]

omit h in
/-- An unknown table is complained of as missing. -/
theorem complaint?_of_unknown (hunknown : db.Unknown u.1) :
    s.complaint? db u = some (.layoutMismatch u.1 "table does not exist") := by
  simp only [complaint?, hunknown.tableInfo_eq hplain, List.isEmpty_nil, if_true, Option.map_some]

omit h in
/-- A table that cannot be told is complained of as a failed query. -/
theorem complaint?_of_untold (huntold : db.Untold u.1) :
    s.complaint? db u = some (.query .verify u.1 (.database .statement)) := by
  simp only [complaint?, huntold.tableInfo_eq hplain]

theorem complaint?_eq_none : s.complaint? db u = none ↔ s.Fits db u := by
  rcases db.tells_or u.1 with ⟨columns, htells⟩ | hunknown | huntold
  · rw [fits_iff_of_tells h htells, complaint?_of_tells h hplain htells, Option.map_eq_none_iff,
      List.findSome?_eq_none_iff]
    exact forall₂_congr fun e _ => Store.TablePlan.drift?_eq_none (htells.named h).2
  · rw [complaint?_of_unknown hplain hunknown]
    exact iff_of_false nofun (not_fits_of_missing hunknown.missing)
  · rw [complaint?_of_untold hplain huntold]
    exact iff_of_false nofun (not_fits_of_missing huntold.missing)

/-- A complaint is made just of what gives cause to it. -/
theorem complaint?_eq_some {f : Store.Failure} :
    s.complaint? db u = some f ↔ s.Complaint db u f := by
  constructor
  · intro hsome
    -- Of a name the engine tells columns, knows nothing or cannot be asked.
    rcases db.tells_or u.1 with ⟨columns, htells⟩ | hunknown | huntold
    · rw [complaint?_of_tells h hplain htells] at hsome
      rcases Option.map_eq_some_iff.1 hsome with ⟨detail, hfind, rfl⟩
      rcases List.findSome?_eq_some_iff.1 hfind with ⟨before, e, after, hlayout, hdrift, hbefore⟩
      have hdistinct := (htells.named h).2
      refine .mismatch (.column htells hlayout ?_
        ((Store.TablePlan.drift?_eq_some hdistinct).1 hdrift))
      intro d hd
      exact (Store.TablePlan.drift?_eq_none hdistinct).1 (hbefore d hd)
    · rw [complaint?_of_unknown hplain hunknown] at hsome
      exact Option.some.inj hsome ▸ .mismatch (.absent hunknown)
    · rw [complaint?_of_untold hplain huntold] at hsome
      exact Option.some.inj hsome ▸ .untold huntold
  · intro hcomplaint
    cases hcomplaint with
    | untold huntold => exact complaint?_of_untold hplain huntold
    | mismatch hmismatch =>
      cases hmismatch with
      | absent hunknown => exact complaint?_of_unknown hplain hunknown
      | column htells hlayout hbefore hdrift =>
        have hdistinct := (htells.named h).2
        rw [complaint?_of_tells h hplain htells, Option.map_eq_some_iff]
        refine ⟨_, List.findSome?_eq_some_iff.2 ⟨_, _, _, hlayout,
          (Store.TablePlan.drift?_eq_some hdistinct).2 hdrift, ?_⟩, rfl⟩
        intro d hd
        exact (Store.TablePlan.drift?_eq_none hdistinct).2 (hbefore d hd)

end Complaint

end Schema

/-! ## Stores -/

namespace Store

/-- Verifying fails with the complaint about the first table that there is one about. -/
theorem error?_verify (s : Store) (db : Database) :
    Outcome.error? (s.verify.result db) =
      s.schema.trunkFirst.findSome? (s.schema.complaint? db) := by
  have hsound := s.schema_sound
  rcases hsound.main with ⟨m, hm, -⟩
  let examine (t : TablePlan) : Except Failure Unit :=
    match db.tableInfo t.name with
    | .ok columns => t.check columns
    | .error f => .error (.query .verify t.name (.database f))
  let complain (v : String × List Column) : Option Failure :=
    match db.tableInfo v.1 with
    | .ok columns =>
      (if columns.isEmpty then some "table does not exist"
        else v.2.findSome? fun e => TablePlan.drift? e columns).map (.layoutMismatch v.1)
    | .error f => some (.query .verify v.1 (.database f))
  have hresult : s.verify.result db = s.plan.tables.forM examine := rfl
  -- A table is checked by its name and its layout, and these are in the order of the schema.
  have hcheck : (fun t => Outcome.error? (examine t)) =
      complain ∘ fun t : TablePlan => (t.name, t.layout) := by
    funext t
    simp only [examine, complain, Function.comp_apply]
    cases db.tableInfo t.name with
    | ok columns => exact t.error?_check columns
    | error f => rfl
  rw [hresult, Outcome.error?_forM, hcheck, ← List.findSome?_map, s.plan_eq,
    Schema.plan_layouts hsound hm, List.findSome?_map]
  rfl

/-- Under a table that hides the function nothing is told, and the main table is asked for first. -/
theorem verify_of_shadowed (s : Store) {db : Database} (h : db.Shadowed) :
    s.verify.result db =
      .error (.query .verify s.schema.mainTable (.database .statement)) := by
  rcases s.schema_sound.main with ⟨m, hm, -⟩
  rw [← Outcome.error?_eq_some, error?_verify, Schema.trunkFirst,
    Schema.filter_main s.schema_sound hm, List.singleton_append, List.findSome?_cons,
    Schema.complaint?_of_shadowed _ h]

/-- Verifying succeeds exactly if the engine tells columns and every table of the schema fits. -/
theorem verify_eq_ok (s : Store) {db : Database} (h : db.Named) :
    s.verify.result db = .ok () ↔
      ¬ db.Shadowed ∧ ∀ u ∈ s.schema.tables, s.schema.Fits db u := by
  by_cases hplain : db.Shadowed
  · rw [s.verify_of_shadowed hplain]
    exact iff_of_false nofun fun hnot => hnot.1 hplain
  · have hunit : s.verify.result db = .ok () ↔ Outcome.error? (s.verify.result db) = none := by
      cases s.verify.result db <;> simp [Outcome.error?]
    rw [hunit, error?_verify, List.findSome?_eq_none_iff, and_iff_right hplain]
    constructor
    · intro hnone u hu
      exact (Schema.complaint?_eq_none h hplain).1 (hnone u (Schema.mem_trunkFirst.2 hu))
    · intro hfits u hu
      exact (Schema.complaint?_eq_none h hplain).2 (hfits u (Schema.mem_trunkFirst.1 hu))

/-- Where the engine tells columns, verifying fails with the complaint about the first table, the
main one before the others, that does not fit. -/
theorem verify_eq_error (s : Store) {db : Database} (h : db.Named) (hplain : ¬ db.Shadowed)
    {f : Failure} :
    s.verify.result db = .error f ↔ ∃ before u after,
      s.schema.trunkFirst = before ++ u :: after ∧ (∀ v ∈ before, s.schema.Fits db v) ∧
        s.schema.Complaint db u f := by
  rw [← Outcome.error?_eq_some, error?_verify, List.findSome?_eq_some_iff]
  constructor
  · rintro ⟨before, u, after, htables, hcomplaint, hbefore⟩
    refine ⟨before, u, after, htables, ?_, (Schema.complaint?_eq_some h hplain).1 hcomplaint⟩
    exact fun v hv => (Schema.complaint?_eq_none h hplain).1 (hbefore v hv)
  · rintro ⟨before, u, after, htables, hbefore, hcomplaint⟩
    refine ⟨before, u, after, htables, (Schema.complaint?_eq_some h hplain).2 hcomplaint, ?_⟩
    exact fun v hv => (Schema.complaint?_eq_none h hplain).2 (hbefore v hv)

end Store
end Espalier
