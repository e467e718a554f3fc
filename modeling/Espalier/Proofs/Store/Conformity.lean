import Espalier.Proofs.Store.Writing

/-!
# Documents that conform to a schema

Which documents a schema admits, and what is wrong with the others, said in terms of the schema and
the document alone.  `Schema.Conforms` is the condition, `Schema.violations` lists everything that
breaks it: the root first, then the main fields, then table by table its shape and its elements,
each with its shape and its fields.  `head?_violations` says that the first row of a document that
a check refuses is refused for the first violation.
-/

namespace Espalier

open Store (Failure Shape Writing)

/-! ## Values -/

def FieldType.admits : FieldType → Tree → Bool
  | _, .null => true
  | string, .text _ => true
  | datetime, .text s => Timestamp.isTimestamp s
  | integer, .int _ => true
  | float, .int _ => true
  | float, .float _ => true
  | boolean, .bool _ => true
  | _, _ => false

def FieldType.found : FieldType → Tree → String
  | datetime, .text s => s!"unparseable datetime '{s}'"
  | _, value => value.kind

/-- The value of a field in a mapping; what is absent is null. -/
def Field.value (f : Field) (entries : Entries Tree) : Tree :=
  (Entries.get? entries f.name).getD .null

/-! ## Conforming documents -/

def Fills (fields : List Field) (entries : Entries Tree) : Prop :=
  ∀ f ∈ fields, f.type.admits (f.value entries) = true

/-- An element of a list is a value of the list's type, any other element is a mapping that fills
the fields. -/
inductive Table.Holds (t : Table) : Tree → Prop where
  | scalar {x : Tree} : t.isList = true → (∀ f ∈ t.valueField, f.type.admits x = true) → Holds t x
  | mapping {entries : Entries Tree} : t.isList = false → Fills t.fields entries →
      Holds t (.map entries)

/-- The entry of a secondary table is absent, null, or a sequence of elements; a single mapping
stands for itself where mappings are wanted. -/
inductive Table.Takes (t : Table) : Option Tree → Prop where
  | absent : Takes t none
  | null : Takes t (some .null)
  | sequence {items : List Tree} : (∀ x ∈ items, t.Holds x) → Takes t (some (.seq items))
  | single {entries : Entries Tree} : t.isList = false → Fills t.fields entries →
      Takes t (some (.map entries))

/-- A document is a mapping that fills the main fields and whose entries are such as the secondary
tables take. -/
inductive Schema.Conforms (s : Schema) : Tree → Prop where
  | mapping {entries : Entries Tree} : Fills s.mainFields entries →
      (∀ u ∈ s.secondaryTables, u.2.Takes (Entries.get? entries u.1)) → Conforms s (.map entries)

/-! ## Violations -/

/-- What is wrong in a document: a part without the shape that its table wants, or a value without
the type of its column. -/
inductive Violation where
  | shape (table : String) (expected : Shape) (found : String)
  | type (table column : String) (expected : FieldType) (found : String)
deriving DecidableEq

/-- The failure that reports a violation. -/
def Violation.failure : Violation → Failure
  | shape table expected found => .query .insert table (.shape expected found)
  | type table column expected found => .query .insert table (.typeMismatch column expected found)

def Field.violations (table : String) (f : Field) (value : Tree) : List Violation :=
  if f.type.admits value then [] else [.type table f.name f.type (f.type.found value)]

/-- The violations in a mapping, in the order of the fields. -/
def violationsIn (table : String) (fields : List Field) (entries : Entries Tree) :
    List Violation :=
  fields.flatMap fun f => f.violations table (f.value entries)

namespace Table

/-- The violations in an element: its shape comes before its fields. -/
def elementViolations (name : String) (t : Table) (x : Tree) : List Violation :=
  if t.isList then t.valueField.toList.flatMap fun f => f.violations name x
  else
    match x with
    | .map entries => violationsIn name t.fields entries
    | other => [.shape name .mapping other.kind]

/-- The violations in the entry of a table: its shape comes before its elements. -/
def violations (name : String) (t : Table) (value : Option Tree) : List Violation :=
  match t.isList, value with
  | _, none => []
  | _, some .null => []
  | _, some (.seq items) => items.flatMap (t.elementViolations name)
  | false, some (.map entries) => violationsIn name t.fields entries
  | true, some other => [.shape name .sequence other.kind]
  | false, some other => [.shape name .mappings other.kind]

end Table

/-- The violations in a document in order: the root, the main fields, the secondary tables. -/
def Schema.violations (s : Schema) (tree : Tree) : List Violation :=
  match tree with
  | .map entries =>
    violationsIn s.mainTable s.mainFields entries ++
      s.secondaryTables.flatMap fun u => u.2.violations u.1 (Entries.get? entries u.1)
  | other => [.shape s.mainTable .mapping other.kind]

/-! ## No violation -/

/-- A field has nothing against a value that its type admits, and against no other. -/
theorem Field.violations_eq_nil {table : String} {f : Field} {value : Tree} :
    f.violations table value = [] ↔ f.type.admits value = true := by
  simp [Field.violations]

/-- Entries that fill the fields violate nothing, and no others do. -/
theorem violationsIn_eq_nil {table : String} {fields : List Field} {entries : Entries Tree} :
    violationsIn table fields entries = [] ↔ Fills fields entries := by
  simp only [violationsIn, List.flatMap_eq_nil_iff, Field.violations_eq_nil, Fills]

/-- An element violates nothing just if the table holds it. -/
theorem Table.elementViolations_eq_nil {name : String} {t : Table} {x : Tree} :
    t.elementViolations name x = [] ↔ t.Holds x := by
  unfold elementViolations
  cases hlist : t.isList with
  | true =>
    rw [if_pos rfl, List.flatMap_eq_nil_iff]
    simp only [Field.violations_eq_nil, Option.mem_toList]
    constructor
    · exact .scalar hlist
    · intro h
      cases h with
      | scalar _ h => exact h
      | mapping h _ => exact absurd (h.symm.trans hlist) Bool.false_ne_true
  | false =>
    rw [if_neg Bool.false_ne_true]
    constructor
    · intro h
      cases x with
      | map entries => exact .mapping hlist (violationsIn_eq_nil.1 h)
      | _ => cases h
    · intro h
      cases h with
      | scalar h _ => exact absurd (hlist.symm.trans h) Bool.false_ne_true
      | mapping _ h => exact violationsIn_eq_nil.2 h

/-- A value violates nothing just if the table takes it. -/
theorem Table.violations_eq_nil {name : String} {t : Table} {value : Option Tree} :
    t.violations name value = [] ↔ t.Takes value := by
  unfold violations
  constructor
  · intro h
    split at h
    · exact .absent
    · exact .null
    · refine .sequence fun x hx => ?_
      exact elementViolations_eq_nil.1 (List.flatMap_eq_nil_iff.1 h x hx)
    · rename_i hlist
      exact .single hlist (violationsIn_eq_nil.1 h)
    · cases h
    · cases h
  · intro h
    cases h with
    | absent => rfl
    | null => rfl
    | @sequence items h =>
      have hnone : items.flatMap (t.elementViolations name) = [] :=
        List.flatMap_eq_nil_iff.2 fun x hx => elementViolations_eq_nil.2 (h x hx)
      cases t.isList <;> exact hnone
    | single hlist h =>
      rw [hlist]
      exact violationsIn_eq_nil.2 h

/-- A document conforms exactly if there is no violation. -/
theorem Schema.violations_eq_nil {s : Schema} {tree : Tree} :
    s.violations tree = [] ↔ s.Conforms tree := by
  constructor
  · intro h
    cases tree with
    | map entries =>
      rcases List.append_eq_nil_iff.1 h with ⟨hmain, hbranches⟩
      refine .mapping (violationsIn_eq_nil.1 hmain) fun u hu => ?_
      exact Table.violations_eq_nil.1 (List.flatMap_eq_nil_iff.1 hbranches u hu)
    | _ => cases h
  · rintro ⟨hmain, hbranches⟩
    refine List.append_eq_nil_iff.2 ⟨violationsIn_eq_nil.2 hmain, ?_⟩
    exact List.flatMap_eq_nil_iff.2 fun u hu => Table.violations_eq_nil.2 (hbranches u hu)

/-! ## The first violation -/

/-- The first of all violations is that of the first part that has any. -/
theorem head?_flatMap_violations {α : Type} {l : List α} {f : α → List Violation}
    {g : α → Option Failure} (h : ∀ a ∈ l, (f a).head?.map Violation.failure = g a) :
    (l.flatMap f).head?.map Violation.failure = l.findSome? g := by
  induction l with
  | nil => rfl
  | cons a l ih =>
    rw [List.flatMap_cons, List.head?_append, List.findSome?_cons, ← h a List.mem_cons_self,
      ← ih fun b hb => h b (List.mem_cons_of_mem a hb)]
    cases (f a).head? <;> rfl

theorem findSome?_flatMap {α β γ : Type} (f : α → List β) (g : β → Option γ) (l : List α) :
    (l.flatMap f).findSome? g = l.findSome? fun a => (f a).findSome? g := by
  induction l with
  | nil => rfl
  | cons a l ih =>
    rw [List.flatMap_cons, List.findSome?_append, List.findSome?_cons, ih]
    cases (f a).findSome? g <;> rfl

/-- The failure of a row that a check refuses. -/
def Store.Writing.refusal? (w : Writing) : Option Failure :=
  (Outcome.error? w.cells).map w.table.insertFailure

/-- A codec takes what its type admits and says what it found of everything else. -/
theorem Field.error?_encode {f : Field} (hf : f.codec.fieldType = f.type) (value : Tree) :
    Outcome.error? (f.codec.encode f.name value) =
      if f.type.admits value then none
      else some (.typeMismatch f.name f.type (f.type.found value)) := by
  rcases f with ⟨name, type⟩
  cases type with
  | unknown word => cases hf
  | datetime =>
    cases value with
    | text word =>
      have hencode : Field.codec ⟨name, .datetime⟩ = .datetime := rfl
      rw [hencode, Store.Codec.encode, FieldType.admits]
      split <;> rfl
    | _ => rfl
  | _ => cases value <;> rfl

/-- The first violation of a field is what its codec refuses. -/
theorem Field.head?_violations {f : Field} (hf : f.codec.fieldType = f.type)
    (t : Store.TablePlan) (value : Tree) :
    (f.violations t.name value).head?.map Violation.failure =
      (Outcome.error? (f.codec.encode f.name value)).map t.insertFailure := by
  rw [Field.error?_encode hf, Field.violations]
  split <;> rfl

/-- The values of a row are refused for the first violation of a field. -/
theorem refusal?_row {t : Store.TablePlan} {fields : List Field}
    (ht : t.columns = fields.map Field.dataColumn)
    (hknown : ∀ f ∈ fields, f.codec.fieldType = f.type) (given : String → Tree) :
    (Writing.mk t (t.columns.mapM fun c => c.codec.encode c.name (given c.name))).refusal? =
      (fields.flatMap fun f => f.violations t.name (given f.name)).head?.map
        Violation.failure := by
  have hfields : ∀ f ∈ fields, (f.violations t.name (given f.name)).head?.map Violation.failure =
      (Outcome.error? (f.codec.encode f.name (given f.name))).map t.insertFailure :=
    fun f hf => f.head?_violations (hknown f hf) t (given f.name)
  rw [Writing.refusal?, Outcome.error?_mapM, ht, List.findSome?_map, List.map_findSome?,
    head?_flatMap_violations hfields]
  rfl

namespace Schema

variable {s : Schema} {u : String × Table}

/-- The row of an element is refused for the first violation in the element. -/
theorem refusal?_element (hknown : ∀ f ∈ u.2.dataFields, f.codec.fieldType = f.type) (x : Tree) :
    (Writing.mk (s.branch u).table ((s.branch u).encode x)).refusal? =
      (u.2.elementViolations u.1 x).head?.map Violation.failure := by
  have hcolumns : (s.branch u).table.columns = u.2.dataFields.map Field.dataColumn := rfl
  have hfields : u.2.dataFields = if u.2.isList then u.2.valueField.toList else u.2.fields := rfl
  unfold Store.Branch.encode Table.elementViolations
  cases hlist : u.2.isList with
  | true =>
    have hkind : (s.branch u).kind = .list := if_pos hlist
    rw [hlist, if_pos rfl] at hfields
    rw [hkind, if_pos rfl, ← hfields]
    exact refusal?_row hcolumns hknown fun _ => x
  | false =>
    have hkind : (s.branch u).kind = .object := if_neg (by simp [hlist])
    rw [hlist, if_neg Bool.false_ne_true] at hfields
    rw [hkind, if_neg Bool.false_ne_true, ← hfields]
    cases x with
    | map entries =>
      exact refusal?_row hcolumns hknown fun name => (Entries.get? entries name).getD .null
    | _ => rfl

/-- The rows of a sequence are refused for the first violation in its elements. -/
theorem refusal?_elements (hknown : ∀ f ∈ u.2.dataFields, f.codec.fieldType = f.type)
    (items : List Tree) :
    (items.map fun x => Writing.mk (s.branch u).table ((s.branch u).encode x)).findSome?
        Writing.refusal? =
      (items.flatMap (u.2.elementViolations u.1)).head?.map Violation.failure := by
  rw [List.findSome?_map]
  exact (head?_flatMap_violations fun x _ => (refusal?_element hknown x).symm).symm

/-- The rows of a branch are refused for the first violation in its entry. -/
theorem refusal?_branch (hknown : ∀ f ∈ u.2.dataFields, f.codec.fieldType = f.type)
    (value : Option Tree) :
    ((s.branch u).writings value).findSome? Writing.refusal? =
      (u.2.violations u.1 value).head?.map Violation.failure := by
  have helements := refusal?_elements (s := s) hknown
  unfold Store.Branch.writings Store.Branch.elements Table.violations
  cases hlist : u.2.isList with
  | true =>
    have hkind : (s.branch u).kind = .list := if_pos hlist
    rw [hkind]
    cases value with
    | none => rfl
    | some v =>
      cases v with
      | seq items => exact helements items
      | _ => rfl
  | false =>
    have hkind : (s.branch u).kind = .object := if_neg (by simp [hlist])
    rw [hkind]
    cases value with
    | none => rfl
    | some v =>
      cases v with
      | seq items => exact helements items
      | map entries =>
        -- A single mapping is the one element of its branch.
        have hsingle : [Tree.map entries].flatMap (u.2.elementViolations u.1) =
            violationsIn u.1 u.2.fields entries := by
          rw [List.flatMap_singleton, Table.elementViolations, hlist]
          rfl
        have hrow := helements [.map entries]
        rw [hsingle] at hrow
        exact hrow
      | _ => rfl

end Schema

/-- The first row of a document that a check refuses is refused for the first violation. -/
theorem Store.head?_violations (s : Store) (tree : Tree) :
    (s.schema.violations tree).head?.map Violation.failure =
      (s.plan.writings tree).findSome? Writing.refusal? := by
  rw [plan_eq]
  cases tree with
  | map entries =>
    have hmain : (Writing.mk s.schema.mainPlan (s.schema.mainPlan.encodeEntries entries)).refusal? =
        (violationsIn s.schema.mainTable s.schema.mainFields entries).head?.map
          Violation.failure :=
      refusal?_row rfl s.fieldType_mainCodec fun name => (Entries.get? entries name).getD .null
    have hbranch : ∀ u ∈ s.schema.secondaryTables,
        (u.2.violations u.1 (Entries.get? entries u.1)).head?.map Violation.failure =
          ((s.schema.branch u).writings (Entries.get? entries u.1)).findSome?
            Writing.refusal? := by
      intro u hu
      have hknown := fun f hf => s.fieldType_codec (f := f) (Schema.mem_secondaryTables.1 hu).1 hf
      exact (Schema.refusal?_branch hknown _).symm
    have hviolations : s.schema.violations (.map entries) =
        violationsIn s.schema.mainTable s.schema.mainFields entries ++
          s.schema.secondaryTables.flatMap fun u =>
            u.2.violations u.1 (Entries.get? entries u.1) := rfl
    -- The rows come in the order of the violations: the main row, then branch by branch.
    rw [Plan.writings_map, List.findSome?_cons, findSome?_flatMap, hmain,
      ← head?_flatMap_violations hbranch, hviolations, List.head?_append]
    cases (violationsIn s.schema.mainTable s.schema.mainFields entries).head? <;> rfl
  | _ => rfl

end Espalier
