import Espalier.Proofs.Store.Conformity
import Espalier.Proofs.Store.RoundTrip

/-!
# Documents element by element

Every row of a conforming document is made from one of its elements: the main row from the document
itself, and the rows of each secondary table from the elements of its entry.  `writings_eq` says
that an insertion writes the elements in this order, each with the values that it gives to the
fields of its table.
-/

namespace Espalier

open Database (Cell)

/-! ## Values of elements -/

/-- A scalar that is stored as no value: nothing, or what is not a number. -/
def Tree.isVoid : Tree → Bool
  | .null => true
  | .float x => x.isNaN
  | _ => false

/-- The value that an element gives to a field: in a list the element itself, otherwise an entry of
it. -/
def Table.given (t : Table) (f : Field) (x : Tree) : Tree :=
  if t.isList then x else (x.get? f.name).getD .null

/-- What a table holds gives every field a value of its type. -/
theorem Table.Holds.admits {t : Table} {x : Tree} (h : t.Holds x) :
    ∀ f ∈ t.dataFields, f.type.admits (t.given f x) = true := by
  intro f hf
  cases h with
  | scalar hlist hvalue =>
    rw [Table.dataFields, if_pos hlist, Option.mem_toList] at hf
    rw [Table.given, if_pos hlist]
    exact hvalue f hf
  | mapping hlist hfills =>
    rw [Table.dataFields, hlist, if_neg Bool.false_ne_true] at hf
    rw [Table.given, hlist, if_neg Bool.false_ne_true]
    exact hfills f hf

/-- Values of the right types are taken. -/
theorem exists_cells {fields : List Field} (hknown : ∀ f ∈ fields, f.codec.fieldType = f.type)
    {given : Field → Tree} (h : ∀ f ∈ fields, f.type.admits (given f) = true) :
    ∃ cells, (fields.mapM fun f => f.codec.encode f.name (given f)) = .ok cells := by
  rw [← Outcome.error?_eq_none, Outcome.error?_mapM, List.findSome?_eq_none_iff]
  intro f hf
  rw [Field.error?_encode (hknown f hf), if_pos (h f hf)]

/-- What is taken becomes a value unless it is void. -/
theorem Store.Codec.encode_ne_null {c : Codec} {name : String} {value : Tree} {v : Cell}
    (h : c.encode name value = .ok v) : v ≠ .null ↔ value.isVoid = false := by
  -- Of what is taken only doubles may be stored as something else than they are.
  cases value with
  | float x =>
    cases c <;> cases h
    cases hnan : x.isNaN <;> simp [Cell.ofDouble, Tree.isVoid, hnan]
  | text word =>
    cases c with
    | datetime =>
      unfold Store.Codec.encode at h
      dsimp only at h
      split at h <;> cases h
      simp [Tree.isVoid]
    | _ => cases h <;> simp [Tree.isVoid]
  | _ => cases c <;> cases h <;> simp [Tree.isVoid]

namespace Schema

/-! ## Rows for elements -/

/-- The elements of a document that become rows of a table; the document itself becomes the row of
the main table. -/
def elementsOf (s : Schema) (name : String) (tree : Tree) : List Tree :=
  if name = s.mainTable then [tree] else Tree.elements (tree.get? name)

/-- The elements of a document in the order in which their rows are written, each with its table. -/
def rowsIn (s : Schema) (tree : Tree) : List ((String × Table) × Tree) :=
  s.trunkFirst.flatMap fun u => (s.elementsOf u.1 tree).map fun x => (u, x)

/-- The row for an element of a table. -/
def writing (s : Schema) (y : (String × Table) × Tree) : Store.Writing where
  table := if y.1.1 = s.mainTable then s.mainPlan else s.branchPlan y.1.1 y.1.2
  cells := y.1.2.dataFields.mapM fun f => f.codec.encode f.name (y.1.2.given f y.2)

variable {s : Schema} {u : String × Table}

/-- The rows of a tree are its elements at each table. -/
theorem mem_rowsIn {tree : Tree} {y : (String × Table) × Tree} :
    y ∈ s.rowsIn tree ↔ y.1 ∈ s.tables ∧ y.2 ∈ s.elementsOf y.1.1 tree := by
  rcases y with ⟨u, x⟩
  simp [rowsIn, mem_trunkFirst]

/-- The document itself comes first, then the elements of the secondary tables. -/
theorem rowsIn_eq (hsound : s.Sound) {m : Table} (hm : s.main? = some m) (tree : Tree) :
    s.rowsIn tree = ((s.mainTable, m), tree) :: s.secondaryTables.flatMap fun u =>
      (s.elementsOf u.1 tree).map fun x => (u, x) := by
  rw [rowsIn, trunkFirst, filter_main hsound hm, List.flatMap_append, List.flatMap_singleton,
    elementsOf, if_pos rfl]
  rfl

/-- A document gives a table as many rows as it has elements for it. -/
theorem countP_rowsIn (hsound : s.Sound) (tree : Tree) (hu : u ∈ s.tables) :
    (s.rowsIn tree).countP (fun y => Ascii.sameName y.1.1 u.1) =
      (s.elementsOf u.1 tree).length := by
  have hnodup : s.trunkFirst.Nodup := by
    have htables : s.tables.Nodup := List.Nodup.of_map _ s.distinct
    refine (htables.filter _).append (htables.filter _) fun v hv hv' => ?_
    exact of_decide_eq_true (List.mem_filter.1 hv').2 (of_decide_eq_true (List.mem_filter.1 hv).2)
  -- How the tables are ordered does not matter, so this one may as well be the first.
  have hperm := List.perm_cons_erase (mem_trunkFirst.2 hu)
  have hself : ((s.elementsOf u.1 tree).map fun x => (u, x)).countP
      (fun y => Ascii.sameName y.1.1 u.1) = (s.elementsOf u.1 tree).length := by
    rw [List.countP_map]
    exact List.countP_eq_length.2 fun x _ => Ascii.sameName_refl u.1
  -- No other table has the name.
  have hother : ((s.trunkFirst.erase u).flatMap fun v => (s.elementsOf v.1 tree).map
      fun x => (v, x)).countP (fun y => Ascii.sameName y.1.1 u.1) = 0 := by
    rw [List.countP_eq_zero]
    intro y hy
    rcases List.mem_flatMap.1 hy with ⟨v, hv, hy⟩
    rcases List.mem_map.1 hy with ⟨x, -, rfl⟩
    rcases hnodup.mem_erase_iff.1 hv with ⟨hne, hv⟩
    rw [sameName_of_ne hsound (mem_trunkFirst.1 hv) hu hne]
    exact Bool.false_ne_true
  calc (s.rowsIn tree).countP (fun y => Ascii.sameName y.1.1 u.1)
      = ((u :: s.trunkFirst.erase u).flatMap fun v => (s.elementsOf v.1 tree).map
          fun x => (v, x)).countP (fun y => Ascii.sameName y.1.1 u.1) :=
        (hperm.flatMap_right _).countP_eq _
    _ = (s.elementsOf u.1 tree).length + 0 := by
        rw [List.flatMap_cons, List.countP_append, hself, hother]

/-- The elements of an entry that a table takes are those that it holds. -/
theorem elements_of_takes {value : Option Tree} (h : u.2.Takes value) :
    (s.branch u).elements value = .ok (Tree.elements value) ∧
      ∀ x ∈ Tree.elements value, u.2.Holds x := by
  cases h with
  | absent => simp [Store.Branch.elements, Tree.elements]
  | null => simp [Store.Branch.elements, Tree.elements]
  | sequence hitems => exact ⟨by simp [Store.Branch.elements, Tree.elements], hitems⟩
  | single hlist hfills =>
    have hkind : (s.branch u).kind = .object := if_neg (by simp [hlist])
    refine ⟨by simp [Store.Branch.elements, hkind, Tree.elements], ?_⟩
    intro x hx
    rw [List.mem_singleton.1 hx]
    exact .mapping hlist hfills

/-- The values of an element are those of the fields of its table. -/
theorem encode_eq {x : Tree} (h : u.2.Holds x) :
    (s.branch u).encode x =
      u.2.dataFields.mapM fun f => f.codec.encode f.name (u.2.given f x) := by
  have hcolumns : (s.branch u).table.columns = u.2.dataFields.map Field.dataColumn := rfl
  unfold Store.Branch.encode Table.given
  cases h with
  | scalar hlist _ =>
    have hkind : (s.branch u).kind = .list := if_pos hlist
    rw [hkind, hlist, hcolumns]
    exact List.mapM_map
  | mapping hlist _ =>
    have hkind : (s.branch u).kind = .object := if_neg (by simp [hlist])
    rw [hkind, hlist]
    exact List.mapM_map

/-- The elements of a conforming document are held by their tables. -/
theorem holds_of_mem_rowsIn (hsound : s.Sound) {tree : Tree} (hconforms : s.Conforms tree)
    {y : (String × Table) × Tree} (hy : y ∈ s.rowsIn tree) : y.1.2.Holds y.2 := by
  rcases hsound.main with ⟨m, hm, hlist, -⟩
  rcases y with ⟨u, x⟩
  obtain ⟨hu, hx⟩ : u ∈ s.tables ∧ x ∈ s.elementsOf u.1 tree := mem_rowsIn.1 hy
  cases hconforms with
  | @mapping entries hmain hbranches =>
    by_cases hname : u.1 = s.mainTable
    · have htable := table?_of_mem hu
      rw [hname] at htable
      have hum : u.2 = m := Option.some.inj (htable.symm.trans hm)
      rw [elementsOf, if_pos hname, List.mem_singleton] at hx
      rw [mainFields_eq hm, Table.dataFields, hlist, if_neg Bool.false_ne_true] at hmain
      have hholds : m.Holds (.map entries) := .mapping hlist hmain
      rw [hum, hx]
      exact hholds
    · rw [elementsOf, if_neg hname] at hx
      exact (elements_of_takes (s := s) (hbranches u (mem_secondaryTables.2 ⟨hu, hname⟩))).2 x hx

/-- A conforming document is written row by row as its elements come. -/
theorem writings_eq (hsound : s.Sound) {tree : Tree} (hconforms : s.Conforms tree) :
    s.plan.writings tree = (s.rowsIn tree).map s.writing := by
  rcases hsound.main with ⟨m, hm, hlist, -⟩
  cases hconforms with
  | @mapping entries hmain hbranches =>
    have htrunk : s.writing ((s.mainTable, m), .map entries) =
        ⟨s.mainPlan, s.mainPlan.encodeEntries entries⟩ := by
      have hcells : s.mainPlan.encodeEntries entries =
          m.dataFields.mapM fun f => f.codec.encode f.name (m.given f (.map entries)) := by
        have hcolumns : s.mainPlan.columns = m.dataFields.map Field.dataColumn :=
          mainFields_eq hm ▸ rfl
        unfold Table.given
        rw [Store.TablePlan.encodeEntries, hcolumns, hlist]
        exact List.mapM_map
      rw [writing, if_pos rfl, hcells]
    -- A conforming entry is refused by no branch, so each of its elements becomes a row.
    have hbranch : ∀ u ∈ s.secondaryTables,
        (s.branch u).writings (Entries.get? entries u.1) =
          ((s.elementsOf u.1 (.map entries)).map fun x => (u, x)).map s.writing := by
      intro u hu
      have hne := (mem_secondaryTables.1 hu).2
      rcases elements_of_takes (s := s) (hbranches u hu) with ⟨helements, hitems⟩
      rw [Store.Branch.writings, helements, elementsOf, if_neg hne, List.map_map]
      refine List.map_congr_left fun x hx => ?_
      rw [encode_eq (hitems x hx), Function.comp_apply, writing, if_neg hne]
      rfl
    rw [Store.Plan.writings_map, rowsIn_eq hsound hm, List.map_cons, htrunk, List.map_flatMap]
    exact congrArg (List.cons _) (List.flatMap_congr hbranch)

end Schema
end Espalier
