import Espalier.Proofs.Json.Trees
import Espalier.Proofs.Store.Replanting

/-!
# Documents that go through JSON text

A document that was read can be written as JSON text, read again from that text and inserted.
Everything but the floats comes back unchanged, and a float comes back as its own text is read.  So
the text is as good as the document exactly if every float is read as itself, which holds of brief
ones and not of all.
-/

namespace Espalier

/-- A double as a column keeps it. -/
def Double.stored (x : Double) : Double :=
  if x.isZero then zero false else x

/-! ## Values with other floats -/

/-- Whether a type admits a value does not depend on the floats in it. -/
theorem FieldType.admits_mapFloats (type : FieldType) (g : Double → Double) (value : Tree) :
    type.admits (value.mapFloats g) = type.admits value := by
  cases value <;> cases type <;> rfl

/-- What a type admits is a scalar. -/
theorem FieldType.nesting_of_admits {type : FieldType} {value : Tree}
    (h : type.admits value = true) : value.nesting = 0 := by
  cases value with
  | seq items => cases type <;> cases h
  | map entries => cases type <;> cases h
  | _ => rfl

/-- In the canonical form of a value, floats that change are stored as what they change to. -/
theorem FieldType.canon_mapFloats {type : FieldType} {value : Tree} {g : Double → Double}
    (h : type.admits value = true)
    (hnumber : ∀ x ∈ (type.canon (some value)).floats, (g x).isNaN = false) :
    type.canon (some ((type.canon (some value)).mapFloats g)) =
      (type.canon (some value)).mapFloats fun x => (g x).stored := by
  have hfloat : ∀ x, (g x).isNaN = false →
      FieldType.float.canon (some (.float (g x))) = .float (g x).stored := by
    intro x hx
    rw [canon, hx, if_neg Bool.false_ne_true]
    rfl
  cases type with
  | float =>
    cases value with
    | null => rfl
    | int n => exact hfloat _ (hnumber _ (List.mem_singleton_self _))
    | float x =>
      by_cases hnan : x.isNaN = true
      · rw [canon, if_pos hnan]
        rfl
      · rw [canon, if_neg hnan] at hnumber ⊢
        exact hfloat _ (hnumber _ (List.mem_singleton_self _))
    | _ => cases h
  | _ => cases value <;> first | rfl | cases h

/-- Entries fill the fields whatever becomes of their floats. -/
theorem Fills.mapFloats {fields : List Field} {entries : Entries Tree} (h : Fills fields entries)
    (g : Double → Double) : Fills fields (Tree.mapFloatsEntries g entries) := by
  intro f hf
  have hadmits := h f hf
  rw [Field.value] at hadmits
  rw [Field.value, Tree.get?_mapFloatsEntries]
  cases hvalue : Entries.get? entries f.name with
  | none => cases f.type <;> rfl
  | some value =>
    rw [hvalue, Option.getD_some] at hadmits
    rw [Option.map_some, Option.getD_some, FieldType.admits_mapFloats]
    exact hadmits

/-- The elements of a mapped entry are the mapped elements. -/
theorem Tree.elements_mapFloats (g : Double → Double) (value : Option Tree) :
    Tree.elements (value.map (Tree.mapFloats g)) =
      (Tree.elements value).map (Tree.mapFloats g) := by
  rcases value with _ | value
  · rfl
  · cases value with
    | seq items => exact Tree.mapFloatsItems_eq g items
    | _ => rfl

namespace Table

variable {t : Table}

/-- A table holds an element whatever becomes of its floats. -/
theorem Holds.mapFloats {x : Tree} (h : t.Holds x) (g : Double → Double) :
    t.Holds (x.mapFloats g) := by
  cases h with
  | scalar hlist hx =>
    refine .scalar hlist fun f hf => ?_
    rw [FieldType.admits_mapFloats]
    exact hx f hf
  | mapping hlist hfills => exact .mapping hlist (hfills.mapFloats g)

/-- A table takes a value whatever becomes of its floats. -/
theorem Takes.mapFloats {value : Option Tree} (h : t.Takes value) (g : Double → Double) :
    t.Takes (value.map (Tree.mapFloats g)) := by
  cases h with
  | absent => exact .absent
  | null => exact .null
  | sequence hitems =>
    rw [Option.map_some, Tree.mapFloats, Tree.mapFloatsItems_eq]
    refine .sequence fun y hy => ?_
    rcases List.mem_map.1 hy with ⟨x, hx, rfl⟩
    exact (hitems x hx).mapFloats g
  | single hlist hfills => exact .single hlist (hfills.mapFloats g)

theorem canon_scalar (hlist : t.isList = true) (x : Tree) :
    t.canon x = match t.valueField with
      | some f => f.type.canon (some x)
      | none => .null := by
  cases hvalue : t.valueField <;> simp only [Table.canon, if_pos hlist, hvalue]

theorem canon_mapping (hlist : t.isList = false) (entries : Entries Tree) :
    t.canon (.map entries) =
      .map (t.fields.map fun f => (f.name, f.type.canon (Entries.get? entries f.name))) := by
  rw [Table.canon, if_neg (by simp [hlist])]
  rfl

/-- The canonical form of an element is a scalar or a mapping of scalars to distinct keys. -/
theorem Holds.nesting_canon (hdistinct : (t.dataFields.map Field.name).Nodup) {x : Tree}
    (h : t.Holds x) : (t.canon x).nesting ≤ 1 ∧ (t.canon x).Distinct := by
  cases h with
  | scalar hlist hx =>
    have hscalar : (t.canon x).nesting = 0 := by
      rw [canon_scalar hlist]
      cases hfield : t.valueField with
      | none => rfl
      | some f => exact FieldType.nesting_of_admits (FieldType.admits_canon (hx f hfield))
    exact ⟨by omega, Tree.distinct_of_nesting hscalar⟩
  | @mapping entries hlist hfills =>
    rw [dataFields, if_neg (by simp [hlist])] at hdistinct
    have hscalar : ∀ e ∈ t.fields.map fun f =>
        (f.name, f.type.canon (Entries.get? entries f.name)), e.2.nesting = 0 := by
      intro e he
      rcases List.mem_map.1 he with ⟨f, hf, rfl⟩
      have hadmits := FieldType.admits_canon (hfills f hf)
      rw [Field.value, FieldType.canon_getD] at hadmits
      exact FieldType.nesting_of_admits hadmits
    rw [canon_mapping hlist, Tree.nesting]
    refine ⟨Nat.succ_le_succ (Tree.entriesNesting_le_iff.2 fun e he => (hscalar e he).le), ?_,
      Tree.entriesDistinct_iff.2 fun e he => Tree.distinct_of_nesting (hscalar e he)⟩
    rw [Entries.keys, List.map_map]
    exact hdistinct

/-- In the canonical form of an element, floats that change are stored as what they change to. -/
theorem Holds.canon_mapFloats (hdistinct : (t.dataFields.map Field.name).Nodup) {x : Tree}
    (h : t.Holds x) {g : Double → Double}
    (hnumber : ∀ y ∈ (t.canon x).floats, (g y).isNaN = false) :
    t.canon ((t.canon x).mapFloats g) = (t.canon x).mapFloats fun y => (g y).stored := by
  cases h with
  | scalar hlist hx =>
    rw [canon_scalar hlist] at hnumber
    rw [canon_scalar hlist, canon_scalar hlist]
    cases hfield : t.valueField with
    | none => rfl
    | some f =>
      rw [hfield] at hnumber
      exact FieldType.canon_mapFloats (hx f hfield) hnumber
  | @mapping entries hlist hfills =>
    rw [dataFields, if_neg (by simp [hlist])] at hdistinct
    rw [canon_mapping hlist] at hnumber
    have hmapped : Tree.mapFloatsEntries (fun y => (g y).stored) (t.fields.map fun f =>
        (f.name, f.type.canon (Entries.get? entries f.name))) = t.fields.map fun f => (f.name,
          (f.type.canon (Entries.get? entries f.name)).mapFloats fun y => (g y).stored) := by
      rw [Tree.mapFloatsEntries_eq, List.map_map]
      rfl
    rw [canon_mapping hlist, Tree.mapFloats, Tree.mapFloats, canon_mapping hlist, hmapped]
    refine congrArg Tree.map (List.map_congr_left fun f hf => ?_)
    have hfloats : ∀ y ∈ (f.type.canon (some (f.value entries))).floats, (g y).isNaN = false := by
      rw [Field.value, FieldType.canon_getD]
      intro y hy
      refine hnumber y ?_
      rw [Tree.floats, Tree.floatsEntries_eq]
      exact List.mem_flatMap.2 ⟨_, List.mem_map_of_mem hf, hy⟩
    have hvalue := FieldType.canon_mapFloats (hfills f hf) hfloats
    rw [Field.value, FieldType.canon_getD] at hvalue
    rw [Tree.get?_mapFloatsEntries, get?_canonFields hdistinct _ hf, Option.map_some]
    exact congrArg (Prod.mk f.name) hvalue

end Table

/-! ## Documents with other floats -/

namespace Schema

variable {s : Schema} {db : Database} {id : Int64} {entries : Entries Tree} {g : Double → Double}

/-- A tree conforms whatever becomes of its floats. -/
theorem Conforms.mapFloats {tree : Tree} (h : s.Conforms tree) (g : Double → Double) :
    s.Conforms (tree.mapFloats g) := by
  cases h with
  | mapping hfills htakes =>
    refine .mapping (hfills.mapFloats g) fun u hu => ?_
    rw [Tree.get?_mapFloatsEntries]
    exact (htakes u hu).mapFloats g

/-- There is room for a tree whatever becomes of its floats. -/
theorem HasRoom.mapFloats (h : s.HasRoom db (.map entries)) (g : Double → Double) :
    s.HasRoom db (.map (Tree.mapFloatsEntries g entries)) where
  main := h.main
  branches u hu := by
    have hroom := h.branches u hu
    rw [Tree.get?] at hroom
    rw [Tree.get?, Tree.get?_mapFloatsEntries, Tree.elements_mapFloats, List.length_map]
    exact hroom

/-- A document in the form in which it is read. -/
structure Grown (s : Schema) (id : Int64) (entries : Entries Tree) : Prop where
  self : entries = s.document id entries
  conforms : s.Conforms (.map entries)

namespace Grown

/-- The value of a main field is the canonical form of what the field admits. -/
theorem field (h : s.Grown id entries) (hsound : s.Sound) {f : Field} (hf : f ∈ s.mainFields) :
    Entries.get? entries f.name = some (f.type.canon (some (f.value entries))) ∧
      f.type.admits (f.value entries) = true := by
  have hget := get?_document_field hsound id entries hf
  rw [← h.self, ← FieldType.canon_getD] at hget
  refine ⟨hget, ?_⟩
  cases h.conforms with
  | mapping hfills _ => exact hfills f hf

/-- The elements of a branch are held by the table, and they are their own canonical forms. -/
theorem branch (h : s.Grown id entries) {u : String × Table} (hu : u ∈ s.secondaryTables) :
    Entries.get? entries u.1 =
        some (.seq ((Tree.elements (Entries.get? entries u.1)).map u.2.canon)) ∧
      ∀ x ∈ Tree.elements (Entries.get? entries u.1), u.2.Holds x := by
  have hget := get?_document_branch s id entries hu
  rw [← h.self] at hget
  refine ⟨hget, fun x hx => ?_⟩
  cases h.conforms with
  | mapping _ htakes =>
    have htake := htakes u hu
    rw [hget] at htake hx
    cases htake with
    | sequence hitems => exact hitems x hx

/-- A document is a mapping of scalars and of sequences to distinct keys. -/
theorem nesting (h : s.Grown id entries) (hsound : s.Sound) :
    (Tree.map entries).nesting ≤ 3 ∧ (Tree.map entries).Distinct := by
  have hentries : ∀ e ∈ entries, e.2.nesting ≤ 2 ∧ e.2.Distinct := by
    intro e he
    rw [h.self, document] at he
    rcases Entries.mem_of_mem_merge he with he | he
    · rcases List.mem_cons.1 he with rfl | he
      · exact ⟨Nat.zero_le _, trivial⟩
      · rcases List.mem_map.1 he with ⟨f, hf, rfl⟩
        have hscalar := FieldType.nesting_of_admits
          (FieldType.admits_canon (h.field hsound hf).2)
        rw [Field.value, FieldType.canon_getD] at hscalar
        exact ⟨hscalar.le.trans (by decide), Tree.distinct_of_nesting hscalar⟩
    · rcases List.mem_map.1 he with ⟨u, hu, rfl⟩
      have hdistinct := (hsound.tables u (mem_secondaryTables.1 hu).1).nodup_names
      have hitems : ∀ x ∈ (Tree.elements (Entries.get? entries u.1)).map u.2.canon,
          x.nesting ≤ 1 ∧ x.Distinct := by
        intro x hx
        rcases List.mem_map.1 hx with ⟨y, hy, rfl⟩
        exact ((h.branch hu).2 y hy).nesting_canon hdistinct
      exact ⟨Nat.succ_le_succ (Tree.itemsNesting_le_iff.2 fun x hx => (hitems x hx).1),
        Tree.itemsDistinct_iff.2 fun x hx => (hitems x hx).2⟩
  have hkeys : (Entries.keys entries).Nodup := h.self ▸ nodup_keys_document hsound id entries
  exact ⟨Nat.succ_le_succ (Tree.entriesNesting_le_iff.2 fun e he => (hentries e he).1), hkeys,
    Tree.entriesDistinct_iff.2 fun e he => (hentries e he).2⟩

/-- A main field with other floats is read with its floats as they are stored. -/
theorem canon_field (h : s.Grown id entries) (hsound : s.Sound)
    (hnumber : ∀ x ∈ (Tree.map entries).floats, (g x).isNaN = false) {f : Field}
    (hf : f ∈ s.mainFields) :
    f.type.canon (Entries.get? (Tree.mapFloatsEntries g entries) f.name) =
      (f.type.canon (Entries.get? entries f.name)).mapFloats fun x => (g x).stored := by
  obtain ⟨hvalue, hadmits⟩ := h.field hsound hf
  calc f.type.canon (Entries.get? (Tree.mapFloatsEntries g entries) f.name)
      = f.type.canon (some ((f.type.canon (some (f.value entries))).mapFloats g)) := by
        rw [Tree.get?_mapFloatsEntries, hvalue, Option.map_some]
    _ = (f.type.canon (some (f.value entries))).mapFloats fun x => (g x).stored :=
        FieldType.canon_mapFloats hadmits fun x hx => hnumber x (Tree.mem_floats_of_get? hvalue hx)
    _ = _ := by rw [Field.value, FieldType.canon_getD]

/-- The elements of a branch with other floats are read with their floats as they are stored. -/
theorem canon_branch (h : s.Grown id entries) (hsound : s.Sound)
    (hnumber : ∀ x ∈ (Tree.map entries).floats, (g x).isNaN = false) {u : String × Table}
    (hu : u ∈ s.secondaryTables) :
    (Tree.elements (Entries.get? (Tree.mapFloatsEntries g entries) u.1)).map u.2.canon =
      ((Tree.elements (Entries.get? entries u.1)).map u.2.canon).map
        (Tree.mapFloats fun x => (g x).stored) := by
  obtain ⟨hvalue, hholds⟩ := h.branch hu
  have hdistinct := (hsound.tables u (mem_secondaryTables.1 hu).1).nodup_names
  have hitems : ∀ y ∈ Tree.elements (Entries.get? entries u.1), ∀ x ∈ (u.2.canon y).floats,
      (g x).isNaN = false := by
    intro y hy x hx
    refine hnumber x (Tree.mem_floats_of_get? hvalue ?_)
    rw [Tree.floats, Tree.floatsItems_eq]
    exact List.mem_flatMap.2 ⟨_, List.mem_map_of_mem hy, hx⟩
  have hself : Tree.elements (Entries.get? entries u.1) =
      (Tree.elements (Entries.get? entries u.1)).map u.2.canon := congrArg Tree.elements hvalue
  rw [Tree.get?_mapFloatsEntries, Tree.elements_mapFloats]
  generalize Tree.elements (Entries.get? entries u.1) = items at hself hholds hitems ⊢
  calc (items.map (Tree.mapFloats g)).map u.2.canon
      = ((items.map u.2.canon).map (Tree.mapFloats g)).map u.2.canon := by rw [← hself]
    _ = (items.map u.2.canon).map (Tree.mapFloats fun x => (g x).stored) := by
        rw [List.map_map, List.map_map, List.map_map]
        exact List.map_congr_left fun y hy =>
          (hholds y hy).canon_mapFloats hdistinct (hitems y hy)

/-- A document with other floats grows back with its floats as they are stored. -/
theorem document_mapFloats (h : s.Grown id entries) (hsound : s.Sound) (id' : Int64)
    (hnumber : ∀ x ∈ (Tree.map entries).floats, (g x).isNaN = false) :
    s.document id' (Tree.mapFloatsEntries g entries) =
      Tree.mapFloatsEntries (fun x => (g x).stored) (s.document id' entries) := by
  rw [Tree.mapFloatsEntries_eq (fun x => (g x).stored), document, document, ← Entries.merge_map,
    List.map_cons, List.map_map, List.map_map]
  congr 1
  · refine congrArg (List.cons (idColumn, Tree.int id')) (List.map_congr_left fun f hf => ?_)
    exact congrArg (Prod.mk f.name) (h.canon_field hsound hnumber hf)
  · refine List.map_congr_left fun u hu => ?_
    rw [h.canon_branch hsound hnumber hu, Function.comp, Tree.mapFloats, Tree.mapFloatsItems_eq]

/-- The floats of a document are as they are stored. -/
theorem stored_floats (h : s.Grown id entries) (hsound : s.Sound)
    (hnumber : ∀ x ∈ (Tree.map entries).floats, x.isNaN = false) :
    ∀ x ∈ (Tree.map entries).floats, x.stored = x := by
  have hsame : Tree.mapFloatsEntries (fun x => x) entries = entries :=
    (Tree.mapFloatsEntries_eq_self_iff _ entries).2 fun _ _ => rfl
  have hdocument := h.document_mapFloats hsound id (g := fun x => x) hnumber
  rw [hsame, ← h.self] at hdocument
  exact (Tree.mapFloatsEntries_eq_self_iff _ entries).1 hdocument.symm

end Grown

end Schema

namespace Double

/-- The double that a float of a document becomes on the way through JSON text and a column. -/
def replanted (x : Double) : Double :=
  x.returned.stored

theorem isNaN_of_isFinite {x : Double} (h : x.isFinite = true) : x.isNaN = false := by
  rw [isFinite_iff] at h
  simp [isNaN, h]

/-- A float that is finite comes back finite. -/
theorem isFinite_returned {x : Double} (h : x.isFinite = true) : x.returned.isFinite = true := by
  rw [returned, reread?_eq h]
  cases hread : x.numeral.double? with
  | none => exact h
  | some y => exact Json.Numeral.isFinite_of_double? hread

/-- A stored float that is read at all stays as it is exactly if it is read as itself. -/
theorem replanted_eq_self_iff {x : Double} (hstored : x.stored = x)
    (hread : x.reread?.isSome = true) : x.replanted = x ↔ x.reread? = some x := by
  rcases Option.isSome_iff_exists.1 hread with ⟨y, hy⟩
  have hreturned : x.returned = y := by rw [returned, hy, Option.getD_some]
  rw [replanted, hreturned, hy, Option.some.injEq]
  constructor
  · intro h
    by_cases hzero : y.isZero = true
    · -- Then the float is zero without a sign, which is read as itself.
      have hx : x = zero false := by rw [← h, stored, if_pos hzero]
      have hself : (zero false).reread? = some (zero false) :=
        reread?_of_brief (by decide) (by decide)
      rw [hx, hself] at hy
      rw [hx, ← Option.some.inj hy]
    · rw [stored, if_neg hzero] at h
      exact h
  · rintro rfl
    exact hstored

end Double

namespace Store

/--
A document that was read from any database that a run leads to and whose floats are finite, written
as JSON text: the text is read exactly if that of every float is.  What it is read as is inserted if
numbers are left for its rows, and grows back with the same entries in the same order, all but the
id, each float being what its own text is read as.  So the entries are the same exactly if every
float is read as itself, and brief floats are.
-/
theorem get_reimported (s : Store) (checked : Bool) (steps : List Step) (id : Int64)
    (entries : Entries Tree) (hget : (s.get id).result (s.reached { checked } steps) = .ok entries)
    (hfinite : ∀ x ∈ (Tree.map entries).floats, x.isFinite = true) :
    ((Tree.ofJsonText? (Tree.map entries).jsonText).isSome = true ↔
        ∀ x ∈ (Tree.map entries).floats, x.reread?.isSome = true) ∧
      (∀ tree, Tree.ofJsonText? (Tree.map entries).jsonText = some tree →
        (s.schema.HasRoom (s.reached { checked } steps) (.map entries) →
          ∃ id', (s.insert tree).result (s.reached { checked } steps) = .ok id') ∧
        ∀ id', (s.insert tree).result (s.reached { checked } steps) = .ok id' →
          ∃ value value' rest rest',
            idColumn ∉ Entries.keys rest ∧ entries = (idColumn, value) :: rest ∧
            (s.get id').result (s.reached { checked } (steps ++ [.insert tree])) =
              .ok ((idColumn, value') :: rest') ∧
            rest' = Tree.mapFloatsEntries Double.replanted rest ∧
            (rest' = rest ↔ ∀ x ∈ (Tree.map rest).floats, x.reread? = some x)) ∧
      ∀ x ∈ (Tree.map entries).floats, x.numeral.Brief → x.reread? = some x := by
  have hsound := s.schema_sound
  rcases s.keeps_reached_empty checked steps with ⟨htended, hcomplete, -⟩
  obtain ⟨hrooted, hself, hconforms⟩ :=
    rooted_self_of_get htended hcomplete (s.stocked_reached checked steps) hget
  have hfurnished := hrooted.furnished hsound hcomplete
  have hgrown : s.schema.Grown id entries := ⟨hself, hconforms⟩
  -- A document has three levels at most, so the reader never reaches its limit.
  obtain ⟨hnesting, hdistinct⟩ := hgrown.nesting hsound
  have hlimit : (Tree.map entries).nesting ≤ Json.nestingLimit := hnesting.trans (by decide)
  have hread := Tree.isSome_ofJsonText? hlimit hfinite
  refine ⟨hread, fun tree htree => ?_, fun x hx => Double.reread?_of_brief (hfinite x hx)⟩
  have heach := hread.1 (by rw [htree]; rfl)
  obtain rfl := Tree.eq_of_ofJsonText? hlimit hdistinct hfinite htree
  rw [Tree.mapFloats]
  refine ⟨fun hroom => exists_insert htended hfurnished (hroom.mapFloats Double.returned)
    (hconforms.mapFloats Double.returned), fun id' hinsert => ?_⟩
  obtain ⟨-, hgrew⟩ := s.get_of_insert checked steps _ id' hinsert
  -- What comes back is finite again, and then a column changes nothing but the sign of zero.
  have hnumber : ∀ x ∈ (Tree.map entries).floats, x.returned.isNaN = false := fun x hx =>
    Double.isNaN_of_isFinite (Double.isFinite_returned (hfinite x hx))
  rw [hgrown.document_mapFloats hsound id' hnumber] at hgrew
  obtain ⟨rest, hrest⟩ := s.schema.exists_document_cons entries
  rcases hrest id with ⟨value, hvalue⟩
  rcases hrest id' with ⟨value', hvalue'⟩
  rw [hvalue', Tree.mapFloatsEntries] at hgrew
  have hentries : entries = (idColumn, value) :: rest := hself.trans hvalue
  have hmem : ∀ x ∈ (Tree.map rest).floats, x ∈ (Tree.map entries).floats := by
    intro x hx
    rw [hentries, Tree.floats, Tree.floatsEntries]
    exact List.mem_append_right _ hx
  have hnodup := Schema.nodup_keys_document hsound id entries
  rw [hvalue] at hnodup
  refine ⟨value, _, rest, _, (List.nodup_cons.1 hnodup).1, hentries, hgrew, rfl, ?_⟩
  rw [Tree.mapFloatsEntries_eq_self_iff]
  refine forall₂_congr fun x hx => Double.replanted_eq_self_iff ?_ (heach x (hmem x hx))
  exact hgrown.stored_floats hsound
    (fun y hy => Double.isNaN_of_isFinite (hfinite y hy)) x (hmem x hx)

/-- The text of a plant whose height is a brief float grows back to the same plant. -/
theorem get_reimported_plants : ∃ id tree entries value rest,
    (plants.get 1).result (plants.reached {} potted) = .ok entries ∧
      Tree.ofJsonText? (Tree.map entries).jsonText = some tree ∧
      (plants.get id).result (plants.reached {} (potted ++ [.insert tree])) =
        .ok ((idColumn, value) :: rest) ∧
      rest = [("name", .null), ("height", .float (Double.ofInt 3)),
        ("tags", .seq [.text "green", .null]), ("leaves", .seq [])] := by
  have hget := (plants.get_of_insert true [.provision]
    [("height", .int 3), ("tags", .seq [.text "green", .null])] 1 (by decide +kernel)).2
  obtain ⟨hread, himport, hbrief⟩ := get_reimported plants true potted 1 _ hget (by decide +kernel)
  have hfloats : (Tree.map (plants.schema.document 1
      [("height", .int 3), ("tags", .seq [.text "green", .null])])).floats = [Double.ofInt 3] := by
    decide +kernel
  rw [hfloats] at hread hbrief
  have hself : ∀ x ∈ [Double.ofInt 3], x.reread? = some x := by
    intro x hx
    obtain rfl := List.mem_singleton.1 hx
    exact hbrief _ hx (by decide +kernel)
  obtain ⟨tree, htree⟩ := Option.isSome_iff_exists.1
    (hread.2 fun x hx => by rw [hself x hx]; rfl)
  obtain ⟨hinsert, hgrown⟩ := himport tree htree
  obtain ⟨id, hid⟩ := hinsert ⟨by decide +kernel, by decide +kernel⟩
  obtain ⟨value, value', rest, rest', -, hentries, hgrew, -, hsame⟩ := hgrown id hid
  rw [hsame.2 fun x hx => hself x (by
    rw [← hfloats, hentries]
    exact List.mem_append_right _ hx)] at hgrew
  exact ⟨id, tree, _, value', rest, hget, htree, hgrew, (List.cons.inj hentries).2.symm⟩

end Store
end Espalier
