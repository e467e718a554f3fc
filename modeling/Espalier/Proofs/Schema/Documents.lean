import Espalier.Proofs.Entries
import Espalier.Proofs.Json.Compact
import Espalier.Schema.Document
import Mathlib.Data.List.Forall2

/-!
# Schemas written and read again

A schema is written with what has a default left out, with the canonical names of its types, and
with its names quoted as JSON asks for.  `Schema.ofJsonText?_compact` says that the reader restores
all of it, whether the schema is sound or not, as long as its types are what names stand for.
-/

namespace Espalier

/-! ## Names of types -/

namespace FieldType

/-- A name that is not known is kept as it is. -/
theorem eq_of_ofName_eq_unknown {name word : String} (h : ofName name = unknown word) :
    word = name := by
  unfold ofName at h
  dsimp only at h
  split_ifs at h
  exact (unknown.inj h).symm

/-- The name of a type that a name stands for stands for that type. -/
theorem ofName_name (name : String) : ofName (ofName name).name = ofName name := by
  cases h : ofName name with
  | unknown word =>
    obtain rfl := eq_of_ofName_eq_unknown h
    exact h
  -- The canonical names of the known types are names of theirs.
  | _ => decide

/-- Names that differ in the case of letters stand for one type, if it is known. -/
theorem ofName_congr {a b : String} (h : Ascii.fold a = Ascii.fold b)
    (hknown : (ofName a).isKnown = true) : ofName b = ofName a := by
  unfold ofName at hknown ⊢
  dsimp only at hknown ⊢
  rw [← h]
  split_ifs at hknown ⊢ <;> first | rfl | cases hknown

/-- The type is what some name stands for. -/
def Named (type : FieldType) : Prop :=
  ∃ name, type = ofName name

/-- The name of a type that can be named stands for the type. -/
theorem Named.ofName_name {type : FieldType} (h : type.Named) : ofName type.name = type := by
  rcases h with ⟨name, rfl⟩
  exact FieldType.ofName_name name

end FieldType

/-- Every field of a table, whether it carries data or not, has a type that some name stands for. -/
def Table.Named (t : Table) : Prop :=
  ∀ f ∈ t.fields ++ t.valueField.toList, f.type.Named

def Schema.Named (s : Schema) : Prop :=
  ∀ u ∈ s.tables, u.2.Named

/-! ## Values without doubles -/

namespace Json

/-- A value is read as it was written, and it is nested no deeper than so many levels. -/
def Plain (n : Nat) (j : Json) : Prop :=
  j.reread? = some j ∧ j.nesting ≤ n

theorem plain_text (n : Nat) (s : String) : (text s).Plain n :=
  ⟨rfl, Nat.zero_le n⟩

theorem plain_bool (n : Nat) (b : Bool) : (bool b).Plain n :=
  ⟨rfl, Nat.zero_le n⟩

theorem plain_array {n : Nat} {items : List Json} (h : ∀ j ∈ items, j.Plain n) :
    (array items).Plain (n + 1) := by
  have hitems : rereadItems? items = some items ∧ itemsNesting items ≤ n := by
    induction items with
    | nil => exact ⟨rfl, Nat.zero_le n⟩
    | cons j rest ih =>
      rw [List.forall_mem_cons] at h
      rcases h with ⟨⟨hread, hnesting⟩, hrest⟩
      rcases ih hrest with ⟨hreads, hnestings⟩
      refine ⟨?_, Nat.max_le.2 ⟨hnesting, hnestings⟩⟩
      rw [rereadItems?, hread, hreads]
      rfl
  refine ⟨?_, Nat.succ_le_succ hitems.2⟩
  rw [reread?, hitems.1]
  rfl

theorem plain_object {n : Nat} {members : List (String × Json)} (h : ∀ m ∈ members, m.2.Plain n) :
    (object members).Plain (n + 1) := by
  have hmembers : rereadMembers? members = some members ∧ membersNesting members ≤ n := by
    induction members with
    | nil => exact ⟨rfl, Nat.zero_le n⟩
    | cons m rest ih =>
      rw [List.forall_mem_cons] at h
      rcases h with ⟨⟨hread, hnesting⟩, hrest⟩
      rcases ih hrest with ⟨hreads, hnestings⟩
      refine ⟨?_, Nat.max_le.2 ⟨hnesting, hnestings⟩⟩
      rw [rereadMembers?, hread, hreads]
      rfl
  refine ⟨?_, Nat.succ_le_succ hmembers.2⟩
  rw [reread?, hmembers.1]
  rfl

/-- What is nested within the limit is read back as it was written. -/
theorem Plain.read?_compact {n : Nat} {j : Json} (h : j.Plain n) (hn : n ≤ nestingLimit) :
    read? j.compact = some j := by
  rw [Json.read?_compact (h.2.trans hn), h.1]

end Json

open Json (Plain)

theorem Field.plain_toJson (f : Field) : f.toJson.Plain 1 := by
  refine Json.plain_object ?_
  simp [Json.plain_text]

theorem Table.plain_toJson (t : Table) : t.toJson.Plain 3 := by
  have hfields : (Json.array (t.fields.map Field.toJson)).Plain 2 := by
    refine Json.plain_array fun j hj => ?_
    rcases List.mem_map.1 hj with ⟨f, -, rfl⟩
    exact f.plain_toJson
  refine Json.plain_object fun m hm => ?_
  rcases List.mem_append.1 hm with hm | hm
  · rcases List.mem_append.1 hm with hm | hm
    · split at hm
      · cases hm
      · rw [List.mem_singleton] at hm
        exact hm ▸ hfields
    · split at hm
      · rw [List.mem_singleton] at hm
        exact hm ▸ Json.plain_bool 2 true
      · cases hm
  · split at hm
    · cases hm
    · rename_i f _
      rw [List.mem_singleton] at hm
      exact hm ▸ ⟨f.plain_toJson.1, f.plain_toJson.2.trans (by decide)⟩

theorem Schema.plain_toJson (s : Schema) : s.toJson.Plain 5 := by
  refine Json.plain_object ?_
  rw [List.forall_mem_cons, List.forall_mem_singleton]
  refine ⟨Json.plain_text 4 _, Json.plain_object fun m hm => ?_⟩
  rcases List.mem_map.1 hm with ⟨u, -, rfl⟩
  exact u.2.plain_toJson

/-! ## Records read again -/

namespace Document

/-- An object that has some of the members of a record, in their order, is read as they are. -/
theorem members?_object {names : List String} (hnames : names.Nodup)
    {members : List (String × Json)} (h : (members.map Prod.fst).Sublist names) :
    members? names (Json.object members) = some members := by
  have hmembers : (members.map Prod.fst).Nodup ∧ ∀ key ∈ members.map Prod.fst, key ∈ names :=
    ⟨hnames.sublist h, fun key hkey => h.subset hkey⟩
  exact if_pos hmembers

/-- A list is read when each of its elements is. -/
theorem mapM_eq_some {α β : Type} {read : β → Option α} {l : List β} {r : List α} :
    l.mapM read = some r ↔ List.Forall₂ (fun b a => read b = some a) l r := by
  induction l generalizing r with
  | nil => simp [eq_comm]
  | cons b l ih =>
    rw [List.mapM_cons, Option.bind_eq_bind, Option.bind_eq_some_iff]
    constructor
    · rintro ⟨a, ha, hrest⟩
      rcases Option.bind_eq_some_iff.1 hrest with ⟨as, has, hr⟩
      cases hr
      exact .cons ha (ih.1 has)
    · intro h
      cases h with
      | cons ha has => exact ⟨_, ha, Option.bind_eq_some_iff.2 ⟨_, ih.2 has, rfl⟩⟩

/-- What is written of each element of a list and read again is the list. -/
theorem mapM_map_eq_some {α β : Type} {read : β → Option α} {write : α → β} {l : List α}
    (h : ∀ a ∈ l, read (write a) = some a) : (l.map write).mapM read = some l := by
  rw [mapM_eq_some, List.forall₂_map_left_iff, List.forall₂_same]
  exact h

end Document

open Document

/-- A field whose type has a name is read back from what is written of it. -/
theorem Field.read?_toJson {f : Field} (h : f.type.Named) : Field.read? f.toJson = some f := by
  have hmembers : members? ["name", "type"] f.toJson =
      some [("name", .text f.name), ("type", .text f.type.name)] :=
    members?_object (by decide) (List.Sublist.refl ["name", "type"])
  have hread : Field.read? f.toJson = some ⟨f.name, FieldType.ofName f.type.name⟩ := by
    rw [Field.read?, hmembers]
    rfl
  rw [hread, h.ofName_name]

/-- Fields whose types have names are read back in order. -/
theorem Field.readAll?_toJson {fields : List Field} (h : ∀ f ∈ fields, f.type.Named) :
    Field.readAll? (Json.array (fields.map Field.toJson)) = some fields :=
  mapM_map_eq_some fun f hf => Field.read?_toJson (h f hf)

def Table.members (t : Table) : List (String × Json) :=
  (if t.fields.isEmpty then [] else [("fields", .array (t.fields.map Field.toJson))]) ++
    (if t.isList then [("is_list", .bool true)] else []) ++
    match t.valueField with
    | none => []
    | some f => [("value_field", f.toJson)]

section Members

variable {t : Table} (h : t.Named)

include h

/-- Fields that were left out are no fields. -/
theorem Table.read?_fields : optional? [] Field.readAll? t.members "fields" = some t.fields := by
  rcases t with ⟨_ | ⟨f, fields⟩, isList, valueField⟩
  · cases isList <;> cases valueField <;> rfl
  · exact Field.readAll?_toJson fun g hg => h g (List.mem_append_left _ hg)

omit h in
/-- A flag that was left out is not set. -/
theorem Table.read?_isList : optional? false flag? t.members "is_list" = some t.isList := by
  rcases t with ⟨_ | ⟨f, fields⟩, isList, valueField⟩ <;> cases isList <;> cases valueField <;> rfl

/-- A value field that was left out is none. -/
theorem Table.read?_valueField :
    optional? none (nullable? Field.read?) t.members "value_field" = some t.valueField := by
  rcases t with ⟨fields, isList, _ | f⟩
  · cases fields <;> cases isList <;> rfl
  · have hfield : Field.read? f.toJson = some f :=
      Field.read?_toJson (h f (List.mem_append_right _ List.mem_cons_self))
    have hvalue : nullable? Field.read? f.toJson = some (some f) :=
      congrArg (Option.map some) hfield
    cases fields <;> cases isList <;> exact hvalue

/-- A table is restored from what was written of it. -/
theorem Table.read?_toJson : Table.read? t.toJson = some t := by
  -- Whatever is left out, what is written is in the order in which it is read.
  have hnames : (t.members.map Prod.fst).Sublist ["fields", "is_list", "value_field"] := by
    rcases t with ⟨_ | ⟨f, fields⟩, isList, valueField⟩ <;> cases isList <;> cases valueField <;>
      exact List.isSublist_iff_sublist.1 rfl
  have hobject : t.toJson = .object t.members := rfl
  rw [Table.read?, hobject, members?_object (by decide) hnames]
  simp only [Option.bind_eq_bind, Option.bind_some, Table.read?_fields h, Table.read?_isList,
    Table.read?_valueField h]
  rfl

end Members

/-- Tables whose types have names are read back in order. -/
theorem Table.readAll?_toJson {tables : List (String × Table)} (h : ∀ u ∈ tables, u.2.Named) :
    Table.readAll? (Json.object (tables.map fun u => (u.1, u.2.toJson))) = some tables := by
  have hread : ∀ u ∈ tables, (Table.read? u.2.toJson).map (fun t => (u.1, t)) = some u := by
    intro u hu
    rw [Table.read?_toJson (h u hu)]
    rfl
  exact mapM_map_eq_some hread

namespace Schema

def members (s : Schema) : List (String × Json) :=
  [("main_table", .text s.mainTable), ("tables", .object (s.tables.map fun u => (u.1, u.2.toJson)))]

/-- A schema is restored from what was written of it. -/
theorem read?_toJson {s : Schema} (h : s.Named) : read? s.toJson = some s := by
  have hobject : s.toJson = .object s.members := rfl
  have hmain : required? text? s.members "main_table" = some s.mainTable := rfl
  have hnames : (s.members.map Prod.fst).Sublist ["main_table", "tables"] := List.Sublist.refl _
  have htables : required? Table.readAll? s.members "tables" = some s.tables :=
    Table.readAll?_toJson h
  have hdistinct : Entries.ofPairs s.tables = s.tables := Entries.ofPairs_eq_self s.distinct
  rw [read?, hobject, members?_object (by decide) hnames]
  simp only [Option.bind_eq_bind, Option.bind_some, hmain, htables]
  rcases s with ⟨mainTable, tables, _⟩
  simp only [ofTables, hdistinct]
  rfl

/--
A schema whose types are what names stand for is read again as it was from its compact text: the
same main table, and the same tables in the same order with the same fields.  The name of a type
stands for that type again; a name that is not known is kept, and of one that is known the case of
letters does not matter.
-/
theorem ofJsonText?_compact (s : Schema) (h : s.Named) :
    ofJsonText? s.toJson.compact = some s ∧
    (∀ name, FieldType.ofName (FieldType.ofName name).name = FieldType.ofName name) ∧
    (∀ name, (FieldType.ofName name).isKnown = false → (FieldType.ofName name).name = name) ∧
    ∀ a b, Ascii.fold a = Ascii.fold b → (FieldType.ofName a).isKnown = true →
      FieldType.ofName b = FieldType.ofName a := by
  refine ⟨?_, FieldType.ofName_name, ?_, fun a b => FieldType.ofName_congr⟩
  · rw [ofJsonText?, s.plain_toJson.read?_compact (by decide), Option.bind_some, read?_toJson h]
  · intro name hknown
    cases hname : FieldType.ofName name with
    | unknown word => exact FieldType.eq_of_ofName_eq_unknown hname
    | _ =>
      rw [hname] at hknown
      cases hknown

/-- A schema that is not sound: a list with fields, no main table, and names that must be quoted or
that stand for nothing. -/
def wild : Schema :=
  .ofTables "gärten"
    [("a \"b\"\n", { fields := [⟨"", .unknown "Blob "⟩, ⟨"", .datetime⟩], isList := true }),
      ("🌿", { valueField := some ⟨"\\", .unknown ""⟩ })]

theorem ofJsonText?_compact_wild : wild.Named ∧ ofJsonText? wild.toJson.compact = some wild := by
  have hnamed : wild.Named := by
    have htables : wild.tables =
        [("a \"b\"\n", ⟨[⟨"", .unknown "Blob "⟩, ⟨"", .datetime⟩], true, none⟩),
          ("🌿", ⟨[], false, some ⟨"\\", .unknown ""⟩⟩)] := by decide
    rw [Schema.Named, htables, List.forall_mem_cons, List.forall_mem_singleton]
    refine ⟨?_, ?_⟩
    · rintro f (_ | ⟨_, _ | ⟨_, _ | ⟨_, ⟨⟩⟩⟩⟩)
      · exact ⟨"Blob ", by decide⟩
      · exact ⟨"TimeStamp", by decide⟩
    · rintro f (_ | ⟨_, ⟨⟩⟩)
      exact ⟨"", by decide⟩
  exact ⟨hnamed, (ofJsonText?_compact wild hnamed).1⟩

end Schema
end Espalier
