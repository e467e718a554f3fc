import Espalier.Proofs.Json.Grammar
import Espalier.Proofs.Schema.Documents

/-!
# The grammar of schemas

Which JSON values denote a schema, by rules and without a reader.  Each record of a schema is an
object whose members are known and stand once, in any order, or the array of its members in their
own order.  `Schema.loadJson_outcome` says that every text loads as what it denotes: a schema if it
is sound, its first fault if it is not, and a malformed text if it denotes none.
-/

namespace Espalier

/-! ## Rules -/

/-- A record of two members that must both be there. -/
inductive Json.IsPair (a b : String) (x y : Json) : Json → Prop
  | object {members : List (String × Json)} (h : members.Perm [(a, x), (b, y)]) :
      IsPair a b x y (.object members)
  | array : IsPair a b x y (.array [x, y])

/-- A member that may be missing, for its default. -/
inductive Json.IsPart {α : Type} (Denoted : Json → α → Prop) (default : α) : Option Json → α → Prop
  | missing : IsPart Denoted default none default
  | there {j : Json} {a : α} (h : Denoted j a) : IsPart Denoted default (some j) a

open Json (IsPair IsPart)

/-- A value denotes a field: its name and a name of its type. -/
def Field.Denoted (j : Json) (f : Field) : Prop :=
  ∃ type, IsPair "name" "type" (.text f.name) (.text type) j ∧ f.type = FieldType.ofName type

inductive Field.AllDenoted : Json → List Field → Prop
  | array {items : List Json} {fields : List Field} (h : List.Forall₂ Field.Denoted items fields) :
      AllDenoted (.array items) fields

inductive Field.NullDenoted : Json → Option Field → Prop
  | null : NullDenoted .null none
  | field {j : Json} {f : Field} (h : Field.Denoted j f) : NullDenoted j (some f)

/-- The members of a table, each of which may be missing. -/
structure Table.Parts (fields isList valueField : Option Json) (t : Table) : Prop where
  fields : IsPart Field.AllDenoted [] fields t.fields
  isList : IsPart (fun j b => j = .bool b) false isList t.isList
  valueField : IsPart Field.NullDenoted none valueField t.valueField

/-- A value denotes a table. -/
inductive Table.Denoted : Json → Table → Prop
  | object {members : List (String × Json)} {t : Table} (distinct : (Entries.keys members).Nodup)
      (known : ∀ key ∈ Entries.keys members, key ∈ ["fields", "is_list", "value_field"])
      (parts : t.Parts (Entries.get? members "fields") (Entries.get? members "is_list")
        (Entries.get? members "value_field")) : Denoted (.object members) t
  | array {items : List Json} {t : Table} (short : items.length ≤ 3)
      (parts : t.Parts items[0]? items[1]? items[2]?) : Denoted (.array items) t

/--
Members denote tables: each of them the table under its name, and all of them together the tables
in which a name keeps the place where it comes first and the table with which it comes last.
-/
def Table.AllDenoted (members : List (String × Json)) (tables : Entries Table) : Prop :=
  ∃ written : List (String × Table),
    List.Forall₂ (fun m u => m.1 = u.1 ∧ Table.Denoted m.2 u.2) members written ∧
      Entries.keys tables = (written.map Prod.fst).eraseDups ∧
      ∀ key, Entries.get? tables key = Entries.get? written.reverse key

/-- A value denotes a schema: the name of its main table and its tables. -/
def Schema.Denoted (j : Json) (s : Schema) : Prop :=
  ∃ members, IsPair "main_table" "tables" (.text s.mainTable) (.object members) j ∧
    Table.AllDenoted members s.tables

/-- A text is one document, and that document denotes a schema. -/
def Schema.DenotedBy (text : String) (s : Schema) : Prop :=
  ∃ j, Json.DocumentText j text ∧ Schema.Denoted j s

/-! ## Members that are read -/

namespace Document

variable {names : List String} {m : List (String × Json)}

/-- The members of an object are those of a record if they are named by it, each once. -/
theorem members?_object_eq_some {members : List (String × Json)} :
    members? names (Json.object members) = some m ↔
      ((Entries.keys members).Nodup ∧ ∀ key ∈ Entries.keys members, key ∈ names) ∧ members = m :=
  Option.ite_none_right_eq_some.trans (and_congr_right fun _ => Option.some_inj)

/-- A record can be a list of its members in their order. -/
theorem members?_array_eq_some {items : List Json} :
    members? names (Json.array items) = some m ↔
      items.length ≤ names.length ∧ names.zip items = m :=
  Option.ite_none_right_eq_some.trans (and_congr_right fun _ => Option.some_inj)

theorem text?_eq_some {j : Json} {s : String} : text? j = some s ↔ j = .text s := by
  cases j <;> simp [text?]

theorem flag?_eq_some {j : Json} {b : Bool} : flag? j = some b ↔ j = .bool b := by
  cases j <;> simp [flag?]

theorem required?_text_eq_some {name s : String} :
    required? text? m name = some s ↔ Entries.get? m name = some (.text s) := by
  rw [required?, Option.bind_eq_some_iff]
  simp only [text?_eq_some, exists_eq_right]

/-- A record of two members is read when both of them are there. -/
theorem isPair_iff {a b : String} (hab : a ≠ b) {j x y : Json} :
    IsPair a b x y j ↔ ∃ m, members? [a, b] j = some m ∧
      Entries.get? m a = some x ∧ Entries.get? m b = some y := by
  constructor
  · rintro (hperm | _)
    · rcases (Entries.perm_pair_iff hab).1 hperm with ⟨hn, hkeys, hx, hy⟩
      exact ⟨_, members?_object_eq_some.2 ⟨⟨hn, hkeys⟩, rfl⟩, hx, hy⟩
    · refine ⟨_, members?_array_eq_some.2 ⟨Nat.le_refl 2, rfl⟩, ?_, ?_⟩ <;>
        simp [Entries.get?, hab]
  · rintro ⟨m, hm, hx, hy⟩
    cases j with
    | object members =>
      rcases members?_object_eq_some.1 hm with ⟨⟨hn, hkeys⟩, rfl⟩
      exact .object ((Entries.perm_pair_iff hab).2 ⟨hn, hkeys, hx, hy⟩)
    | array items =>
      rcases members?_array_eq_some.1 hm with ⟨hlength, rfl⟩
      rcases items with _ | ⟨x', _ | ⟨y', _ | ⟨z, rest⟩⟩⟩
      · cases hx
      · simp [Entries.get?, hab] at hy
      · obtain rfl : x' = x := by simpa [Entries.get?] using hx
        obtain rfl : y' = y := by simpa [Entries.get?, hab] using hy
        exact .array
      · simp only [List.length_cons, List.length_nil] at hlength
        omega
    | _ => cases hm

/-- A member that may be missing is read as its default or as what it denotes. -/
theorem optional?_eq_some {α : Type} {default a : α} {read : Json → Option α}
    {Denoted : Json → α → Prop} (hread : ∀ {j a}, read j = some a ↔ Denoted j a) {name : String} :
    optional? default read m name = some a ↔ IsPart Denoted default (Entries.get? m name) a := by
  rw [optional?]
  cases Entries.get? m name with
  | none =>
    constructor
    · rintro ⟨⟩
      exact .missing
    · rintro ⟨⟩
      rfl
  | some j =>
    constructor
    · exact fun h => .there (hread.1 h)
    · rintro (_ | h)
      exact hread.2 h

end Document

open Document

/-! ## Schemas that are read -/

/-- What is read as a field denotes it. -/
theorem Field.read?_eq_some {j : Json} {f : Field} :
    Field.read? j = some f ↔ Field.Denoted j f := by
  simp only [Field.read?, Option.bind_eq_bind, Option.bind_eq_some_iff, required?_text_eq_some]
  constructor
  · rintro ⟨m, hm, name, hname, type, htype, hf⟩
    cases hf
    exact ⟨type, (isPair_iff (by decide)).2 ⟨m, hm, hname, htype⟩, rfl⟩
  · rintro ⟨type, hpair, htype⟩
    rcases (isPair_iff (by decide)).1 hpair with ⟨m, hm, hname, htypeText⟩
    exact ⟨m, hm, f.name, hname, type, htypeText, congrArg some (htype ▸ rfl)⟩

theorem Field.readAll?_eq_some {j : Json} {fields : List Field} :
    Field.readAll? j = some fields ↔ Field.AllDenoted j fields := by
  cases j with
  | array items =>
    have hread : Field.readAll? (Json.array items) = items.mapM Field.read? := rfl
    simp only [hread, mapM_eq_some, Field.read?_eq_some]
    exact ⟨.array, fun ⟨h⟩ => h⟩
  | _ => exact ⟨nofun, nofun⟩

theorem Field.nullable?_eq_some {j : Json} {f : Option Field} :
    nullable? Field.read? j = some f ↔ Field.NullDenoted j f := by
  constructor
  · intro h
    rw [nullable?] at h
    split at h
    · rename_i hnull
      cases h
      cases j with
      | null => exact .null
      | _ => cases hnull
    · rcases Option.map_eq_some_iff.1 h with ⟨f, hf, rfl⟩
      exact .field (Field.read?_eq_some.1 hf)
  · rintro (_ | hf)
    · rfl
    · have hread := Field.read?_eq_some.2 hf
      cases j with
      | null => cases hread
      | _ => exact congrArg (Option.map some) hread

/-- A table is read when each of its members can be read where it is there. -/
theorem Table.read?_eq_some_iff_parts {j : Json} {t : Table} :
    Table.read? j = some t ↔ ∃ m, members? ["fields", "is_list", "value_field"] j = some m ∧
      t.Parts (Entries.get? m "fields") (Entries.get? m "is_list")
        (Entries.get? m "value_field") := by
  simp only [Table.read?, Option.bind_eq_bind, Option.bind_eq_some_iff,
    optional?_eq_some Field.readAll?_eq_some, optional?_eq_some flag?_eq_some,
    optional?_eq_some Field.nullable?_eq_some]
  constructor
  · rintro ⟨m, hm, fields, hfields, isList, hlist, valueField, hvalue, ht⟩
    cases ht
    exact ⟨m, hm, hfields, hlist, hvalue⟩
  · rintro ⟨m, hm, hfields, hlist, hvalue⟩
    exact ⟨m, hm, _, hfields, _, hlist, _, hvalue, rfl⟩

/-- What is read as a table denotes it. -/
theorem Table.read?_eq_some {j : Json} {t : Table} :
    Table.read? j = some t ↔ Table.Denoted j t := by
  rw [Table.read?_eq_some_iff_parts]
  -- The members of an array have the names of their places.
  have hplaces : ∀ {items : List Json}, items.length ≤ 3 →
      Entries.get? (["fields", "is_list", "value_field"].zip items) "fields" = items[0]? ∧
      Entries.get? (["fields", "is_list", "value_field"].zip items) "is_list" = items[1]? ∧
      Entries.get? (["fields", "is_list", "value_field"].zip items) "value_field" = items[2]? := by
    intro items hlength
    rcases items with _ | ⟨a, _ | ⟨b, _ | ⟨c, _ | ⟨d, rest⟩⟩⟩⟩
    iterate 4 exact ⟨rfl, rfl, rfl⟩
    simp only [List.length_cons] at hlength
    omega
  constructor
  · rintro ⟨m, hm, hparts⟩
    cases j with
    | object members =>
      rcases members?_object_eq_some.1 hm with ⟨⟨hn, hkeys⟩, rfl⟩
      exact .object hn hkeys hparts
    | array items =>
      rcases members?_array_eq_some.1 hm with ⟨hlength, rfl⟩
      rcases hplaces hlength with ⟨hfields, hlist, hvalue⟩
      rw [hfields, hlist, hvalue] at hparts
      exact .array hlength hparts
    | _ => cases hm
  · rintro (⟨hn, hkeys, hparts⟩ | ⟨hlength, hparts⟩)
    · exact ⟨_, members?_object_eq_some.2 ⟨⟨hn, hkeys⟩, rfl⟩, hparts⟩
    · refine ⟨_, members?_array_eq_some.2 ⟨hlength, rfl⟩, ?_⟩
      rcases hplaces hlength with ⟨hfields, hlist, hvalue⟩
      rw [hfields, hlist, hvalue]
      exact hparts

theorem Table.readAll?_eq_some {j : Json} {written : List (String × Table)} :
    Table.readAll? j = some written ↔ ∃ members, j = .object members ∧
      List.Forall₂ (fun m u => m.1 = u.1 ∧ Table.Denoted m.2 u.2) members written := by
  have hentry : ∀ (m : String × Json) (u : String × Table),
      (Table.read? m.2).map (fun t => (m.1, t)) = some u ↔ m.1 = u.1 ∧ Table.Denoted m.2 u.2 := by
    rintro ⟨name, j⟩ ⟨name', t⟩
    simp only [Option.map_eq_some_iff, Table.read?_eq_some, Prod.mk.injEq]
    exact ⟨fun ⟨_, ht, hname, heq⟩ => ⟨hname, heq ▸ ht⟩, fun ⟨hname, ht⟩ => ⟨t, ht, hname, rfl⟩⟩
  cases j with
  | object members =>
    have hread : Table.readAll? (Json.object members) =
        members.mapM fun m => (Table.read? m.2).map fun t => (m.1, t) := rfl
    simp only [hread, mapM_eq_some, hentry, Json.object.injEq, exists_eq_left']
  | _ => exact ⟨nofun, nofun⟩

namespace Schema

theorem read?_eq_some {j : Json} {s : Schema} : read? j = some s ↔ Denoted j s := by
  have htables : ∀ {m : List (String × Json)} {written : List (String × Table)},
      required? Table.readAll? m "tables" = some written ↔
        ∃ members, Entries.get? m "tables" = some (.object members) ∧
          List.Forall₂ (fun m u => m.1 = u.1 ∧ Table.Denoted m.2 u.2) members written := by
    intro m written
    rw [required?, Option.bind_eq_some_iff]
    simp only [Table.readAll?_eq_some]
    exact ⟨fun ⟨_, hj, members, heq, h⟩ => ⟨members, heq ▸ hj, h⟩,
      fun ⟨members, hj, h⟩ => ⟨_, hj, members, rfl, h⟩⟩
  simp only [read?, Option.bind_eq_bind, Option.bind_eq_some_iff, required?_text_eq_some, htables]
  constructor
  · rintro ⟨m, hm, main, hmain, written, ⟨members, hmembers, hwritten⟩, hs⟩
    cases hs
    exact ⟨members, (isPair_iff (by decide)).2 ⟨m, hm, hmain, hmembers⟩, written, hwritten,
      Entries.eq_ofPairs_iff.1 rfl⟩
  · rintro ⟨members, hpair, written, hwritten, hs⟩
    rcases (isPair_iff (by decide)).1 hpair with ⟨m, hm, hmain, hmembers⟩
    refine ⟨m, hm, _, hmain, written, ⟨members, hmembers, hwritten⟩, congrArg some ?_⟩
    rcases s with ⟨main, tables, distinct⟩
    obtain rfl : tables = Entries.ofPairs written := Entries.eq_ofPairs_iff.2 hs
    rfl

end Schema

/-! ## Levels of nesting -/

/-- A pair is one level above its members. -/
theorem Json.IsPair.nesting_le {a b : String} {x y j : Json} {n : Nat} (h : IsPair a b x y j)
    (hx : x.nesting ≤ n) (hy : y.nesting ≤ n) : j.nesting ≤ n + 1 := by
  cases h with
  | object h =>
    refine Nat.succ_le_succ (Json.membersNesting_le_iff.2 fun m hm => ?_)
    rcases List.mem_cons.1 (h.mem_iff.1 hm) with rfl | hm
    · exact hx
    · obtain rfl := List.mem_singleton.1 hm
      exact hy
  | array =>
    refine Nat.succ_le_succ (Json.itemsNesting_le_iff.2 ?_)
    rw [List.forall_mem_cons, List.forall_mem_singleton]
    exact ⟨hx, hy⟩

theorem Field.Denoted.nesting_le {j : Json} {f : Field} (h : Field.Denoted j f) :
    j.nesting ≤ 1 := by
  rcases h with ⟨type, hpair, -⟩
  exact hpair.nesting_le (Nat.zero_le 0) (Nat.zero_le 0)

theorem Field.AllDenoted.nesting_le {j : Json} {fields : List Field}
    (h : Field.AllDenoted j fields) : j.nesting ≤ 2 := by
  rcases h with ⟨h⟩
  refine Nat.succ_le_succ (Json.itemsNesting_le_iff.2 fun j hj => ?_)
  rcases List.getElem_of_mem hj with ⟨i, hi, rfl⟩
  exact (List.Forall₂.get h hi (h.length_eq ▸ hi)).nesting_le

theorem Field.NullDenoted.nesting_le {j : Json} {f : Option Field} (h : Field.NullDenoted j f) :
    j.nesting ≤ 1 := by
  rcases h with _ | hf
  · exact Nat.zero_le 1
  · exact hf.nesting_le

theorem Table.Parts.nesting_le {fields isList valueField : Option Json} {t : Table}
    (h : t.Parts fields isList valueField) {j : Json}
    (hj : fields = some j ∨ isList = some j ∨ valueField = some j) : j.nesting ≤ 2 := by
  rcases hj with rfl | rfl | rfl
  · rcases h.fields with _ | hfields
    exact hfields.nesting_le
  · rcases h.isList with _ | rfl
    exact Nat.zero_le 2
  · rcases h.valueField with _ | hvalue
    exact hvalue.nesting_le.trans (by decide)

theorem Table.Denoted.nesting_le {j : Json} {t : Table} (h : Table.Denoted j t) :
    j.nesting ≤ 3 := by
  cases h with
  | object hn hkeys hparts =>
    refine Nat.succ_le_succ (Json.membersNesting_le_iff.2 fun m hm => hparts.nesting_le ?_)
    have hvalue := Entries.get?_of_mem hn hm
    have hkey := hkeys _ (List.mem_map_of_mem hm)
    simp only [List.mem_cons, List.not_mem_nil, or_false] at hkey
    rcases hkey with hkey | hkey | hkey
    · exact .inl (hkey ▸ hvalue)
    · exact .inr (.inl (hkey ▸ hvalue))
    · exact .inr (.inr (hkey ▸ hvalue))
  | array hlength hparts =>
    refine Nat.succ_le_succ (Json.itemsNesting_le_iff.2 fun j hj => hparts.nesting_le ?_)
    rcases List.getElem?_of_mem hj with ⟨i, hi⟩
    have hlt := (List.getElem?_eq_some_iff.1 hi).1
    obtain rfl | rfl | rfl : i = 0 ∨ i = 1 ∨ i = 2 := by omega
    · exact .inl hi
    · exact .inr (.inl hi)
    · exact .inr (.inr hi)

namespace Schema

/-- What denotes a schema is nested five levels deep at most. -/
theorem Denoted.nesting_le {j : Json} {s : Schema} (h : Denoted j s) : j.nesting ≤ 5 := by
  rcases h with ⟨members, hpair, written, hwritten, -⟩
  refine hpair.nesting_le (Nat.zero_le 4) (Nat.succ_le_succ (Json.membersNesting_le_iff.2 ?_))
  intro m hm
  rcases List.getElem_of_mem hm with ⟨i, hi, rfl⟩
  exact (List.Forall₂.get hwritten hi (hwritten.length_eq ▸ hi)).2.nesting_le

/-! ## Texts that are loaded -/

/-- The reader finds the schemas that a text denotes, which are never nested too deeply. -/
theorem ofJsonText?_eq_some {text : String} {s : Schema} :
    ofJsonText? text = some s ↔ DenotedBy text s := by
  simp only [ofJsonText?, Option.bind_eq_some_iff, Json.read?_eq_some, read?_eq_some]
  constructor
  · rintro ⟨j, ⟨htext, -⟩, hj⟩
    exact ⟨j, htext, hj⟩
  · rintro ⟨j, htext, hj⟩
    exact ⟨j, ⟨htext, hj.nesting_le.trans (by decide)⟩, hj⟩

/--
A text is loaded as a schema if it denotes that schema and the schema is sound, it is refused for a
fault if it denotes a schema with that fault, and every other text is malformed.
-/
theorem loadJson_outcome (text : String) :
    (∀ s, loadJson text = .ok s ↔ DenotedBy text s ∧ s.validate = .ok ()) ∧
    (∀ e, loadJson text = .error (.invalid e) ↔ ∃ s, DenotedBy text s ∧ s.validate = .error e) ∧
    (loadJson text = .error .malformed ↔ ∀ s, ¬ DenotedBy text s) := by
  simp only [← ofJsonText?_eq_some, loadJson]
  cases ofJsonText? text with
  | none => simp [load]
  | some s =>
    simp only [Option.some_inj, load]
    cases hvalid : s.validate with
    | ok _ => simp [hvalid]
    | error e => simp [hvalid]

end Schema
end Espalier
