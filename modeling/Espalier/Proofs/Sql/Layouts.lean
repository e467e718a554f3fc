import Espalier.Proofs.Sql.Statements
import Espalier.Proofs.Store.Compiling

/-!
# The text of a layout

The names of a sound schema are written between double quotes as they are, and nothing else guards
the statements made from them.  It is enough: an identifier holds no double quote, so the text of a
layout reads as that layout, table by table and as one script, and no name can end, add or change a
statement.
-/

namespace Espalier

open Sql (Definition Plain script?)

/-! ## Identifiers -/

/-- An identifier can be quoted as it is. -/
theorem Ascii.plain_of_isIdentifier {name : String} (h : Ascii.isIdentifier name = true) :
    Plain name := by
  have hquote : Ascii.opensIdentifier '"' = false ∧ Ascii.continuesIdentifier '"' = false := by
    decide
  unfold isIdentifier at h
  unfold Plain
  cases hchars : name.toList with
  | nil => exact List.not_mem_nil
  | cons c rest =>
    rw [hchars] at h
    simp only [Bool.and_eq_true, List.all_eq_true] at h
    intro hmem
    rcases List.mem_cons.1 hmem with hc | hrest
    · rw [← hc, hquote.1] at h
      cases h.1
    · have hcontinues := h.2 _ hrest
      rw [hquote.2] at hcontinues
      cases hcontinues

theorem plain_idColumn : Plain idColumn := by
  unfold Plain
  decide

theorem plain_parentColumn : Plain parentColumn := by
  unfold Plain
  decide

/-- The name of a column type is a single word to the tokenizer. -/
theorem ColumnType.tokens?_name (type : ColumnType) :
    Sql.tokens? type.name.toList = some [.word type.name] := by
  cases type <;> decide

/-- Columns that are created alike are alike. -/
theorem Column.spec_injective {c d : Column} (h : c.spec = d.spec) : c = d := by
  rcases c with ⟨name, type, primaryKey, notNull, references⟩
  rcases d with ⟨name', type', primaryKey', notNull', references'⟩
  simp only [spec, Sql.ColumnSpec.mk.injEq] at h
  obtain ⟨rfl, htype, rfl, -, rfl, rfl⟩ := h
  have htype : type = type' := by
    cases type <;> cases type' <;> first | rfl | exact absurd htype (by decide)
  rw [htype]

namespace Schema

/-! ## Definitions that can be read -/

section Sound

variable {s : Schema} (hsound : s.Sound) {u : String × Table} (hu : u ∈ s.tables)

include hsound

theorem plain_mainTable : Plain s.mainTable := by
  rcases mainSound hsound with ⟨m, -, -, hmain⟩
  exact Ascii.plain_of_isIdentifier hmain.identifier

include hu

theorem plain_table : Plain u.1 :=
  Ascii.plain_of_isIdentifier (hsound.tables u hu).identifier

/-- Every column of a layout can be read. -/
theorem readable_layout : ∀ c ∈ s.layout u.1 u.2, c.spec.Readable := by
  have hid : Column.id.spec.Readable :=
    ⟨plain_idColumn, ColumnType.tokens?_name .integer, rfl, fun t ht => by cases ht⟩
  have hparent : (Column.parent s.mainTable).spec.Readable := by
    refine ⟨plain_parentColumn, ColumnType.tokens?_name .integer, rfl, fun t ht => ?_⟩
    cases ht
    exact plain_mainTable hsound
  have hdata : ∀ c ∈ u.2.dataFields.map Field.column, c.spec.Readable := by
    intro c hc
    rcases List.mem_map.1 hc with ⟨f, hf, rfl⟩
    refine ⟨Ascii.plain_of_isIdentifier ((hsound.tables u hu).fields f hf).1,
      ColumnType.tokens?_name _, rfl, fun t ht => ?_⟩
    cases ht
  rw [layout_eq, List.forall_mem_cons, planted]
  refine ⟨hid, ?_⟩
  split
  · exact hdata
  · exact List.forall_mem_cons.2 ⟨hparent, hdata⟩

theorem readable_creation : (Definition.table (s.creation u.1 u.2)).Readable := by
  have hcolumns := readable_layout hsound hu
  rw [creation, layout_eq]
  rw [layout_eq, List.forall_mem_cons] at hcolumns
  refine .table (plain_table hsound hu) (List.forall_mem_cons.2 ⟨hcolumns.1, fun d hd => ?_⟩)
  rcases List.mem_map.1 hd with ⟨c, hc, rfl⟩
  exact hcolumns.2 c hc

theorem readable_indexing : (Definition.index (indexing u.1)).Readable := by
  have hname := plain_table hsound hu
  refine .index ?_ hname plain_parentColumn
  have hend : '"' ∉ ("_" ++ parentColumn ++ "_idx").toList := by decide
  have hindex : parentIndex u.1 = u.1 ++ ("_" ++ parentColumn ++ "_idx") := by
    rw [parentIndex, String.append_assoc, String.append_assoc, String.append_assoc]
  rw [Plain, hindex, String.toList_append, List.mem_append, not_or]
  exact ⟨hname, hend⟩

theorem readable_definitions : ∀ d ∈ s.definitions u.1 u.2, d.Readable := by
  unfold definitions
  split
  · simpa using readable_creation hsound hu
  · simpa using ⟨readable_creation hsound hu, readable_indexing hsound hu⟩

end Sound

/-! ## Texts of layouts -/

/-- Every table has its columns, and its definitions are a table with those columns and, unless it
is the main table, an index. -/
theorem get?_compile {s : Schema} {definitions : List (String × List Definition)}
    (h : s.compile = .ok definitions) {u : String × Table} (hu : u ∈ s.tables) :
    s.compileColumns u.1 = .ok (s.layout u.1 u.2) ∧
      Entries.get? definitions u.1 = some (s.definitions u.1 u.2) := by
  obtain ⟨hfault, rfl⟩ := Store.compile_eq_ok.1 h
  rcases fault?_eq_none.1 hfault with ⟨hvalid, hknown⟩
  exact ⟨compileColumns_known hvalid hknown hu, (Store.definitions_plan hvalid hknown hu).1⟩

/-- The first definition of a table creates it. -/
theorem exists_definitions (s : Schema) (u : String × Table) :
    ∃ rest, s.definitions u.1 u.2 = .table (s.creation u.1 u.2) :: rest ∧
      rest = if u.1 = s.mainTable then [] else [.index (indexing u.1)] := by
  unfold definitions
  split
  · exact ⟨[], rfl, rfl⟩
  · exact ⟨_, rfl, rfl⟩

/-- The first definition of a table is the one that creates it. -/
theorem create_eq {s : Schema} {definitions : List (String × List Definition)}
    (h : s.compile = .ok definitions) {u : String × Table} (hu : u ∈ s.tables) {create : Definition}
    {rest : List Definition} (hcreate : Entries.get? definitions u.1 = some (create :: rest)) :
    create = .table (s.creation u.1 u.2) := by
  obtain ⟨rest', hdefinitions, -⟩ := s.exists_definitions u
  rw [(get?_compile h hu).2, hdefinitions] at hcreate
  exact (List.cons.inj (Option.some.inj hcreate)).1.symm

/-- A schema that compiles is sound. -/
theorem sound_of_compile {s : Schema} {definitions : List (String × List Definition)}
    (h : s.compile = .ok definitions) : s.Sound :=
  validate_eq_ok.1 (fault?_eq_none.1 (Store.compile_eq_ok.1 h).1).1

/--
The texts of a layout mean the layout.  Read by the rules for quoted names, the text that creates a
table is one statement that creates a table of that name with the columns compiled for it, in order,
and the text of the index of a secondary table is one statement that indexes its reference.  All
texts one after the other, each ended by a semicolon, are the definitions in order and nothing else.
Texts of two tables, even of two schemas, are equal only if the names and the columns are.
-/
theorem script?_compile (s : Schema) (definitions : List (String × List Definition))
    (h : s.compile = .ok definitions) :
    (∀ u ∈ s.tables, ∃ columns create rest,
      s.compileColumns u.1 = .ok columns ∧
      Entries.get? definitions u.1 = some (create :: rest) ∧
      script? create.text = some [.table
        { ifAbsent := true, table := u.1, columns := columns.map Column.spec }] ∧
      if u.1 = s.mainTable then rest = []
      else ∃ index, rest = [index] ∧ script? index.text = some [.index
        { index := u.1 ++ "_parent_id_idx", table := u.1, column := "parent_id" }]) ∧
    script? (String.join (definitions.flatMap fun t => t.2.map fun d => d.text ++ ";\n")) =
      some (definitions.flatMap Prod.snd) ∧
    ∀ s' definitions', Schema.compile s' = .ok definitions' →
      ∀ u ∈ s.tables, ∀ u' ∈ s'.tables, ∀ create rest create' rest',
        Entries.get? definitions u.1 = some (create :: rest) →
        Entries.get? definitions' u'.1 = some (create' :: rest') →
        create.text = create'.text →
        u.1 = u'.1 ∧ s.compileColumns u.1 = s'.compileColumns u'.1 := by
  have hsound := sound_of_compile h
  refine ⟨fun u hu => ?_, ?_, ?_⟩
  · obtain ⟨hcolumns, hget⟩ := get?_compile h hu
    obtain ⟨rest, hdefinitions, hrest⟩ := s.exists_definitions u
    rw [hdefinitions] at hget
    refine ⟨_, _, rest, hcolumns, hget, Sql.script?_text (readable_creation hsound hu), ?_⟩
    rw [hrest]
    split
    · rfl
    · refine ⟨_, rfl, (Sql.script?_text (readable_indexing hsound hu)).trans ?_⟩
      rw [indexing, parentIndex, String.append_assoc, String.append_assoc]
      rfl
  · have hreadable : ∀ d ∈ definitions.flatMap Prod.snd, d.Readable := by
      obtain ⟨-, rfl⟩ := Store.compile_eq_ok.1 h
      intro d hd
      rcases List.mem_flatMap.1 hd with ⟨t, ht, hd⟩
      rcases List.mem_map.1 ht with ⟨u, hu, rfl⟩
      exact readable_definitions hsound hu d hd
    rw [← List.map_flatMap]
    exact Sql.script?_join hreadable
  · -- What is read from equal texts is equal.
    intro s' definitions' h' u hu u' hu' create rest create' rest' hcreate hcreate' htext
    have hread := create_eq h hu hcreate
    have hread' := create_eq h' hu' hcreate'
    rw [hread, hread'] at htext
    have hsame : some [Definition.table (s.creation u.1 u.2)] =
        some [Definition.table (s'.creation u'.1 u'.2)] := by
      rw [← Sql.script?_text (readable_creation hsound hu), htext,
        Sql.script?_text (readable_creation (sound_of_compile h') hu')]
    simp only [Option.some.injEq, List.cons.injEq, Definition.table.injEq, and_true, creation,
      Sql.CreateTable.mk.injEq, true_and] at hsame
    refine ⟨hsame.1, ?_⟩
    have hlayout := (List.map_injective_iff.2 fun c d => Column.spec_injective) hsame.2
    rw [(get?_compile h hu).1, (get?_compile h' hu').1, hlayout]

/-- The whole script of the plants reads as their definitions. -/
theorem script?_compile_plants :
    plants.compile = .ok plants.plan.definitions ∧
      script? (String.join (plants.plan.definitions.flatMap fun t =>
        t.2.map fun d => d.text ++ ";\n")) = some (plants.plan.definitions.flatMap Prod.snd) :=
  ⟨rfl, (script?_compile plants plants.plan.definitions rfl).2.1⟩

end Schema
end Espalier
