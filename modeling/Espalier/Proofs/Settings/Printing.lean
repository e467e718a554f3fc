import Espalier.Proofs.Settings.Restoring
import Espalier.Settings.Basic

/-!
# Settings of the program printed and read again

The settings of the program are printed as one record, which holds those of the database and those
of the log.  What is printed is read as the same settings: a schema that is not set is left out and
stays unset, and no path, level or data source name is taken for anything but a text.
-/

namespace Espalier

open Document

section

variable {δ : Type} [Document δ]

theorem LogFormat.read?_of_shows (f : LogFormat) (d : δ) (h : Shows (.text f.name) d) :
    LogFormat.read? d = some f := by
  rw [LogFormat.read?, h.2, Option.bind_eq_bind, Option.bind_some]
  cases f <;> rfl

/-- The settings of the log are read from what shows them. -/
theorem LogSettings.read?_of_shows (s : LogSettings) (d : δ) (h : Shows s.toTree d) :
    LogSettings.read? d = some s := by
  obtain ⟨members, hmembers, hshows⟩ := h.exists_members? ["level", "format"] (by decide)
    (List.Sublist.refl _)
  have hlevel : optional? ({} : LogSettings).level text? members "level" = some s.level :=
    optional?_of_shows hshows _ rfl (text?_of_shows _)
  have hformat : optional? LogFormat.text LogFormat.read? members "format" = some s.format :=
    optional?_of_shows hshows _ rfl (LogFormat.read?_of_shows s.format)
  rw [LogSettings.read?, hmembers]
  simp only [Option.bind_eq_bind, Option.bind_some, hlevel, hformat]
  rfl

theorem DatabaseSettings.read?_of_shows_toTree (s : DatabaseSettings) (d : δ)
    (h : Shows s.toTree d) : DatabaseSettings.read? d = some s := by
  rw [← s.spelled_names] at h
  rw [s.read?_of_shows _ _ d h, s.named?_names]

/-- The settings are read from what shows their entries. -/
theorem Settings.read?_of_shows (s : Settings) (d : δ) (h : Shows (.map s.toEntries) d) :
    Settings.read? d = some s := by
  obtain ⟨members, hmembers, hshows⟩ := h.exists_members? ["database", "schema", "logging"]
    (by decide) (by cases hschema : s.schema <;> simp [toEntries, hschema])
  have hdatabase : optional? {} DatabaseSettings.read? members "database" = some s.database :=
    optional?_of_shows hshows _ rfl (s.database.read?_of_shows_toTree)
  have hlogging : optional? {} LogSettings.read? members "logging" = some s.logging :=
    optional?_of_shows hshows _
      (by cases hpath : s.schema <;> simp [toEntries, hpath, Entries.get?])
      (s.logging.read?_of_shows)
  have hschema : optional? none (nullable? text?) members "schema" = some s.schema := by
    cases hpath : s.schema with
    | none => exact optional?_of_absent hshows none (by simp [toEntries, hpath, Entries.get?])
    | some path =>
      refine optional?_of_shows hshows none (t := .text path)
        (by simp [toEntries, hpath, Entries.get?]) fun d hd => ?_
      rw [nullable?, hd.1, if_neg Bool.false_ne_true, hd.2]
      rfl
  rw [Settings.read?, hmembers]
  simp only [Option.bind_eq_bind, Option.bind_some, hdatabase, hschema, hlogging]
  rfl

end

namespace Settings

theorem isRecord_toEntries (s : Settings) : Yaml.IsRecord (.map s.toEntries) := by
  have hdatabase : Yaml.IsRecord s.database.toTree :=
    s.database.spelled_names ▸ s.database.isRecord_spelled _ _
  have hlogging : Yaml.IsRecord s.logging.toTree :=
    ⟨List.cons_ne_nil _ _, by decide, trivial, by decide, trivial, trivial⟩
  refine ⟨List.cons_ne_nil _ _, by decide, hdatabase, ?_⟩
  cases s.schema with
  | none => exact ⟨by decide, hlogging, trivial⟩
  | some path => exact ⟨by decide, trivial, by decide, hlogging, trivial⟩

theorem distinct_toEntries (s : Settings) : (Tree.map s.toEntries).Distinct := by
  have hdatabase : s.database.toTree.Distinct :=
    s.database.spelled_names ▸ s.database.distinct_spelled _ _
  have hlogging : s.logging.toTree.Distinct :=
    ⟨show ["level", "format"].Nodup by decide, trivial, trivial, trivial⟩
  have hkeys : (Entries.keys s.toEntries).Nodup := by
    rw [toEntries]
    cases s.schema with
    | none => exact (by decide : ["database", "logging"].Nodup)
    | some path => exact (by decide : ["database", "schema", "logging"].Nodup)
  refine ⟨hkeys, hdatabase, ?_⟩
  cases s.schema with
  | none => exact ⟨hlogging, trivial⟩
  | some path => exact ⟨trivial, hlogging, trivial⟩

/-- Printed settings are read as the same settings, and what is printed is a YAML document of their
tree. -/
theorem read?_yamlText (s : Settings) :
    ((Yaml.Node.read? s.yamlText).bind Yaml.Node.flattened?).bind read? = some s ∧
      Tree.ofYamlText? s.yamlText = some (.map s.toEntries) := by
  refine ⟨?_, Tree.ofYamlText?_yamlText s.isRecord_toEntries s.distinct_toEntries⟩
  obtain ⟨node, hnode, hshows⟩ := exists_node_yamlText s.isRecord_toEntries s.distinct_toEntries
  rw [yamlText, hnode, Option.bind_some, s.read?_of_shows node hshows]

end Settings
end Espalier
