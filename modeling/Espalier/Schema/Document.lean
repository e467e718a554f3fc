import Espalier.Document
import Espalier.Schema.Validation

/-!
# Schema documents

A schema is read from JSON or YAML and written as JSON.  A table leaves out empty fields, a false
list flag and an absent value field when it is written, and the reader restores them; a field type
is written by its canonical name.
-/

namespace Espalier

open Document

/-! ## Reading -/

section
variable {δ : Type} [Document δ]

def Field.read? (d : δ) : Option Field := do
  let members ← members? ["name", "type"] d
  let name ← required? text? members "name"
  let type ← required? text? members "type"
  return ⟨name, FieldType.ofName type⟩

def Field.readAll? (d : δ) : Option (List Field) := do
  let items ← items? d
  items.mapM Field.read?

def Table.read? (d : δ) : Option Table := do
  let members ← members? ["fields", "is_list", "value_field"] d
  let fields ← optional? [] Field.readAll? members "fields"
  let isList ← optional? false flag? members "is_list"
  let valueField ← optional? none (nullable? Field.read?) members "value_field"
  return { fields, isList, valueField }

def Table.readAll? (d : δ) : Option (List (String × Table)) := do
  let entries ← entries? d
  entries.mapM fun e => (Table.read? e.2).map fun t => (e.1, t)

/-- Reads a schema and checks nothing. -/
def Schema.read? (d : δ) : Option Schema := do
  let members ← members? ["main_table", "tables"] d
  let mainTable ← required? text? members "main_table"
  let tables ← required? Table.readAll? members "tables"
  return Schema.ofTables mainTable tables

end

namespace Schema

inductive LoadError where
  | malformed
  | invalid (error : SchemaError)
deriving DecidableEq

/-- A schema that was read, if it is sound. -/
def load (read : Option Schema) : Except LoadError Schema :=
  match read with
  | none => .error .malformed
  | some s =>
    match s.validate with
    | .ok () => .ok s
    | .error e => .error (.invalid e)

def ofJsonText? (text : String) : Option Schema :=
  (Json.read? text).bind read?

def ofYamlText? (text : String) : Option Schema := do
  let node ← Yaml.Node.read? text
  let node ← node.flattened?
  read? node

def loadJson (text : String) : Except LoadError Schema :=
  load (ofJsonText? text)

def loadYaml (text : String) : Except LoadError Schema :=
  load (ofYamlText? text)

end Schema

/-! ## Writing -/

def Field.toJson (f : Field) : Json :=
  .object [("name", .text f.name), ("type", .text f.type.name)]

def Table.toJson (t : Table) : Json :=
  .object
    ((if t.fields.isEmpty then [] else [("fields", .array (t.fields.map Field.toJson))]) ++
      (if t.isList then [("is_list", .bool true)] else []) ++
      (match t.valueField with
        | none => []
        | some f => [("value_field", f.toJson)]))

def Schema.toJson (s : Schema) : Json :=
  .object
    [("main_table", .text s.mainTable),
      ("tables", .object (s.tables.map fun t => (t.1, t.2.toJson)))]

end Espalier
