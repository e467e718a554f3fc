import Espalier.Entries
import Espalier.Text.Ascii

/-!
# Schemas

A schema is the declared shape of one kind of document: a main table with scalar fields, and
secondary tables for what the document holds many of.  A secondary table is list valued (one row per
element of a list of scalars, kept in its value field) or object valued (one row per nested
mapping).  Nothing here is checked yet; `Schema.validate` says which schemas are sound.
-/

namespace Espalier

/-! ## Names of synthetic columns -/

/-- The primary key that every table has. -/
def idColumn : String := "id"

/-- The column of a secondary table that holds the id of the main row. -/
def parentColumn : String := "parent_id"

/-! ## Field types -/

/-- The logical type of a field; a name that is not known is kept as it was spelled. -/
inductive FieldType where
  | string
  | integer
  | float
  | boolean
  | datetime
  | unknown (name : String)
deriving DecidableEq

namespace FieldType

def name : FieldType → String
  | string => "string"
  | integer => "integer"
  | float => "float"
  | boolean => "boolean"
  | datetime => "datetime"
  | unknown name => name

/-- The type that a name stands for, in any case of ASCII letters. -/
def ofName (name : String) : FieldType :=
  let word := Ascii.fold name
  if word = "string" ∨ word = "text" then string
  else if word = "integer" ∨ word = "int" then integer
  else if word = "float" ∨ word = "real" ∨ word = "double" then float
  else if word = "boolean" ∨ word = "bool" then boolean
  else if word = "datetime" ∨ word = "timestamp" then datetime
  else unknown name

def isKnown : FieldType → Bool
  | unknown _ => false
  | _ => true

end FieldType

/-! ## Tables -/

structure Field where
  name : String
  type : FieldType
deriving DecidableEq

/-- A table of a schema.  The value field matters only when the table is a list. -/
structure Table where
  fields : List Field := []
  isList : Bool := false
  valueField : Option Field := none
deriving DecidableEq

/-- The fields that carry data: the value field of a list, otherwise the declared fields. -/
def Table.dataFields (t : Table) : List Field :=
  if t.isList then t.valueField.toList else t.fields

/-- The part that a table plays in its schema. -/
inductive TableKind where
  | main
  | listValued
  | objectValued
deriving DecidableEq

/-! ## Schemas -/

/-- A schema: the name of its main table and its tables in the order of declaration. -/
structure Schema where
  mainTable : String
  tables : Entries Table
  distinct : (Entries.keys tables).Nodup
deriving DecidableEq

namespace Schema

/-- The schema with the given tables; a repeated name keeps its first place and its last table. -/
def ofTables (mainTable : String) (tables : List (String × Table)) : Schema :=
  ⟨mainTable, Entries.ofPairs tables, Entries.nodup_keys_ofPairs tables⟩

def table? (s : Schema) (name : String) : Option Table :=
  Entries.get? s.tables name

def main? (s : Schema) : Option Table :=
  s.table? s.mainTable

/-- The part that a table plays, judged by its name and its shape. -/
def kindOf (s : Schema) (name : String) (t : Table) : TableKind :=
  if name = s.mainTable then .main
  else if t.isList then .listValued
  else .objectValued

def secondaryTables (s : Schema) : List (String × Table) :=
  s.tables.filter fun t => t.1 ≠ s.mainTable

end Schema
end Espalier
