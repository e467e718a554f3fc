import Espalier.Schema.Validation
import Espalier.Sql.Statement

/-!
# The layout of a schema

Every table of a sound schema with known field types has a layout: the primary key, for a secondary
table the reference to the main row, and a column for each data field.  The layout gives the
definitions of the table and of the index over the reference.
-/

namespace Espalier

/-! ## Column types -/

inductive ColumnType where
  | text
  | integer
  | real
deriving DecidableEq

namespace ColumnType

def name : ColumnType → String
  | text => "TEXT"
  | integer => "INTEGER"
  | real => "REAL"

/-- The column type of a known field type: truth values are integers, datetimes are text. -/
def ofFieldType? : FieldType → Option ColumnType
  | .string => some text
  | .datetime => some text
  | .integer => some integer
  | .boolean => some integer
  | .float => some real
  | .unknown _ => none

end ColumnType

/-! ## Errors -/

inductive CompileError where
  | schema (error : SchemaError)
  | unknownType (table field typeName : String)
deriving DecidableEq

def CompileError.message : CompileError → String
  | schema e => e.message
  | unknownType t f n => s!"unknown logical type '{n}' for field '{t}.{f}'"

/-- Turns a broken rule of the schema into an error of the layout. -/
def compileSound {α : Type} : Except SchemaError α → Except CompileError α
  | .ok a => .ok a
  | .error e => .error (.schema e)

/-! ## Columns -/

structure Column where
  name : String
  type : ColumnType
  primaryKey : Bool := false
  notNull : Bool := false
  /-- The table whose `id` the column refers to. -/
  references : Option String := none
deriving DecidableEq

/-- The column as it is created; the primary key numbers its rows. -/
def Column.spec (c : Column) : Sql.ColumnSpec where
  name := c.name
  declared := c.type.name
  primaryKey := c.primaryKey
  autoincrement := c.primaryKey
  notNull := c.notNull
  references := c.references

def Column.id : Column where
  name := idColumn
  type := .integer
  primaryKey := true

/-- The reference from a secondary row to its main row. -/
def Column.parent (mainTable : String) : Column where
  name := parentColumn
  type := .integer
  notNull := true
  references := some mainTable

def Column.ofField (table : String) (f : Field) : Except CompileError Column :=
  match ColumnType.ofFieldType? f.type with
  | some type => .ok { name := f.name, type }
  | none => .error (.unknownType table f.name f.type.name)

namespace Schema

def syntheticColumns (s : Schema) (name : String) (t : Table) : List Column :=
  if s.kindOf name t = .main then [Column.id] else [Column.id, Column.parent s.mainTable]

def columnsOf (s : Schema) (name : String) (t : Table) : Except CompileError (List Column) := do
  let data ← t.dataFields.mapM (Column.ofField name)
  return s.syntheticColumns name t ++ data

/-- The name of the index over the reference of a secondary table. -/
def parentIndex (table : String) : String :=
  table ++ "_" ++ parentColumn ++ "_idx"

/-- The definitions of a table: the table, and for a secondary table its index. -/
def definitionsOf (s : Schema) (name : String) (t : Table) :
    Except CompileError (List Sql.Definition) := do
  let columns ← s.columnsOf name t
  let table : Sql.CreateTable :=
    { ifAbsent := true, table := name, columns := columns.map Column.spec }
  let index : Sql.CreateIndex :=
    { index := parentIndex name, table := name, column := parentColumn }
  return if s.kindOf name t = .main then [.table table] else [.table table, .index index]

/-! ## Entry points -/

def compile (s : Schema) : Except CompileError (List (String × List Sql.Definition)) := do
  compileSound s.validate
  s.tables.mapM fun t => do
    let definitions ← s.definitionsOf t.1 t.2
    return (t.1, definitions)

def compileTable (s : Schema) (name : String) : Except CompileError (List Sql.Definition) := do
  compileSound s.validate
  let t ← compileSound (s.table name)
  s.definitionsOf name t

def compileColumns (s : Schema) (name : String) : Except CompileError (List Column) := do
  compileSound s.validate
  let t ← compileSound (s.table name)
  s.columnsOf name t

end Schema
end Espalier
