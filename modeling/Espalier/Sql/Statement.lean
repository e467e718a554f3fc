/-!
# Statements

The statements that the library sends to its database, as data with a text.  Names are written
between double quotes and nothing in them is escaped, so the text has its meaning only for names
that a sound schema allows.  Arguments are question marks, counted from the left.
-/

namespace Espalier
namespace Sql

def quoted (name : String) : String :=
  "\"" ++ name ++ "\""

def commaSeparated (parts : List String) : String :=
  String.intercalate ", " parts

/-- The column of another table that references go by. -/
def referenced : String := "id"

/-! ## Definitions -/

structure ColumnSpec where
  name : String
  /-- The declared type as written. -/
  declared : String
  primaryKey : Bool := false
  autoincrement : Bool := false
  notNull : Bool := false
  /-- The table whose `id` the column refers to. -/
  references : Option String := none
deriving DecidableEq

def ColumnSpec.text (c : ColumnSpec) : String :=
  quoted c.name ++ " " ++ c.declared ++
    (if c.primaryKey then " PRIMARY KEY" else "") ++
    (if c.autoincrement then " AUTOINCREMENT" else "") ++
    (if c.notNull then " NOT NULL" else "") ++
    (match c.references with
      | none => ""
      | some table => " REFERENCES " ++ quoted table ++ " (" ++ quoted referenced ++ ")")

/-- Creates a table; when `ifAbsent` is set, only if there is none of its name. -/
structure CreateTable where
  ifAbsent : Bool
  table : String
  columns : List ColumnSpec
deriving DecidableEq

def CreateTable.text (d : CreateTable) : String :=
  "CREATE TABLE " ++ (if d.ifAbsent then "IF NOT EXISTS " else "") ++ quoted d.table ++
    " (" ++ commaSeparated (d.columns.map ColumnSpec.text) ++ ")"

structure CreateIndex where
  index : String
  table : String
  column : String
deriving DecidableEq

def CreateIndex.text (d : CreateIndex) : String :=
  "CREATE INDEX IF NOT EXISTS " ++ quoted d.index ++ " ON " ++ quoted d.table ++
    " (" ++ quoted d.column ++ ")"

inductive Definition where
  | table (d : CreateTable)
  | index (d : CreateIndex)
deriving DecidableEq

def Definition.text : Definition → String
  | table d => d.text
  | index d => d.text

/-! ## Rows -/

structure Insert where
  table : String
  columns : List String
deriving DecidableEq

def Insert.text (s : Insert) : String :=
  "INSERT INTO " ++ quoted s.table ++
    if s.columns.isEmpty then " DEFAULT VALUES"
    else
      " (" ++ commaSeparated (s.columns.map quoted) ++ ") VALUES (" ++
        commaSeparated (s.columns.map fun _ => "?") ++ ")"

/-- Selects columns of the rows whose `key` equals an argument, in the order of a column, and of
those a window given by two more arguments. -/
structure Select where
  table : String
  columns : List String
  key : Option String := none
  orderBy : Option String := none
  window : Bool := false
deriving DecidableEq

def Select.text (s : Select) : String :=
  "SELECT " ++ commaSeparated (s.columns.map quoted) ++ " FROM " ++ quoted s.table ++
    (match s.key with
      | none => ""
      | some column => " WHERE " ++ quoted column ++ " = ?") ++
    (match s.orderBy with
      | none => ""
      | some column => " ORDER BY " ++ quoted column) ++
    (if s.window then " LIMIT ? OFFSET ?" else "")

/-- Deletes the rows whose `key` equals an argument. -/
structure Delete where
  table : String
  key : String
deriving DecidableEq

def Delete.text (s : Delete) : String :=
  "DELETE FROM " ++ quoted s.table ++ " WHERE " ++ quoted s.key ++ " = ?"

structure DropTable where
  table : String
deriving DecidableEq

def DropTable.text (s : DropTable) : String :=
  "DROP TABLE " ++ quoted s.table

end Sql
end Espalier
