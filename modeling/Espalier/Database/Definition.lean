import Espalier.Database.Basic

/-!
# Defining tables and indexes

What the statements do that create tables and indexes and drop tables.  Each is a function from a
database to a new one or a failure; a failed statement leaves nothing behind.
-/

namespace Espalier
namespace Database

/-- The declared types that are reported in capitals however they are written. -/
def standardTypes : List String :=
  ["ANY", "BLOB", "INT", "INTEGER", "REAL", "TEXT"]

def reportedType (declared : String) : String :=
  if standardTypes.contains (Ascii.raise declared) then Ascii.raise declared else declared

def distinctColumns : List Sql.ColumnSpec → Bool
  | [] => true
  | c :: rest => !(rest.any fun d => Ascii.sameName c.name d.name) && distinctColumns rest

/-- Whether columns can make up a table: there is one, none of their names is repeated, at most one
is the primary key, and only a row number counts on. -/
def areColumns (columns : List Sql.ColumnSpec) : Bool :=
  distinctColumns columns &&
    decide ((columns.filter Sql.ColumnSpec.primaryKey).length ≤ 1) &&
    columns.all fun c => !c.autoincrement || Table.isNumber c

def Table.empty (d : Sql.CreateTable) : Table where
  name := d.table
  columns := d.columns.map fun c => { c with declared := reportedType c.declared }
  rows := []
  counter := 0

def createTable (db : Database) (d : Sql.CreateTable) : Except Failure Database :=
  if d.columns.isEmpty || isInternal d.table then .error .statement
  else if (db.table? d.table).isSome then
    if d.ifAbsent then .ok db else .error .statement
  else if db.hasIndex d.table || !areColumns d.columns then .error .statement
  else .ok { db with tables := db.tables ++ [Table.empty d] }

def createIndex (db : Database) (d : Sql.CreateIndex) : Except Failure Database := do
  let t ← db.table d.table
  if isInternal d.index || (db.table? d.index).isSome then throw .statement
  -- An index of the name will do, whatever table it belongs to.
  if db.hasIndex d.index then return db
  return { db with indexes := db.indexes ++ [⟨d.index, t.name⟩] }

def define (db : Database) : Sql.Definition → Except Failure Database
  | .table d => db.createTable d
  | .index d => db.createIndex d

def drop (db : Database) (d : Sql.DropTable) : Except Failure Database := do
  let t ← db.table d.table
  -- Dropping a table deletes its rows, so a row that is referred to is in the way.
  match t.referenceKey? with
  | some key => if t.rows.any (db.isReferenced t key) then throw .reference
  | none => pure ()
  return { db with
    tables := db.tables.filter fun u => !Ascii.sameName u.name d.table
    indexes := db.indexes.filter fun i => !Ascii.sameName i.table d.table }

def names (db : Database) : List String × List String :=
  (db.tables.map Table.name, db.indexes.map Index.name)

end Database
end Espalier
