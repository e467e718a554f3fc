import Espalier.Database.Table

/-!
# Databases

A database is its tables in the order of their creation and its indexes.  Every name is compared
without regard to ASCII case, and tables and indexes share their names.  What else statements depend
on belongs to the connection and is carried along with the contents: whether references between
tables are checked, which tables the engine has of its own, and what it draws by chance.
-/

namespace Espalier
namespace Database

/-- An index; it holds nothing that its table does not hold. -/
structure Index where
  name : String
  table : String
deriving DecidableEq

inductive Failure where
  /-- A name that is missing or taken, or a statement that makes no sense. -/
  | statement
  /-- No row number is left. -/
  | full
  /-- A row number that is not an integer. -/
  | mismatch
  /-- A reference to a row that is not there. -/
  | reference
  /-- No value in a column that needs one. -/
  | notNull
  /-- A primary key that is there already. -/
  | primaryKey
  /-- A row number that is there already, in a table where it is no primary key. -/
  | rowNumber
deriving DecidableEq

def Failure.code : Failure → Nat
  | statement => 1
  | full => 13
  | mismatch => 20
  | reference => 787
  | notNull => 1299
  | primaryKey => 1555
  | rowNumber => 2579

/-- A table of the engine's own, which it describes where nobody created one of the name. -/
structure Builtin where
  name : String
  /-- The names and types of its columns, unless the engine fails to tell them. -/
  columns? : Option (List (String × String))
  inhabited : columns? ≠ some []
  distinct : ((columns?.getD []).map fun c => Ascii.fold c.1).Nodup
deriving DecidableEq

end Database

structure Database where
  tables : List Database.Table := []
  indexes : List Database.Index := []
  /-- Whether references are checked. -/
  checked : Bool := true
  builtins : List Database.Builtin := []
  /-- What is drawn by chance at each number of rows stored. -/
  draws : List Nat := []
deriving DecidableEq

namespace Database

/-! ## Names -/

def table? (db : Database) (name : String) : Option Table :=
  db.tables.find? fun t => Ascii.sameName t.name name

def table (db : Database) (name : String) : Except Failure Table :=
  match db.table? name with
  | some t => .ok t
  | none => .error .statement

def builtin? (db : Database) (name : String) : Option Builtin :=
  db.builtins.find? fun b => Ascii.sameName b.name name

def hasIndex (db : Database) (name : String) : Bool :=
  db.indexes.any fun i => Ascii.sameName i.name name

/-- What is drawn for the next row.  It goes by the number of rows, so that insertions that follow
each other draw independently. -/
def draw (db : Database) : Nat :=
  db.draws.getD (db.tables.foldl (fun n t => n + t.rows.length) 0) 0

def replace (db : Database) (t : Table) : Database :=
  { db with tables := db.tables.map fun u => if Ascii.sameName u.name t.name then t else u }

/-- A name of tables and indexes that users may not define. -/
def isInternal (name : String) : Bool :=
  Search.startsWith (Ascii.fold name) "sqlite_"

/-! ## References -/

/-- How the rows of a table are told apart by references to it. -/
inductive ReferenceKey where
  | number
  | column (index : Nat)
deriving DecidableEq

/-- What references to a table go by: its `id`, if that is a primary key. -/
def Table.referenceKey? (t : Table) : Option ReferenceKey :=
  match t.column? Sql.referenced with
  | none => none
  | some i =>
    if t.numberColumn? = some i then some .number
    else if t.keyColumn? = some i then some (.column i)
    else none

def ReferenceKey.value (k : ReferenceKey) (r : Row) : Cell :=
  match k with
  | number => .int r.number
  | column i => r.cell i

def Table.hasReferenced (t : Table) (k : ReferenceKey) (c : Cell) : Bool :=
  let wanted :=
    match k with
    | .number => c.toNumeric
    | .column i => (t.affinity i).apply c
  t.rows.any fun r => (k.value r).equals wanted

/-- The references of a table: the place of each column that has one, and the table named. -/
def Table.references (t : Table) : List (Nat × String) :=
  (t.columns.zipIdx.filterMap fun c => c.1.references.map fun parent => (c.2, parent))

/-- The tables that a table refers to, each with its key, or a failure if one cannot be
referred to. -/
def parents (db : Database) (t : Table) : Except Failure (List (Nat × Table × ReferenceKey)) :=
  if db.checked then
    t.references.mapM fun (column, name) => do
      let parent ← db.table name
      match parent.referenceKey? with
      | some key => return (column, parent, key)
      | none => throw .statement
  else .ok []

/-- The columns of other tables that refer to a table. -/
def children (db : Database) (t : Table) : List (Table × Nat) :=
  if db.checked then
    db.tables.flatMap fun child =>
      child.references.filterMap fun (column, name) =>
        if Ascii.sameName name t.name then some (child, column) else none
  else []

def isReferenced (db : Database) (t : Table) (k : ReferenceKey) (r : Row) : Bool :=
  (db.children t).any fun (child, column) =>
    child.rows.any fun s =>
      (s.cell column).equals ((child.affinity column).apply (k.value r))

end Database
end Espalier
