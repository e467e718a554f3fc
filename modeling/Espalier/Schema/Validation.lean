import Espalier.Schema.Basic
import Espalier.Text.Search

/-!
# Sound schemas

The names of a sound schema can be written into statements between double quotes, and no two of them
meet where the database ignores case.  `Schema.validate` looks at the main table first, then at each
table in order, and last at collisions between secondary tables and main fields; it reports the
first rule that is broken.
-/

namespace Espalier

/-- A rule that a schema breaks, with the names that break it. -/
inductive SchemaError where
  | missingMainTable (mainTable : String)
  | unknownTable (table : String)
  | missingValueField (table : String)
  | listTableWithFields (table : String)
  | mainTableIsList (table : String)
  | duplicateTable (table existing : String)
  | reservedTableName (table : String)
  | duplicateField (table field : String)
  | reservedField (table field : String)
  | invalidIdentifier (table name : String)
  | nameCollision (table mainTable : String)
deriving DecidableEq

namespace SchemaError

def message : SchemaError → String
  | missingMainTable m => s!"main table '{m}' is not declared in tables"
  | unknownTable t => s!"table '{t}' is not declared in the schema"
  | missingValueField t => s!"list table '{t}' has no value_field"
  | listTableWithFields t => s!"list table '{t}' must not declare fields besides its value_field"
  | mainTableIsList t => s!"main table '{t}' cannot be a list table"
  | duplicateTable t e => s!"table '{t}' clashes with table '{e}'; SQLite names ignore case"
  | reservedTableName t => s!"table name '{t}' uses the reserved 'sqlite_' prefix"
  | duplicateField t f => s!"duplicate field '{f}' in table '{t}'"
  | reservedField t f => s!"field '{f}' in table '{t}' uses a reserved column name"
  | invalidIdentifier t n =>
    s!"invalid identifier '{n}' in table '{t}': only ASCII letters, digits and '_' are allowed"
  | nameCollision t m => s!"secondary table '{t}' collides with a field of main table '{m}'"

end SchemaError

namespace Schema

/-- What the names of internal tables start with. -/
def reservedStart : String := "sqlite_"

/-- Whether a name starts like those of internal tables, in any case. -/
def isReserved (name : String) : Bool :=
  Search.startsWith (Ascii.fold name) reservedStart

/-- Whether a name is that of a synthetic column, in any case. -/
def isSynthetic (name : String) : Bool :=
  Ascii.sameName name idColumn || Ascii.sameName name parentColumn

/-- Checks the fields of a table in order, given the names of those before them. -/
def checkFields (table : String) (seen : List String) : List Field → Except SchemaError Unit
  | [] => .ok ()
  | f :: rest =>
    if !Ascii.isIdentifier f.name then .error (.invalidIdentifier table f.name)
    else if isSynthetic f.name then .error (.reservedField table f.name)
    else if seen.any (Ascii.sameName f.name) then .error (.duplicateField table f.name)
    else checkFields table (seen ++ [f.name]) rest

def checkShape (name : String) (t : Table) : Except SchemaError Unit :=
  if t.isList && t.valueField.isNone then .error (.missingValueField name)
  else if t.isList && !t.fields.isEmpty then .error (.listTableWithFields name)
  else .ok ()

/-- Checks the tables in order, given the names of those before them. -/
def checkTables (seen : List String) : List (String × Table) → Except SchemaError Unit
  | [] => .ok ()
  | (name, t) :: rest =>
    if !Ascii.isIdentifier name then .error (.invalidIdentifier name name)
    else if isReserved name then .error (.reservedTableName name)
    else
      match seen.find? (Ascii.sameName name) with
      | some existing => .error (.duplicateTable name existing)
      | none => do
        checkShape name t
        checkFields name [] t.dataFields
        checkTables (seen ++ [name]) rest

def checkCollisions (mainTable : String) (fields : List Field) :
    List (String × Table) → Except SchemaError Unit
  | [] => .ok ()
  | (name, _) :: rest =>
    if fields.any fun f => Ascii.sameName f.name name then .error (.nameCollision name mainTable)
    else checkCollisions mainTable fields rest

def main (s : Schema) : Except SchemaError Table :=
  match s.main? with
  | some t => .ok t
  | none => .error (.missingMainTable s.mainTable)

def table (s : Schema) (name : String) : Except SchemaError Table :=
  match s.table? name with
  | some t => .ok t
  | none => .error (.unknownTable name)

def validate (s : Schema) : Except SchemaError Unit := do
  let main ← s.main
  -- The main table comes first, so its own faults hide those of all other tables.
  if main.isList then throw (.mainTableIsList s.mainTable)
  checkTables [] s.tables
  checkCollisions s.mainTable main.fields s.secondaryTables

end Schema
end Espalier
