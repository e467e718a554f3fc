import Espalier.Store.Codec

/-!
# Plans

A plan holds every statement that a store sends, made once from its schema: the definitions of the
tables, and for each table how its rows are inserted and selected.  The main table gives the trunk
of a document; every secondary table gives a branch, the entry under the name of the table.
-/

namespace Espalier
namespace Store

structure DataColumn where
  name : String
  codec : Codec
deriving DecidableEq

/-- The statements for one table. -/
structure TablePlan where
  name : String
  /-- The data columns in order, without the synthetic ones. -/
  columns : List DataColumn
  /-- All columns, the synthetic ones first. -/
  layout : List Column
  insert : Sql.Insert
  select : Sql.Select
deriving DecidableEq

namespace TablePlan

/-- The column that holds the elements of a list: the first data column. -/
def valueColumn (t : TablePlan) : Except SchemaError DataColumn :=
  match t.columns with
  | c :: _ => .ok c
  | [] => .error (.missingValueField t.name)

/-- The selection of a main row by its id; the id comes first. -/
def selectMain (name : String) (columns : List String) : Sql.Select :=
  { table := name, columns := idColumn :: columns, key := some idColumn }

/-- The selection of the secondary rows of a main row in the order of their ids.  A table without
data columns gives its ids, so that there is an answer for each row. -/
def selectSecondary (name : String) (columns : List String) : Sql.Select where
  table := name
  columns := if columns.isEmpty then [idColumn] else columns
  key := some parentColumn
  orderBy := some idColumn

def ofTable (s : Schema) (name : String) : Except CompileError TablePlan := do
  let t ← compileSound (s.table name)
  let layout ← s.compileColumns name
  let columns ← t.dataFields.mapM fun f => do
    let codec ← Codec.ofField name f
    return { name := f.name, codec }
  let names := columns.map DataColumn.name
  if s.kindOf name t = .main then
    return { name, columns, layout, insert := ⟨name, names⟩, select := selectMain name names }
  else
    let insert := ⟨name, parentColumn :: names⟩
    return { name, columns, layout, insert, select := selectSecondary name names }

end TablePlan

/-- What a branch of a document is made of: scalars, or mappings. -/
inductive BranchKind where
  | list
  | object
deriving DecidableEq

/-- A branch of a document: what it is made of and the table that holds it. -/
structure Branch where
  kind : BranchKind
  table : TablePlan
deriving DecidableEq

structure Plan where
  /-- The definitions of each table in the order of the schema. -/
  definitions : List (String × List Sql.Definition)
  main : TablePlan
  /-- The branches in the order of the schema. -/
  branches : List Branch
  /-- Selects a window of the main rows in the order of their ids. -/
  list : Sql.Select
deriving DecidableEq

namespace Plan

/-- The selection of a window of main rows. -/
def selectWindow (t : TablePlan) : Sql.Select where
  table := t.name
  columns := idColumn :: t.columns.map DataColumn.name
  orderBy := some idColumn
  window := true

/-- The plan of a schema, if it has a layout. -/
def ofSchema (s : Schema) : Except CompileError Plan := do
  let definitions ← s.compile
  let main ← TablePlan.ofTable s s.mainTable
  let branches ← s.secondaryTables.mapM fun (name, t) => do
    let table ← TablePlan.ofTable s name
    return { kind := if t.isList then .list else .object, table }
  return { definitions, main, branches, list := selectWindow main }

def tables (p : Plan) : List TablePlan :=
  p.main :: p.branches.map Branch.table

end Plan
end Store
end Espalier
