import Espalier.Database.Action
import Espalier.Store.Plan

/-!
# Tables for a store

Provisioning creates the tables and indexes of a plan where they are missing.  Verifying compares
the tables that are there with the layout: every column of the layout must be there under its exact
name, with its declared type, and with its constraints.  Columns beyond the layout do no harm.  The
engine is asked for the columns of each table, and may fail to tell them.
-/

namespace Espalier
namespace Store

open Database (Action)

namespace TablePlan

/-- What a column of the layout finds wrong with the columns of a table. -/
def drift? (expected : Column) (columns : List Sql.ColumnSpec) : Option String :=
  match columns.find? fun c => c.name = expected.name with
  | none => some s!"missing column '{expected.name}'"
  | some found =>
    if !Ascii.sameName found.declared expected.type.name then
      some s!"column '{found.name}' has type {found.declared}, expected {expected.type.name}"
    else if expected.primaryKey && !found.primaryKey then
      some s!"column '{found.name}' is not the primary key"
    else if expected.notNull && !found.notNull then
      some s!"column '{found.name}' accepts NULL"
    else none

/-- Compares a table, given by its columns, with the layout. -/
def check (t : TablePlan) (columns : List Sql.ColumnSpec) : Except Failure Unit :=
  if columns.isEmpty then .error (.layoutMismatch t.name "table does not exist")
  else
    match t.layout.findSome? fun expected => drift? expected columns with
    | some detail => .error (.layoutMismatch t.name detail)
    | none => .ok ()

end TablePlan

namespace Plan

def provision (p : Plan) : Action Failure Unit :=
  p.definitions.forM fun (table, definitions) =>
    definitions.forM fun d =>
      (Action.define d).reporting fun f => .query .provision table (.database f)

def verify (p : Plan) : Action Failure Unit :=
  Action.ask fun db => p.tables.forM fun t =>
    match db.tableInfo t.name with
    | .ok columns => t.check columns
    | .error f => .error (.query .verify t.name (.database f))

end Plan
end Store
end Espalier
