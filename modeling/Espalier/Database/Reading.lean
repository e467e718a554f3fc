import Espalier.Database.Basic

/-!
# Reading rows

What a selection answers, and the two views of a table as a whole: the columns it has, with what the
engine tells about them, and the rows it holds.
-/

namespace Espalier
namespace Database

/-- The rows in the order of a name; rows that agree on it keep their order. -/
def Table.sorted (t : Table) (name : String) (rows : List Row) : List Row :=
  let o := t.operand name
  rows.mergeSort fun r s => (o.value r).order (o.value s) != .gt

/-- The rows of a window: a count without sign is no bound, and nothing is skipped below zero. -/
def windowed {α : Type} (limit offset : Int64) (rows : List α) : List α :=
  let rest := rows.drop offset.toInt.toNat
  if limit < 0 then rest else rest.take limit.toInt.toNat

def bound (arguments : List Cell) (place : Nat) : Int64 :=
  ((arguments[place]?.bind Cell.int?).getD 0)

def select (db : Database) (s : Sql.Select) (arguments : List Cell) :
    Except Failure (List (List Cell)) := do
  let t ← db.table s.table
  -- The key takes the first argument and a window the two after it.
  let (rows, arguments) :=
    match s.key with
    | none => (t.rows, arguments)
    | some key => (t.rows.filter (t.holds key (arguments.headD .null)), arguments.tail)
  let rows :=
    match s.orderBy with
    | none => rows
    | some name => t.sorted name rows
  let rows := if s.window then windowed (bound arguments 0) (bound arguments 1) rows else rows
  return rows.map fun r => s.columns.map fun name => (t.operand name).value r

/-- The columns of a table as declared, none if there is no such table. -/
def columns (db : Database) (table : String) : List Sql.ColumnSpec :=
  match db.table? table with
  | some t => t.columns
  | none => []

/-- The function that a query asks for the columns of a table. -/
def introspection : String := "pragma_table_info"

/-- What the engine tells about the columns of a table of its own. -/
def Builtin.columns (b : Builtin) : Except Failure (List Sql.ColumnSpec) :=
  match b.columns? with
  | some columns => .ok (columns.map fun c => { name := c.1, declared := c.2 })
  | none => .error .statement

/-- What the engine tells about the columns of a table, none if it knows no such table. -/
def tableInfo (db : Database) (table : String) : Except Failure (List Sql.ColumnSpec) :=
  -- A table under the name of the function takes its place, and tables take no arguments.
  if (db.table? introspection).isSome then .error .statement
  else
    match db.table? table, db.builtin? table with
    | some t, _ => .ok t.columns
    | none, some b => b.columns
    | none, none => .ok []

def contents (db : Database) (table : String) : Except Failure (List (List Cell)) := do
  let t ← db.table table
  return t.rows.map Row.cells

end Database
end Espalier
