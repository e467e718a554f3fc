import Espalier.Database.Cell
import Espalier.Sql.Statement

/-!
# Stored tables

A stored table has columns as they were declared and rows in the order of their row numbers.  A
primary key of declared type `INTEGER` is the row number itself; any other primary key is a column
without repeated values.

The tables are those of a plain `CREATE TABLE`, whose columns carry `PRIMARY KEY`, `NOT NULL` and
`REFERENCES` and nothing else.  A primary key of several columns, one declared
`INTEGER PRIMARY KEY DESC`, tables `WITHOUT ROWID`, defaults, generated columns, collations and
checks are not among them, and neither are views, virtual tables and triggers.
-/

namespace Espalier
namespace Database

structure Row where
  number : Int64
  cells : List Cell
deriving DecidableEq

structure Table where
  name : String
  columns : List Sql.ColumnSpec
  rows : List Row
  /-- The greatest row number ever given, for a table that gives none twice. -/
  counter : Int64
deriving DecidableEq

def Row.cell (r : Row) (column : Nat) : Cell :=
  r.cells.getD column .null

namespace Table

def column? (t : Table) (name : String) : Option Nat :=
  t.columns.findIdx? fun c => Ascii.sameName c.name name

def isNumber (c : Sql.ColumnSpec) : Bool :=
  c.primaryKey && Ascii.sameName c.declared "INTEGER"

def numberColumn? (t : Table) : Option Nat :=
  t.columns.findIdx? isNumber

/-- The column that is a primary key without being the row number. -/
def keyColumn? (t : Table) : Option Nat :=
  t.columns.findIdx? fun c => c.primaryKey && !isNumber c

/-- Whether the table never gives a row number twice. -/
def autoincrements (t : Table) : Bool :=
  t.columns.any Sql.ColumnSpec.autoincrement

def affinity (t : Table) (column : Nat) : Affinity :=
  match t.columns[column]? with
  | some c => Affinity.ofDeclared c.declared
  | none => .unchanged

/-- The names that the row number has where no column takes them. -/
def isNumberName (name : String) : Bool :=
  ["rowid", "oid", "_rowid_"].any (Ascii.sameName name)

/-! ## Names in statements -/

inductive Operand where
  | column (index : Nat)
  | number
  | literal (s : String)

/-- A name that is no column is the row number or else a text. -/
def operand (t : Table) (name : String) : Operand :=
  match t.column? name with
  | some i => .column i
  | none => if isNumberName name then .number else .literal name

def Operand.value (o : Operand) (r : Row) : Cell :=
  match o with
  | column i => r.cell i
  | number => .int r.number
  | literal s => .text s

/-- An argument as it is compared with a name. -/
def bend (t : Table) (o : Operand) (argument : Cell) : Cell :=
  match o with
  | .column i => (t.affinity i).apply argument
  | .number => argument.toNumeric
  | .literal _ => argument

/-- Whether a name equals an argument in a row. -/
def holds (t : Table) (name : String) (argument : Cell) (r : Row) : Bool :=
  let o := t.operand name
  (o.value r).equals (t.bend o argument)

/-! ## Rows -/

def hasNumber (t : Table) (n : Int64) : Bool :=
  t.rows.any fun r => r.number == n

/-- The greatest row number present, zero for a table without rows. -/
def greatest (t : Table) : Int :=
  match t.rows.getLast? with
  | some r => r.number.toInt
  | none => 0

/-- The least row number from `n` on that is free; `fuel` bounds the search. -/
def freeNumber (t : Table) (fuel : Nat) (n : Int64) : Int64 :=
  match fuel with
  | 0 => n
  | fuel + 1 => if t.hasNumber n then t.freeNumber fuel (n + 1) else n

/-- A number drawn by chance from the lower half of the positive ones.  If it is taken the engine
draws again, for which the least free number stands in. -/
def drawnNumber (t : Table) (draw : Nat) : Int64 :=
  let n := Int64.ofNat (draw % 0x4000000000000000 + 1)
  if t.hasNumber n then t.freeNumber t.rows.length 1 else n

def nextNumber? (t : Table) (draw : Nat) : Option Int64 :=
  let last := if t.autoincrements then max t.counter.toInt t.greatest else t.greatest
  -- Past the greatest number a table that counts on is full, and any other draws one from the gaps.
  match int64? (last + 1) with
  | some n => some n
  | none => if t.autoincrements then none else some (t.drawnNumber draw)

/-- Puts a row at the place of its number. -/
def place (r : Row) (rows : List Row) : List Row :=
  rows.takeWhile (fun s => s.number < r.number) ++ r ::
    rows.dropWhile (fun s => s.number < r.number)

def add (t : Table) (r : Row) : Table :=
  { t with
    rows := place r t.rows
    counter := if t.autoincrements then max t.counter r.number else t.counter }

end Table
end Database
end Espalier
