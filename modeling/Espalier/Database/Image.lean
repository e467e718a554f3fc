import Espalier.Database.Basic
import Espalier.Json.Tree

/-!
# Databases as text

A database is kept in a file as text: a heading and the JSON of its tables and indexes.  An empty
text is an empty database, and every other text is no database at all.
-/

namespace Espalier
namespace Database

def heading : List Char := "espalier database\n".toList

/-! ## Writing -/

def bytesJson (bytes : List UInt8) : Json :=
  .array (bytes.map fun b => .ofUInt64 b.toUInt64)

/-- A stored value as JSON; a double goes by its bits, and bytes come with their class. -/
def Cell.toJson : Cell → Json
  | null => .null
  | int n => .ofInt64 n
  | real x => .array [.ofUInt64 x.bits]
  | text s => .text s
  | garbled g => .array [.text "text", bytesJson g.bytes]
  | blob bytes => .array [.text "blob", bytesJson bytes]

def columnJson (c : Sql.ColumnSpec) : Json :=
  .array
    [.text c.name, .text c.declared, .bool c.primaryKey, .bool c.autoincrement, .bool c.notNull,
      match c.references with
      | some table => .text table
      | none => .null]

def Row.toJson (r : Row) : Json :=
  .array [.ofInt64 r.number, .array (r.cells.map Cell.toJson)]

def Table.toJson (t : Table) : Json :=
  .array
    [.text t.name, .array (t.columns.map columnJson), .array (t.rows.map Row.toJson),
      .ofInt64 t.counter]

def Index.toJson (i : Index) : Json :=
  .array [.text i.name, .text i.table]

def image (db : Database) : String :=
  let body : Json :=
    .array [.array (db.tables.map Table.toJson), .array (db.indexes.map Index.toJson)]
  String.ofList heading ++ body.compact

/-! ## Reading -/

def int64OfJson? : Json → Option Int64
  | .integer n => int64? n.val
  | _ => none

def byteOfJson? : Json → Option UInt8
  | .integer n => some (UInt8.ofNat n.val.toNat)
  | _ => none

def Cell.ofJson? : Json → Option Cell
  | .null => some .null
  | .integer n => (int64? n.val).map .int
  | .array [.integer n] => some (.real ⟨UInt64.ofNat n.val.toNat⟩)
  | .text s => some (.text s)
  | .array [.text kind, .array bytes] => do
    let bytes ← bytes.mapM byteOfJson?
    return if kind = "blob" then .blob bytes else .ofBytes bytes
  | _ => none

def columnOfJson? : Json → Option Sql.ColumnSpec
  | .array [.text name, .text declared, .bool primaryKey, .bool autoincrement, .bool notNull, j] =>
    match j with
    | .null => some { name, declared, primaryKey, autoincrement, notNull }
    | .text table =>
      some { name, declared, primaryKey, autoincrement, notNull, references := some table }
    | _ => none
  | _ => none

def Row.ofJson? : Json → Option Row
  | .array [number, .array cells] => do
    let number ← int64OfJson? number
    let cells ← cells.mapM Cell.ofJson?
    return { number, cells }
  | _ => none

def Table.ofJson? : Json → Option Table
  | .array [.text name, .array columns, .array rows, counter] => do
    let columns ← columns.mapM columnOfJson?
    let rows ← rows.mapM Row.ofJson?
    let counter ← int64OfJson? counter
    return { name, columns, rows, counter }
  | _ => none

def Index.ofJson? : Json → Option Index
  | .array [.text name, .text table] => some { name, table }
  | _ => none

def ofImage? (checked : Bool) (text : String) : Option Database :=
  let cs := text.toList
  if cs.isEmpty then some { checked }
  else if heading.isPrefixOf cs then
    match Json.read? (String.ofList (cs.drop heading.length)) with
    | some (.array [.array tables, .array indexes]) => do
      let tables ← tables.mapM Table.ofJson?
      let indexes ← indexes.mapM Index.ofJson?
      return { tables, indexes, checked }
    | _ => none
  else none

end Database
end Espalier
