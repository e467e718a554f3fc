import Espalier.Database.Action
import Espalier.Json.Tree
import Espalier.Store.Plan

/-!
# Rows into documents

A document is grown back from its main row and from the rows of each branch that refer to it, in the
order of their ids.  It has its id first, then the main fields, then one sequence for each branch.
A page is a window of main rows without their branches.
-/

namespace Espalier
namespace Store

open Database (Action Cell)

namespace TablePlan

def decodeEntries (t : TablePlan) (cells : List Cell) : Except Cause (Entries Tree) :=
  (t.columns.zip cells).mapM fun (c, cell) => do
    let value ← c.codec.decode cell
    return (c.name, value)

def decodeMain (t : TablePlan) (cells : List Cell) : Except Cause (Entries Tree) :=
  match cells with
  | .int id :: rest => do
    let entries ← t.decodeEntries rest
    return Entries.merge [(idColumn, .int id)] entries
  | _ => .error .undecodable

def decodeElement (t : TablePlan) (cells : List Cell) : Except Cause Tree :=
  match t.columns, cells with
  | c :: _, cell :: _ => c.codec.decode cell
  | _, _ => .error .undecodable

end TablePlan

namespace Branch

def decode (b : Branch) (cells : List Cell) : Except Cause Tree :=
  match b.kind with
  | .list => b.table.decodeElement cells
  | .object => (b.table.decodeEntries cells).map fun entries => .map (Entries.ofPairs entries)

/-- A list needs the column of its elements, even if there are none. -/
def checkValue (b : Branch) : Except SchemaError Unit :=
  match b.kind with
  | .list => b.table.valueColumn.map fun _ => ()
  | .object => .ok ()

/-- The elements of a branch that belong to a main row. -/
def grow (b : Branch) (id : Int64) : Action Failure (List Tree) := do
  let rows ← (Action.select b.table.select [.int id]).reporting
    fun f => .query .get b.table.name (.database f)
  match b.checkValue with
  | .error e => throw (.schema e)
  | .ok () =>
    match rows.mapM b.decode with
    | .ok items => return items
    | .error cause => throw (.query .get b.table.name cause)

end Branch

/-- Which main rows a page shows; no limit is written as zero. -/
structure Window where
  offset : UInt64
  limit : UInt64
deriving DecidableEq

namespace Window

/-- A count as an argument of a statement, the greatest integer at most. -/
def clamp (n : UInt64) : Int64 :=
  (int64? n.toNat).getD Int64.maxValue

def arguments (w : Window) : List Cell :=
  [.int (if w.limit = 0 then -1 else clamp w.limit), .int (clamp w.offset)]

end Window

structure Page where
  items : List (Entries Tree)
  offset : UInt64

namespace Page

def count (p : Page) : Nat :=
  p.items.length

def toJson (p : Page) : Json :=
  .object
    [("items", .array (p.items.map fun entries => Json.ofTree (.map entries))),
      ("offset", .ofUInt64 p.offset),
      ("count", .ofUInt64 (UInt64.ofNat p.count))]

end Page

namespace Plan

def growTree (p : Plan) (id : Int64) : Action Failure (Entries Tree) := do
  let rows ← (Action.select p.main.select [.int id]).reporting
    fun f => .query .get p.main.name (.database f)
  -- An id names one row at most; should there be more, the first stands for the document.
  match rows with
  | [] => throw (.notFound p.main.name id)
  | row :: _ =>
    match p.main.decodeMain row with
    | .error cause => throw (.query .get p.main.name cause)
    | .ok trunk =>
      p.branches.foldlM (fun entries b => do
        let items ← b.grow id
        return Entries.put entries b.table.name (.seq items)) trunk

def listPage (p : Plan) (w : Window) : Action Failure Page := do
  let rows ← (Action.select p.list w.arguments).reporting
    fun f => .query .list p.main.name (.database f)
  match rows.mapM p.main.decodeMain with
  | .ok items => return { items, offset := w.offset }
  | .error cause => throw (.query .list p.main.name cause)

end Plan
end Store
end Espalier
