import Espalier.Database.Action
import Espalier.Store.Plan

/-!
# Documents into rows

A document becomes one row of the main table and a row for each element of each branch.  Scalars are
checked as their row is written, the main row first and the branches in the order of the schema, so
the first violation is the one that is reported.  Entries that the schema does not name are dropped.
-/

namespace Espalier
namespace Store

open Database (Action Cell)

namespace TablePlan

def insertFailure (t : TablePlan) (cause : Cause) : Failure :=
  .query .insert t.name cause

/-- Inserts the values of one row, after the id of the main row if there is one. -/
def insertCells (t : TablePlan) (parent : Option Int64) (cells : List Cell) :
    Action Failure Int64 :=
  (Action.insert t.insert (parent.toList.map Cell.int ++ cells)).reporting
    fun f => t.insertFailure (.database f)

/-- The values of the data columns for a mapping; what it lacks is null. -/
def encodeEntries (t : TablePlan) (entries : Entries Tree) : Except Cause (List Cell) :=
  t.columns.mapM fun c => c.codec.encode c.name ((Entries.get? entries c.name).getD .null)

def insertEntries (t : TablePlan) (parent : Option Int64) (entries : Entries Tree) :
    Action Failure Int64 :=
  match t.encodeEntries entries with
  | .ok cells => t.insertCells parent cells
  | .error cause => throw (t.insertFailure cause)

def insertElement (t : TablePlan) (parent : Int64) (element : Tree) : Action Failure Int64 :=
  match t.valueColumn with
  | .error e => throw (.schema e)
  | .ok column =>
    match column.codec.encode column.name element with
    | .ok cell => t.insertCells (some parent) [cell]
    | .error cause => throw (t.insertFailure cause)

def insertObject (t : TablePlan) (parent : Int64) (element : Tree) : Action Failure Int64 :=
  match element with
  | .map entries => t.insertEntries (some parent) entries
  | other => throw (t.insertFailure (.shape .mapping other.kind))

end TablePlan

namespace Branch

/-- The elements of a branch.  Nothing stands for no elements; where mappings are wanted, a single
one stands for itself. -/
def elements (b : Branch) (value : Option Tree) : Except Cause (List Tree) :=
  match b.kind, value with
  | _, none => .ok []
  | _, some .null => .ok []
  | _, some (.seq items) => .ok items
  | .object, some (.map entries) => .ok [.map entries]
  | .list, some other => .error (.shape .sequence other.kind)
  | .object, some other => .error (.shape .mappings other.kind)

def insertElement (b : Branch) (parent : Int64) (element : Tree) : Action Failure Int64 :=
  match b.kind with
  | .list => b.table.insertElement parent element
  | .object => b.table.insertObject parent element

def insert (b : Branch) (parent : Int64) (value : Option Tree) : Action Failure Unit :=
  match b.elements value with
  | .ok items => items.forM fun item => discard (b.insertElement parent item)
  | .error cause => throw (b.table.insertFailure cause)

end Branch

namespace Plan

def root (p : Plan) (tree : Tree) : Except Failure (Entries Tree) :=
  match tree with
  | .map entries => .ok entries
  | other => .error (p.main.insertFailure (.shape .mapping other.kind))

/-- Inserts a document, the main row first, and tells the id of that row. -/
def insertTree (p : Plan) (entries : Entries Tree) : Action Failure Int64 := do
  let id ← p.main.insertEntries none entries
  p.branches.forM fun b => b.insert id (Entries.get? entries b.table.name)
  return id

end Plan
end Store
end Espalier
