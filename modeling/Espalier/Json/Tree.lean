import Espalier.Json.Printer
import Espalier.Json.Reader
import Espalier.Number.Word
import Espalier.Tree

/-!
# Document trees as JSON

A JSON value becomes a document tree and a document tree becomes a JSON value.  A tree has one
integer type and every double, so an integer beyond it becomes the nearest double on the way in,
and a double that is not finite becomes null on the way out.  JSON text can also be read as a tree
without settling repeated members first; `Tree.ofWritten` does so in one pass.
-/

namespace Espalier

namespace Tree

def ofJsonInteger (n : JsonInteger) : Tree :=
  match int64? n.val with
  | some i => int i
  | none => float (Double.ofInt n.val)

mutual

def ofJson : Json → Tree
  | .null => null
  | .bool b => bool b
  | .integer n => ofJsonInteger n
  | .real x => float x.val
  | .text s => text s
  | .array items => seq (ofJsonItems items)
  | .object members => map (ofJsonMembers members)

def ofJsonItems : List Json → List Tree
  | [] => []
  | j :: rest => ofJson j :: ofJsonItems rest

def ofJsonMembers : List (String × Json) → List (String × Tree)
  | [] => []
  | (k, j) :: rest => (k, ofJson j) :: ofJsonMembers rest

end

mutual

/-- The tree of a JSON document as written: a repeated member keeps its first place and its last
value. -/
def ofWritten : Json → Tree
  | .null => null
  | .bool b => bool b
  | .integer n => ofJsonInteger n
  | .real x => float x.val
  | .text s => text s
  | .array items => seq (ofWrittenItems items)
  | .object members => map (ofWrittenMembers [] members)

def ofWrittenItems : List Json → List Tree
  | [] => []
  | j :: rest => ofWritten j :: ofWrittenItems rest

def ofWrittenMembers (done : List (String × Tree)) :
    List (String × Json) → List (String × Tree)
  | [] => done
  | (k, j) :: rest => ofWrittenMembers (Entries.put done k (ofWritten j)) rest

end

def ofJsonText? (s : String) : Option Tree :=
  (Json.read? s).map ofWritten

end Tree

namespace Json

def ofInt64 (n : Int64) : Json :=
  .integer ⟨n.toInt, Int64.minValue_le_toInt n,
    Int.lt_of_le_of_lt (Int64.toInt_le n) (by decide)⟩

mutual

def ofTree : Tree → Json
  | .null => null
  | .bool b => bool b
  | .int n => ofInt64 n
  | .float x => ofDouble x
  | .text s => text s
  | .seq items => array (ofTreeItems items)
  | .map entries => object (ofTreeEntries entries)

def ofTreeItems : List Tree → List Json
  | [] => []
  | t :: rest => ofTree t :: ofTreeItems rest

def ofTreeEntries : List (String × Tree) → List (String × Json)
  | [] => []
  | (k, t) :: rest => (k, ofTree t) :: ofTreeEntries rest

end

/-- Reads a JSON value from text, the last of repeated members winning. -/
def ofText? (s : String) : Option Json :=
  (read? s).map settled

end Json

namespace Tree

def jsonText (t : Tree) : String :=
  (Json.ofTree t).compact

end Tree
end Espalier
