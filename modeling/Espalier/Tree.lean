import Espalier.Entries
import Espalier.Number.Double

/-!
# Document trees

A document is a weakly typed tree: scalars, sequences, and mappings whose keys keep their order.
Trees come from JSON and YAML text, are checked against a schema when they are stored, and are
built again from rows when they are read.
-/

namespace Espalier

inductive Tree where
  | null
  | bool (b : Bool)
  | int (n : Int64)
  | float (x : Double)
  | text (s : String)
  | seq (items : List Tree)
  | map (entries : List (String × Tree))
deriving Inhabited

namespace Tree

def kind : Tree → String
  | null => "null"
  | bool _ => "boolean"
  | int _ => "integer"
  | float _ => "float"
  | text _ => "string"
  | seq _ => "sequence"
  | map _ => "mapping"

def isNull : Tree → Bool
  | null => true
  | _ => false

def get? : Tree → String → Option Tree
  | map entries, key => Entries.get? entries key
  | _, _ => none

/-- The number of elements of a sequence or entries of a mapping. -/
def size? : Tree → Option Nat
  | seq items => some items.length
  | map entries => some entries.length
  | _ => none

end Tree
end Espalier
