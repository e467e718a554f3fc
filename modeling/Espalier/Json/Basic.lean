import Espalier.Entries
import Espalier.Number.Double

/-!
# JSON values

A JSON value holds its numbers as the reader classified them: an integer of at most sixty-four bits,
signed or unsigned, or a finite double.  Objects keep the order of their members.  An object just
read may name a member twice; `Json.settled` lets the last value win at the first position.
-/

namespace Espalier

/-- An integer that fits sixty-four bits, signed or unsigned. -/
structure JsonInteger where
  val : Int
  lower : Int64.minValue.toInt ≤ val
  upper : val < UInt64.size
deriving DecidableEq

abbrev FiniteDouble := { x : Double // x.isFinite = true }

inductive Json where
  | null
  | bool (b : Bool)
  | integer (n : JsonInteger)
  | real (x : FiniteDouble)
  | text (s : String)
  | array (items : List Json)
  | object (members : List (String × Json))

namespace Json

instance : Inhabited Json := ⟨null⟩

def ofUInt64 (n : UInt64) : Json :=
  .integer ⟨n.toNat, Int.le_trans (by decide) (Int.natCast_nonneg _),
    Int.ofNat_lt.2 n.toNat_lt_size⟩

/-- The JSON value of a double, null if it is not finite. -/
def ofDouble (x : Double) : Json :=
  if h : x.isFinite = true then .real ⟨x, h⟩ else .null

mutual

/-- The value in which every repeated member keeps its first place and its last value. -/
def settled : Json → Json
  | array items => array (settledItems items)
  | object members => object (settledMembers [] members)
  | j => j

def settledItems : List Json → List Json
  | [] => []
  | j :: rest => settled j :: settledItems rest

def settledMembers (done : List (String × Json)) : List (String × Json) → List (String × Json)
  | [] => done
  | (k, j) :: rest => settledMembers (Entries.put done k (settled j)) rest

end

end Json
end Espalier
