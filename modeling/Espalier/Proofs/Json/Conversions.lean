import Espalier.Json.Tree
import Espalier.Proofs.Number.Closest

/-!
# What conversions lose

A tree and a JSON value differ in their numbers only.  JSON has no double that is not finite, and a
tree has no integer beyond those with a sign.  `Tree.finite` and `Json.rounded` say what becomes of
these, at any depth; all else is kept when a tree becomes a JSON value and a tree again, or the
other way round.
-/

namespace Espalier

theorem JsonInteger.natAbs_lt (n : JsonInteger) : n.val.natAbs < 2 ^ 64 := by
  have hlow := n.lower
  have hhigh := n.upper
  have hmin : Int64.minValue.toInt = -2 ^ 63 := by decide
  have hsize : (UInt64.size : Int) = 2 ^ 64 := by decide
  omega

/-! ## Losses -/

namespace Tree

mutual

def finite : Tree → Tree
  | float x => if x.isFinite then float x else null
  | seq items => seq (finiteItems items)
  | map entries => map (finiteEntries entries)
  | t => t

def finiteItems : List Tree → List Tree
  | [] => []
  | t :: rest => finite t :: finiteItems rest

def finiteEntries : List (String × Tree) → List (String × Tree)
  | [] => []
  | (k, t) :: rest => (k, finite t) :: finiteEntries rest

end

end Tree

namespace Json

/-- A JSON integer, as the closest double if it is beyond the integers with a sign. -/
def roundedInteger (n : JsonInteger) : Json :=
  if n.val ≤ Int64.maxValue.toInt then .integer n
  else .real ⟨Double.ofInt n.val, Double.isFinite_ofInt n.natAbs_lt⟩

mutual

/-- The JSON value with the closest double for every integer beyond those with a sign. -/
def rounded : Json → Json
  | integer n => roundedInteger n
  | array items => array (roundedItems items)
  | object members => object (roundedMembers members)
  | j => j

def roundedItems : List Json → List Json
  | [] => []
  | j :: rest => rounded j :: roundedItems rest

def roundedMembers : List (String × Json) → List (String × Json)
  | [] => []
  | (k, j) :: rest => (k, rounded j) :: roundedMembers rest

end

end Json

/-! ## From trees and back -/

namespace Tree

theorem ofJson_ofInt64 (n : Int64) : ofJson (Json.ofInt64 n) = int n := by
  rw [Json.ofInt64, ofJson, ofJsonInteger, int64?_toInt]

/-- A double is kept as a float, with its sign and whether or not it is whole. -/
theorem ofJson_ofDouble (x : Double) :
    ofJson (Json.ofDouble x) = if x.isFinite then float x else null := by
  rw [Json.ofDouble]
  split <;> rfl

mutual

theorem ofJson_ofTree (t : Tree) : ofJson (Json.ofTree t) = t.finite := by
  cases t with
  | int n => exact ofJson_ofInt64 n
  | float x => exact ofJson_ofDouble x
  | seq items => rw [Json.ofTree, ofJson, finite, ofJsonItems_ofTreeItems]
  | map entries => rw [Json.ofTree, ofJson, finite, ofJsonMembers_ofTreeEntries]
  | _ => rfl

theorem ofJsonItems_ofTreeItems (items : List Tree) :
    ofJsonItems (Json.ofTreeItems items) = finiteItems items := by
  cases items with
  | nil => rfl
  | cons t rest => rw [Json.ofTreeItems, ofJsonItems, finiteItems, ofJson_ofTree,
      ofJsonItems_ofTreeItems]

theorem ofJsonMembers_ofTreeEntries (entries : Entries Tree) :
    ofJsonMembers (Json.ofTreeEntries entries) = finiteEntries entries := by
  rcases entries with _ | ⟨⟨k, t⟩, rest⟩
  · rfl
  · rw [Json.ofTreeEntries, ofJsonMembers, finiteEntries, ofJson_ofTree,
      ofJsonMembers_ofTreeEntries]

end

end Tree

/-! ## From JSON and back -/

namespace Json

theorem ofTree_ofJsonInteger (n : JsonInteger) :
    ofTree (Tree.ofJsonInteger n) = roundedInteger n := by
  rw [Tree.ofJsonInteger, roundedInteger]
  by_cases hn : n.val ≤ Int64.maxValue.toInt
  · rcases exists_int64? n.lower hn with ⟨w, hw⟩
    rw [hw, if_pos hn, ofTree, ofInt64]
    have hvalue := toInt_of_int64? hw
    simp only [hvalue]
  · rw [int64?_eq_none_of_lt (Int.not_le.1 hn), if_neg hn, ofTree, ofDouble,
      dif_pos (Double.isFinite_ofInt n.natAbs_lt)]

mutual

theorem ofTree_ofJson (j : Json) : ofTree (Tree.ofJson j) = j.rounded := by
  cases j with
  | integer n => exact ofTree_ofJsonInteger n
  | real x => exact dif_pos x.property
  | array items => rw [Tree.ofJson, ofTree, rounded, ofTreeItems_ofJsonItems]
  | object members => rw [Tree.ofJson, ofTree, rounded, ofTreeEntries_ofJsonMembers]
  | _ => rfl

theorem ofTreeItems_ofJsonItems (items : List Json) :
    ofTreeItems (Tree.ofJsonItems items) = roundedItems items := by
  cases items with
  | nil => rfl
  | cons j rest => rw [Tree.ofJsonItems, ofTreeItems, roundedItems, ofTree_ofJson,
      ofTreeItems_ofJsonItems]

theorem ofTreeEntries_ofJsonMembers (members : List (String × Json)) :
    ofTreeEntries (Tree.ofJsonMembers members) = roundedMembers members := by
  rcases members with _ | ⟨⟨k, j⟩, rest⟩
  · rfl
  · rw [Tree.ofJsonMembers, ofTreeEntries, roundedMembers, ofTree_ofJson,
      ofTreeEntries_ofJsonMembers]

end

/--
A tree that becomes a JSON value and a tree again is the same but for the floats that are not
finite, which become null.  A JSON value that becomes a tree and a JSON value again is the same but
for the integers beyond those with a sign, which become the doubles closest to them.
-/
theorem conversions_lose :
    (∀ t : Tree, Tree.ofJson (ofTree t) = t.finite) ∧
    (∀ j : Json, ofTree (Tree.ofJson j) = j.rounded) ∧
    ∀ n : JsonInteger, Int64.maxValue.toInt < n.val → (Double.ofInt n.val).Closest n.val :=
  ⟨Tree.ofJson_ofTree, ofTree_ofJson, fun n _ => Double.closest_ofInt n.natAbs_lt⟩

end Json
end Espalier
