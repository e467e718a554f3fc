import Espalier.Json.Tree
import Espalier.Yaml.Tree

/-!
# Documents read as records

Schemas and settings are records written in a document notation.  `Document` says what a notation
offers a reader of records: texts, truth values, counts, lists and entries.  A record names its
members once each and has no others; where the notation allows it, the members may also stand in a
list in their order.
-/

namespace Espalier

/-- What a document notation offers a reader of records. -/
class Document (δ : Type) where
  text? : δ → Option String
  flag? : δ → Option Bool
  count? : δ → Option UInt32
  isNull : δ → Bool
  items? : δ → Option (List δ)
  entries? : δ → Option (List (String × δ))
  /-- The members of a record that is written as a list. -/
  positions? : δ → Option (List δ)

namespace Document

variable {δ : Type} [Document δ]

/--
The members of a record with the given names: entries with known names, none of them repeated, or
a list that is no longer than the names.
-/
def members? (names : List String) (d : δ) : Option (List (String × δ)) :=
  match positions? d with
  | some items => if items.length ≤ names.length then some (names.zip items) else none
  | none => do
    let entries ← entries? d
    let keys := entries.map Prod.fst
    if keys.Nodup ∧ ∀ key ∈ keys, key ∈ names then some entries else none

def required? {α : Type} (read : δ → Option α) (members : List (String × δ))
    (name : String) : Option α :=
  (Entries.get? members name).bind read

def optional? {α : Type} (default : α) (read : δ → Option α) (members : List (String × δ))
    (name : String) : Option α :=
  match Entries.get? members name with
  | none => some default
  | some d => read d

def nullable? {α : Type} (read : δ → Option α) (d : δ) : Option (Option α) :=
  if isNull d then some none else (read d).map some

end Document

/-- JSON documents as read, members not settled. -/
instance : Document Json where
  text?
    | .text s => some s
    | _ => none
  flag?
    | .bool b => some b
    | _ => none
  count?
    | .integer n => uint32? n.val
    | _ => none
  isNull
    | .null => true
    | _ => false
  items?
    | .array items => some items
    | _ => none
  entries?
    | .object members => some members
    | _ => none
  positions?
    | .array items => some items
    | _ => none

/-- Document trees, whose scalars have their types. -/
instance : Document Tree where
  text?
    | .text s => some s
    | _ => none
  flag?
    | .bool b => some b
    | _ => none
  count?
    | .int n => uint32? n.toInt
    | _ => none
  isNull := Tree.isNull
  items?
    | .seq items => some items
    | _ => none
  entries?
    | .map entries => some entries
    | _ => none
  positions?
    | .seq items => some items
    | _ => none

/-- YAML nodes without merge keys: the reader's wish decides what a scalar is. -/
instance : Document Yaml.Node where
  text? d :=
    match d with
    | .scalar _ s => if d.isNull then none else some s
    | _ => none
  flag?
    | .scalar _ s => Yaml.boolWord? s
    | _ => none
  count?
    | .scalar _ s => (Yaml.integer? s).bind uint32?
    | _ => none
  isNull := Yaml.Node.isNull
  items? d :=
    match d with
    | .seq items => some items
    | d => if d.isNull then some [] else none
  entries? d :=
    match d with
    | .map entries => entries.mapM fun e => e.1.text?.map fun key => (key, e.2)
    | d => if d.isNull then some [] else none
  positions? _ := none

end Espalier
