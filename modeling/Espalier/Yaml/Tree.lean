import Espalier.Yaml.Reader
import Espalier.Yaml.Scalar

/-!
# Document trees from YAML

A node becomes a tree once its merge keys are resolved: the entries of a mapping under `<<` follow
the mapping's own entries and never replace one.  Keys are strings and appear once.
-/

namespace Espalier
namespace Yaml
namespace Node

/-- Whether a key asks for the entries of its value to be merged. -/
def isMergeKey : Node → Bool
  | scalar .plain text => text == "<<"
  | _ => false

/-- The text of a scalar, the only kind of node that can be a key. -/
def text? : Node → Option String
  | scalar _ text => some text
  | _ => none

/-- Whether nothing or a word for nothing was written plainly. -/
def isNull : Node → Bool
  | scalar .plain text => isNullWord text
  | _ => false

/-- The entries that a merge key contributes: a mapping's, or those of several in order. -/
def mergeEntries? : Node → Option (List (Node × Node))
  | map entries => some entries
  | seq items => do
    let all ← items.mapM fun item =>
      match item with
      | map entries => some entries
      | _ => none
    return all.flatten
  | node => if node.isNull then some [] else none

/-- The texts of keys, if all are scalars and no two are alike. -/
def distinctKeys? (entries : List (Node × Node)) : Option (List String) := do
  let keys ← entries.mapM fun e => e.1.text?
  if keys.Nodup then some keys else none

/-- Adds the entries whose keys are not there yet. -/
def withMissing (own : List (Node × Node)) : List (Node × Node) → List (Node × Node)
  | [] => own
  | e :: rest =>
    if (own.map fun o => o.1.text?).contains e.1.text? then withMissing own rest
    else withMissing (own ++ [e]) rest

mutual

/-- The node without merge keys, if every key is a scalar and no mapping repeats one. -/
def flattened? : Node → Option Node
  | scalar style text => some (scalar style text)
  | seq items => (flattenedItems? items).map seq
  | map entries => do
    let (own, merged) ← flattenedEntries? entries
    let _ ← distinctKeys? own
    return map (withMissing own merged)

def flattenedItems? : List Node → Option (List Node)
  | [] => some []
  | item :: rest => do
    let item ← flattened? item
    let items ← flattenedItems? rest
    return item :: items

/-- The entries of a mapping and the entries merged into it. -/
def flattenedEntries? : List (Node × Node) → Option (List (Node × Node) × List (Node × Node))
  | [] => some ([], [])
  | (key, value) :: rest => do
    let value ← flattened? value
    let (own, merged) ← flattenedEntries? rest
    if key.isMergeKey then
      let more ← value.mergeEntries?
      return (own, more ++ merged)
    else return ((key, value) :: own, merged)

end

mutual

/-- The tree of a node without merge keys, if every key is a string. -/
def tree? : Node → Option Tree
  | scalar style text => some (scalarTree style text)
  | seq items => (treeItems? items).map .seq
  | map entries => (treeEntries? entries).map .map

def treeItems? : List Node → Option (List Tree)
  | [] => some []
  | item :: rest => do
    let item ← tree? item
    let items ← treeItems? rest
    return item :: items

def treeEntries? : List (Node × Node) → Option (List (String × Tree))
  | [] => some []
  | (scalar style text, value) :: rest => do
    let key ←
      match scalarTree style text with
      | .text key => some key
      | _ => none
    let value ← tree? value
    let entries ← treeEntries? rest
    return (key, value) :: entries
  | _ :: _ => none

end

end Node
end Yaml

def Tree.ofYamlText? (s : String) : Option Tree := do
  let node ← Yaml.Node.read? s
  let node ← node.flattened?
  node.tree?

end Espalier
