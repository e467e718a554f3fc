/-!
# YAML nodes

What the text of a YAML document describes before any scalar is given a type: scalars with their
text, sequences, and mappings from nodes to nodes, with every alias replaced by the node it names.
Only a plain scalar can stand for anything but a string, so a scalar remembers whether it was plain.
-/

namespace Espalier
namespace Yaml

/-- Whether a scalar was written without quotes and block indicators. -/
inductive Style where
  | plain
  | quoted
deriving DecidableEq

inductive Node where
  | scalar (style : Style) (text : String)
  | seq (items : List Node)
  | map (entries : List (Node × Node))

namespace Node

def empty : Node :=
  scalar .plain ""

instance : Inhabited Node := ⟨empty⟩

end Node
end Yaml
end Espalier
