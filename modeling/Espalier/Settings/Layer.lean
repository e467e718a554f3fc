import Espalier.Text.Search
import Espalier.Yaml.Reader
import Espalier.Yaml.Scalar
import Espalier.Text.Blank
import Espalier.Number.Word

/-!
# Layers of settings

Settings come in layers, each a tree: a YAML file, then the environment.  A later layer is laid over
an earlier one, mapping by mapping.  In the environment, names after a common start spell the path
to an entry, and values are read as truth values, numbers, lists or mappings where they can be.
-/

namespace Espalier

/-! ## Laying over -/

mutual

/-- A tree with another laid over it: mappings are joined, all else is replaced. -/
def Tree.overlaid (base : Tree) : Tree → Tree
  | .map entries =>
    match base with
    | .map old => .map (overlaidEntries old entries)
    | _ => .map entries
  | top => top

/-- The entries of a mapping with others laid over them. -/
def Tree.overlaidEntries (old : List (String × Tree)) :
    List (String × Tree) → List (String × Tree)
  | [] => old
  | (key, top) :: rest =>
    let value :=
      match Entries.get? old key with
      | some base => Tree.overlaid base top
      | none => top
    Tree.overlaidEntries (Entries.put old key value) rest

end

namespace Layer

/-! ## Files -/

mutual

/-- The tree of a node by the core rules; a repeated key has its last value. -/
def ofNode? : Yaml.Node → Option Tree
  | .scalar .plain text => some (Yaml.coreTree text)
  | .scalar .quoted text => some (.text text)
  | .seq items => (ofItems? items).map .seq
  | .map entries => (ofEntries? [] entries).map .map

def ofItems? : List Yaml.Node → Option (List Tree)
  | [] => some []
  | item :: rest => do
    let item ← ofNode? item
    let items ← ofItems? rest
    return item :: items

def ofEntries? (done : List (String × Tree)) :
    List (Yaml.Node × Yaml.Node) → Option (List (String × Tree))
  | [] => some done
  | (.scalar _ key, value) :: rest => do
    let value ← ofNode? value
    ofEntries? (Entries.put done key value) rest
  | _ :: _ => none

end

/-- The layer of a file, which must hold a mapping or nothing. -/
def ofYaml? (text : String) : Option Tree := do
  let node ← Yaml.Node.read? text
  match node with
  | .scalar .plain "" => return .map []
  | .map _ => ofNode? node
  | _ => none

/-! ## The environment -/

def isGap (c : Char) : Bool :=
  c == ' ' || c == '\t' || c == '\n' || c == '\r'

def isSeparator (c : Char) : Bool :=
  [',', '{', '}', '[', ']'].contains c

def bareTree (word : String) : Tree :=
  -- Only a word with a point may be a decimal: an exponent alone does not make a number.
  let decimal :=
    if word.toList.contains '.' then
      (Numeral.ofChars? word.toList).map fun n => Tree.float n.toDouble
    else none
  match decimal with
  | some t => t
  | none =>
    match Numeral.ofChars? word.toList with
    | some n =>
      if n.isWhole then
        match int64? n.toInt with
        | some i => .int i
        | none => .float (Double.ofInt n.toInt)
      else .text word
    | none => .text word

/-- Takes a text between double quotes, whose first quote is gone. -/
def quoted? : List Char → Option (List Char × List Char)
  | [] => none
  | '"' :: rest => some ([], rest)
  | '\\' :: c :: rest => (quoted? rest).map fun r => (escaped c :: r.1, r.2)
  | c :: rest => (quoted? rest).map fun r => (c :: r.1, r.2)
where
  /-- What a character stands for after a backslash. -/
  escaped : Char → Char
    | '0' => '\x00'
    | 'n' => '\n'
    | 'r' => '\r'
    | 't' => '\t'
    | c => c

def key? (cs : List Char) : Option (String × List Char) :=
  match cs with
  | '"' :: rest => (quoted? rest).map fun r => (String.ofList r.1, r.2)
  | cs =>
    let isWord (c : Char) := c.isAlphanum || c == '_' || c == '-'
    let word := cs.takeWhile isWord
    if word.isEmpty then none else some (String.ofList word, cs.dropWhile isWord)

mutual

/-- Takes a value with the blanks around it; `fuel` bounds the nesting and the lengths. -/
def value? (fuel : Nat) (cs : List Char) : Option (Tree × List Char) :=
  match fuel with
  | 0 => none
  | fuel + 1 => do
    let (t, rest) ←
      -- A truth value may be the start of a longer word; whoever asked then finds text left over.
      match cs.dropWhile isGap with
      | 't' :: 'r' :: 'u' :: 'e' :: rest => some (Tree.bool true, rest)
      | 'f' :: 'a' :: 'l' :: 's' :: 'e' :: rest => some (Tree.bool false, rest)
      | '[' :: rest => (items? fuel (rest.dropWhile isGap)).map fun r => (Tree.seq r.1, r.2)
      | '{' :: rest =>
        (entries? fuel [] (rest.dropWhile isGap)).map fun r => (Tree.map r.1, r.2)
      | '"' :: rest => (quoted? rest).map fun r => (Tree.text (String.ofList r.1), r.2)
      | '\x27' :: c :: '\x27' :: rest => some (Tree.text (String.singleton c), rest)
      | '\x27' :: _ => none
      | cs =>
        let word := Blank.trim (String.ofList (cs.takeWhile (!isSeparator ·)))
        some (bareTree word, cs.dropWhile (!isSeparator ·))
    return (t, rest.dropWhile isGap)

def items? (fuel : Nat) (cs : List Char) : Option (List Tree × List Char) :=
  match fuel, cs with
  | 0, _ => none
  | _, ']' :: rest => some ([], rest)
  | fuel + 1, cs => do
    let (t, rest) ← value? fuel cs
    match rest with
    | ',' :: rest =>
      let (ts, rest) ← items? fuel (rest.dropWhile isGap)
      return (t :: ts, rest)
    | ']' :: rest => return ([t], rest)
    | _ => none

def entries? (fuel : Nat) (done : Entries Tree) (cs : List Char) :
    Option (Entries Tree × List Char) :=
  match fuel, cs with
  | 0, _ => none
  | _, '}' :: rest => some (done, rest)
  | fuel + 1, cs => do
    let (key, rest) ← key? cs
    match rest.dropWhile isGap with
    | '=' :: rest =>
      let (t, rest) ← value? fuel rest
      let done := Entries.put done key t
      match rest with
      | ',' :: rest => entries? fuel done (rest.dropWhile isGap)
      | '}' :: rest => return (done, rest)
      | _ => none
    | _ => none

end

/-- The tree of a value: what it denotes as a whole, or else its text. -/
def ofValue (s : String) : Tree :=
  match value? (s.length + 1) s.toList with
  | some (t, []) => t
  | _ => .text s

/-- Splits a name at every two underscores. -/
def splitName : List Char → List (List Char)
  | '_' :: '_' :: rest => [] :: splitName rest
  | c :: rest =>
    match splitName rest with
    | part :: parts => (c :: part) :: parts
    | [] => [[c]]
  | [] => [[]]

/-- The path that the rest of a name spells; a point also parts names, and an empty part ends the
path. -/
def pathOf (name : String) : List String :=
  let parts := (splitName name.toList).flatMap fun part => part.splitOn '.'
  (parts.takeWhile fun part => !part.isEmpty).map String.ofList

/-- The tree that holds a value at the end of a path. -/
def nested (path : List String) (value : Tree) : Tree :=
  path.foldr (fun key t => .map [(key, t)]) value

/-- The layer of the variables whose names start with a given text, in any case. -/
def ofEnvironment (start : String) (environment : List (String × String)) : Tree :=
  environment.foldl (fun t v =>
    let name := Ascii.fold v.1
    if Search.startsWith name (Ascii.fold start) then
      match pathOf (String.ofList (name.toList.drop start.length)) with
      | [] => t
      | path => t.overlaid (nested path (ofValue v.2))
    else t) (.map [])

end Layer
end Espalier
