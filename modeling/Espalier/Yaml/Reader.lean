import Espalier.Yaml.Cursor

/-!
# Reading YAML text

The reader turns the text of one document into a node: block and flow collections, scalars,
anchors and aliases.  Block structure follows columns.  A mapping is recognised by its first key,
which stands on one line and ends with a colon; the entries of a collection share a column, and a
value belongs to an entry when it is indented deeper.  Tags are read and have no effect.

The budgets by which a reader may limit a document, such as its nodes, its depth, the length of its
scalars and what its aliases stand for, are left out: nothing is refused for its size.
-/

namespace Espalier
namespace Yaml
namespace Cursor

/-! ## Properties -/

/-- Skips tags and collects anchors in front of a node, all on one line. -/
def properties? : (fuel : Nat) → Cursor → Option (List String × Cursor)
  | 0, _ => none
  | fuel + 1, s =>
    match s.rest with
    | '&' :: _ => do
      let (name, t) ← s.name?
      let (more, u) ← properties? fuel t.skipSpaces
      return (name :: more, u)
    | '!' :: _ => do
      let t ← s.tag?
      properties? fuel t.skipSpaces
    | _ => some ([], s)

def atProperty (s : Cursor) : Bool :=
  match s.rest with
  | '&' :: _ => true
  | '!' :: _ => true
  | _ => false

/-- Records a node under its anchors. -/
def record (names : List String) (node : Node) (s : Cursor) : Cursor :=
  { s with anchors := names.map (fun name => (name, node)) ++ s.anchors }

def alias? (s : Cursor) : Option (Node × Cursor) := do
  let (name, t) ← s.name?
  let found ← s.anchors.find? fun a => a.1 == name
  return (found.2, t)

/-! ## Flow collections -/

/-- Whether a node may have its colon without a blank, as in JSON. -/
def closesItself (s : Cursor) : Bool :=
  match s.rest with
  | c :: _ => c == '"' || c == '\x27' || c == '[' || c == '\x7b'
  | [] => false

/-- Whether a colon that ends a key stands next. -/
def atColon (adjacent : Bool) (s : Cursor) : Bool :=
  match s.rest with
  | ':' :: rest => adjacent || startsGap rest || (rest.head?.map isFlowMark).getD false
  | _ => false

mutual

/-- A node inside a flow collection; nothing written is an empty node. -/
def flowNode? : (fuel : Nat) → Cursor → Option (Node × Cursor)
  | 0, _ => none
  | fuel + 1, s => do
    let (names, t) ← properties? fuel s
    let t := if names.isEmpty && !s.atProperty then t else t.nextInFlow
    let (node, u) ←
      match t.rest with
      | '[' :: _ => do
        let (items, u) ← flowItems? fuel (t.skip 1).nextInFlow
        return (Node.seq items, u)
      | '\x7b' :: _ => do
        let (entries, u) ← flowEntries? fuel (t.skip 1).nextInFlow
        return (Node.map entries, u)
      | '"' :: _ => do
        let (text, u) ← t.quoted? fuel
        return (Node.scalar .quoted text, u)
      | '\x27' :: _ => do
        let (text, u) ← t.quoted? fuel
        return (Node.scalar .quoted text, u)
      | '*' :: _ => t.alias?
      | _ =>
        if t.opensPlain true then
          let (text, u) := t.plain fuel true 0
          some (Node.scalar .plain text, u)
        else some (Node.empty, t)
    return (node, u.record names node)

/-- The items of a flow sequence and its closing bracket. -/
def flowItems? : (fuel : Nat) → Cursor → Option (List Node × Cursor)
  | 0, _ => none
  | fuel + 1, s =>
    match s.rest with
    | [] => none
    | ']' :: _ => some ([], s.skip 1)
    | ',' :: _ => none
    | _ => do
      let (node, t) ← flowNode? fuel s
      let t := t.nextInFlow
      let (item, u) ←
        if t.atColon s.closesItself then do
          let (value, u) ← flowNode? fuel (t.skip 1).nextInFlow
          pure (Node.map [(node, value)], u.nextInFlow)
        else pure (node, t)
      match u.rest with
      | ']' :: _ => return ([item], u.skip 1)
      | ',' :: _ => do
        let (items, v) ← flowItems? fuel (u.skip 1).nextInFlow
        return (item :: items, v)
      | _ => none

/-- The entries of a flow mapping and its closing brace. -/
def flowEntries? : (fuel : Nat) → Cursor → Option (List (Node × Node) × Cursor)
  | 0, _ => none
  | fuel + 1, s =>
    match s.rest with
    | [] => none
    | '\x7d' :: _ => some ([], s.skip 1)
    | ',' :: _ => none
    | _ => do
      let (key, t) ← flowNode? fuel (if s.opens '?' then (s.skip 1).nextInFlow else s)
      let t := t.nextInFlow
      let (value, u) ←
        if t.atColon s.closesItself then do
          let (value, u) ← flowNode? fuel (t.skip 1).nextInFlow
          pure (value, u.nextInFlow)
        else pure (Node.empty, t)
      match u.rest with
      | '\x7d' :: _ => return ([(key, value)], u.skip 1)
      | ',' :: _ => do
        let (entries, v) ← flowEntries? fuel (u.skip 1).nextInFlow
        return ((key, value) :: entries, v)
      | _ => none

end

/-! ## Block collections -/

/-- A key that stands on one line and ends with a colon; the place is after the colon. -/
def implicitKey? (fuel : Nat) (s : Cursor) : Option (Node × Cursor) := do
  let (names, t) ← properties? fuel s
  let (node, u) ←
    if t.closesItself then flowNode? fuel t
    else if t.rest.head? == some '*' then t.alias?
    else if t.opensPlain false then
      let text := plainLine false false t.rest
      some (Node.scalar .plain (String.ofList (withoutTail text)), t.skip text.length)
    else some (Node.empty, t)
  let u := u.skipSpaces
  let used := s.rest.length - u.rest.length
  if u.opens ':' && !(s.rest.take used).contains '\n' then
    some (node, (s.skip (used + 1)).record names node)
  else none

mutual

/--
The node of an entry whose collection stands in column `parent`.  A block collection may start on
the current line only where `inline` allows it; `level` lets a sequence stand in the column of the
mapping that it is a value of.
-/
def blockNode? : (fuel : Nat) → (parent : Int) → (level inline : Bool) → Cursor →
    Option (Node × Cursor)
  | 0, _, _, _, _ => none
  | fuel + 1, parent, level, inline, s =>
    -- At the root nothing is indented, so a tab is a blank like any other.
    let (crossed, t) := s.next (parent < 0)
    if t.atEnd || t.atMarker then some (Node.empty, t)
    else if crossed && (t.column : Int) ≤ parent then
      -- The entry is empty, but a sequence may stand in the column of its mapping.
      if level && (t.column : Int) = parent && t.opens '-' then blockSeq? fuel t.column t
      else some (Node.empty, t)
    else blockContent? fuel parent level (inline || crossed) t

/-- The node that starts at the next token. -/
def blockContent? : (fuel : Nat) → (parent : Int) → (level collections : Bool) → Cursor →
    Option (Node × Cursor)
  | 0, _, _, _, _ => none
  | fuel + 1, parent, level, collections, s =>
    if s.opens '-' then (if collections then blockSeq? fuel s.column s else none)
    else if s.opens '?' || (implicitKey? fuel s).isSome then
      if collections then blockMap? fuel s.column s else none
    else if s.atProperty then do
      -- Properties that belong to no key belong to the node after them, on this line or later.
      let (names, t) ← properties? fuel s
      let (node, u) ← blockNode? fuel parent level false t
      return (node, u.record names node)
    else
      match s.rest with
      | '|' :: _ => do
        let (text, t) ← s.blockScalar? parent
        return (Node.scalar .quoted text, t)
      | '>' :: _ => do
        let (text, t) ← s.blockScalar? parent
        return (Node.scalar .quoted text, t)
      | '*' :: _ => do
        let (node, t) ← s.alias?
        let t ← t.endLine?
        return (node, t)
      | _ =>
        if s.closesItself then do
          let (node, t) ← flowNode? fuel s
          let t ← t.endLine?
          return (node, t)
        else if s.opensPlain false then do
          let (text, t) := s.plain fuel false parent
          let t ← t.endLine?
          return (Node.scalar .plain text, t)
        else none

def blockSeq? : (fuel column : Nat) → Cursor → Option (Node × Cursor)
  | 0, _, _ => none
  | fuel + 1, column, s => do
    let (item, t) ← blockNode? fuel column false true (s.skip 1)
    let (_, u) := t.next false
    if !u.atEnd && !u.atMarker && u.column = column && u.opens '-' then do
      let (more, v) ← blockSeq? fuel column u
      match more with
      | .seq items => return (.seq (item :: items), v)
      | _ => none
    else if !u.atEnd && !u.atMarker && column < u.column then none
    else return (.seq [item], u)

/-- The entries of a block mapping in a column. -/
def blockMap? : (fuel column : Nat) → Cursor → Option (Node × Cursor)
  | 0, _, _ => none
  | fuel + 1, column, s => do
    let (entry, t) ←
      if s.opens '?' then do
        let (key, t) ← blockNode? fuel column false true (s.skip 1)
        let (_, u) := t.next false
        if !u.atEnd && !u.atMarker && u.column = column && u.opens ':' then do
          let (value, v) ← blockNode? fuel column true true (u.skip 1)
          pure ((key, value), v)
        else pure ((key, Node.empty), u)
      else do
        let (key, t) ← implicitKey? fuel s
        let (value, u) ← blockNode? fuel column true false t
        pure ((key, value), u)
    let (_, u) := t.next false
    if u.atEnd || u.atMarker || u.column < column then return (.map [entry], u)
    else if u.column = column then do
      let (more, v) ← blockMap? fuel column u
      match more with
      | .map entries => return (.map (entry :: entries), v)
      | _ => none
    else none

end

/-! ## Documents -/

/-- Skips directives, each a line that starts with a percent sign; tells whether there were any. -/
def skipDirectives (found : Bool) : (fuel : Nat) → Cursor → Bool × Cursor
  | 0, s => (found, s)
  | fuel + 1, s =>
    let (_, t) := s.next true
    match t.rest with
    | '%' :: _ =>
      if t.column = 0 then skipDirectives true fuel (t.goto (t.rest.dropWhile (· ≠ '\n')) 1)
      else (found, t)
    | _ => (found, t)

/-- Whether only blanks and comments, or the end of the document, are left. -/
def closes (s : Cursor) : Bool :=
  let (_, t) := s.next true
  if t.atEnd then true
  else if t.atMarker && t.rest.head? == some '.' then
    match (t.skip 3).endLine? with
    | some u => (u.next true).2.atEnd
    | none => false
  else false

/-- Whether the document starts with a line of dashes. -/
def atDocumentStart (s : Cursor) : Bool :=
  s.atMarker && s.rest.head? == some '-'

end Cursor

/-- Reads the one document of a text; an empty text is an empty node. -/
def Node.read? (text : String) : Option Node := do
  let cs := normalized text.toList
  let cs := if cs.head? == some '\ufeff' then cs.drop 1 else cs
  let fuel := 4 * cs.length + 16
  let start : Cursor := { rest := cs, column := 0, anchors := [] }
  let (directives, s) := Cursor.skipDirectives false fuel start
  let (node, t) ←
    if s.atDocumentStart then Cursor.blockNode? fuel (-1) false false (s.skip 3)
    else if directives then none
    else Cursor.blockNode? fuel (-1) false true s
  if t.closes then some node else none

end Yaml
end Espalier
