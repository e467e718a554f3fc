import Espalier.Text.Ascii
import Espalier.Yaml.Node

/-!
# Places in YAML text

A cursor is the text still to read, the column it starts in and the anchors met so far.  This file
reads what has no structure of its own: blanks and comments between tokens, names, and the four
kinds of scalar text (plain, single quoted, double quoted, and block scalars).
-/

namespace Espalier
namespace Yaml

structure Cursor where
  rest : List Char
  column : Nat
  anchors : List (String × Node)

/-! ## Character classes -/

def isSpace (c : Char) : Bool :=
  c == ' ' || c == '\t'

def isGap (c : Char) : Bool :=
  isSpace c || c == '\n'

/-- The characters that have a meaning inside flow collections. -/
def isFlowMark (c : Char) : Bool :=
  c == ',' || c == '[' || c == ']' || c == '\x7b' || c == '\x7d'

/-- The characters that cannot open a plain scalar, three of them unless text follows at once. -/
def isIndicator (c : Char) : Bool :=
  "-?:,[]\x7b\x7d#&*!|>\x27\x22%@\x60".toList.contains c

/-- Whether a text ends here or goes on with a blank. -/
def startsGap : List Char → Bool
  | [] => true
  | c :: _ => isGap c

/-- Line breaks as line feeds, and no byte order mark. -/
def normalized : List Char → List Char
  | '\r' :: '\n' :: rest => '\n' :: normalized rest
  | '\r' :: rest => '\n' :: normalized rest
  | c :: rest => c :: normalized rest
  | [] => []

namespace Cursor

def skip (s : Cursor) (n : Nat) : Cursor :=
  { s with rest := s.rest.drop n, column := s.column + n }

def goto (s : Cursor) (rest : List Char) (column : Nat) : Cursor :=
  { s with rest := rest, column := column }

def atEnd (s : Cursor) : Bool :=
  s.rest.isEmpty

/-- Whether the line holds a document marker, which is three dashes or points at its start. -/
def atMarker (s : Cursor) : Bool :=
  s.column == 0 &&
    match s.rest with
    | '-' :: '-' :: '-' :: rest => startsGap rest
    | '.' :: '.' :: '.' :: rest => startsGap rest
    | _ => false

/-- Whether the text opens with an indicator that a gap must follow. -/
def opens (s : Cursor) (indicator : Char) : Bool :=
  match s.rest with
  | c :: rest => c == indicator && startsGap rest
  | [] => false

/-! ## Between tokens -/

/-- Whether nothing but blanks and a comment is left on the line. -/
def blankLine (cs : List Char) : Bool :=
  match cs.dropWhile isSpace with
  | [] => true
  | c :: _ => c == '\n' || c == '#'

/--
Skips blanks, comments and line breaks and tells whether a line break was among them.  A comment
needs a blank before it.  Where `tabs` are no blanks, a tab cannot indent a line that holds
anything.
-/
def skipGaps (tabs crossed blankBefore indenting comment : Bool) :
    List Char → Nat → Bool × List Char × Nat
  | [], column => (crossed, [], column)
  | c :: rest, column =>
    if c = '\n' then skipGaps tabs true true true false rest 0
    else if comment then skipGaps tabs crossed true false true rest (column + 1)
    else if c = ' ' then skipGaps tabs crossed true indenting false rest (column + 1)
    -- After a tab nothing can be indented any more, so the rest of the line counts as inside it.
    else if c = '\t' && (tabs || !(indenting && !blankLine rest)) then
      skipGaps tabs crossed true false false rest (column + 1)
    else if c = '#' && blankBefore then skipGaps tabs crossed true false true rest (column + 1)
    else (crossed, c :: rest, column)

/-- The next token, and whether it stands on a later line. -/
def next (s : Cursor) (tabs : Bool) : Bool × Cursor :=
  let atStart := s.column == 0
  let (crossed, rest, column) := skipGaps tabs false atStart atStart false s.rest s.column
  (crossed, s.goto rest column)

/-- The next token inside a flow collection, where tabs indent too. -/
def nextInFlow (s : Cursor) : Cursor :=
  (s.next true).2

def skipSpaces (s : Cursor) : Cursor :=
  s.skip (s.rest.takeWhile isSpace).length

/-- Requires that nothing but blanks and a comment is left on the line. -/
def endLine? (s : Cursor) : Option Cursor :=
  match s.rest with
  | [] => some s
  | '\n' :: _ => some s
  | c :: _ => if isSpace c && blankLine s.rest then some s else none

/-! ## Names -/

/-- The name of an anchor or alias, the indicator being next. -/
def name? (s : Cursor) : Option (String × Cursor) :=
  let name := (s.rest.drop 1).takeWhile fun c => !isGap c && !isFlowMark c
  if name.isEmpty then none else some (String.ofList name, s.skip (name.length + 1))

def isTagChar (c : Char) : Bool :=
  !isGap c && !isFlowMark c && c != '!'

/-- The length of a tag: an address in angle brackets, a standard name after two marks, or a name
of its own, which can be empty. -/
def tagLength? : List Char → Option Nat
  | '!' :: '<' :: rest =>
    let address := rest.takeWhile fun c => c != '>' && !isGap c
    if (rest.drop address.length).head? == some '>' then some (address.length + 3) else none
  | '!' :: '!' :: rest =>
    let name := rest.takeWhile isTagChar
    if name.isEmpty then none else some (name.length + 2)
  | '!' :: rest => some ((rest.takeWhile isTagChar).length + 1)
  | _ => none

/-- The place after a tag, which ends at a gap or at a flow mark. -/
def tag? (s : Cursor) : Option Cursor := do
  let t := s.skip (← tagLength? s.rest)
  if startsGap t.rest || (t.rest.head?.map isFlowMark).getD false then some t else none

/-! ## Plain scalars -/

/-- Whether a plain scalar can start here. -/
def opensPlain (flow : Bool) (s : Cursor) : Bool :=
  match s.rest with
  | [] => false
  | c :: rest =>
    if c = '-' || c = '?' || c = ':' then
      match rest with
      | [] => false
      | d :: _ => !isGap d && !(flow && isFlowMark d)
    else !isIndicator c && !isGap c

/-- The characters of a plain scalar on one line, with the blanks after them. -/
def plainLine (flow blankBefore : Bool) : List Char → List Char
  | [] => []
  | c :: rest =>
    let endsKey :=
      c = ':' && (startsGap rest || (flow && (rest.head?.map isFlowMark).getD false))
    if c = '\n' || endsKey || (c = '#' && blankBefore) || (flow && isFlowMark c) then []
    else c :: plainLine flow (isSpace c) rest

def withoutTail (cs : List Char) : List Char :=
  (cs.reverse.dropWhile isSpace).reverse

/-- Line breaks inside a scalar: one becomes a blank, of more the first is dropped. -/
def foldBreaks (count : Nat) : List Char :=
  if count = 1 then [' '] else List.replicate (count - 1) '\n'

/-- The lines after the first of a plain scalar, each indented deeper than `parent`. -/
def plainLines (flow : Bool) (parent : Int) : (fuel : Nat) → Cursor → List Char × Cursor
  | 0, s => ([], s)
  | fuel + 1, s =>
    let gap := s.rest.takeWhile isGap
    let breaks := (gap.filter (· = '\n')).length
    let column := (gap.reverse.takeWhile (· ≠ '\n')).length
    let t := s.goto (s.rest.drop gap.length) column
    -- A line goes on with the scalar unless it is a marker, is not deeper, or holds nothing plain.
    if breaks = 0 || t.atEnd || t.atMarker || (!flow && (column : Int) ≤ parent) then ([], s)
    else
      let line := plainLine flow true t.rest
      if line.isEmpty then ([], s)
      else
        let (more, u) := plainLines flow parent fuel (t.skip (withoutTail line).length)
        (foldBreaks breaks ++ withoutTail line ++ more, u)

/-- A plain scalar, over as many lines as it has. -/
def plain (fuel : Nat) (flow : Bool) (parent : Int) (s : Cursor) : String × Cursor :=
  let line := plainLine flow false s.rest
  let (more, t) := plainLines flow parent fuel (s.skip (withoutTail line).length)
  (String.ofList (withoutTail line ++ more), t)

/-! ## Quoted scalars -/

/-- A run of blanks and breaks inside quotes: without breaks it stays, otherwise it is folded. -/
def foldRun (run : List Char) : List Char :=
  let breaks := (run.filter (· = '\n')).length
  if breaks = 0 then run else foldBreaks breaks

def columnAfter (column : Nat) (run : List Char) : Nat :=
  if run.contains '\n' then (run.reverse.takeWhile (· ≠ '\n')).length else column + run.length

/-- The place after a run of blanks and breaks, if it is not a document marker. -/
def afterRun? (s : Cursor) (run : List Char) : Option Cursor :=
  let t := s.goto (s.rest.drop run.length) (columnAfter s.column run)
  if t.atMarker then none else some t

/-- The body of a single quoted scalar, in which a quote is written twice. -/
def singleQuoted? : (fuel : Nat) → Cursor → Option (List Char × Cursor)
  | 0, _ => none
  | fuel + 1, s =>
    match s.rest with
    | [] => none
    | '\x27' :: '\x27' :: _ => do
      let (more, t) ← singleQuoted? fuel (s.skip 2)
      return ('\x27' :: more, t)
    | '\x27' :: _ => some ([], s.skip 1)
    | c :: _ =>
      if isGap c then do
        let run := s.rest.takeWhile isGap
        let t ← s.afterRun? run
        let (more, t) ← singleQuoted? fuel t
        return (foldRun run ++ more, t)
      else do
        let (more, t) ← singleQuoted? fuel (s.skip 1)
        return (c :: more, t)

def hexValue? (digits : List Char) : Option Nat := do
  let values ← digits.mapM (Ascii.digitValue? 16)
  return values.foldl (fun n d => n * 16 + d) 0

/-- The character with a code written in hexadecimal digits. -/
def hexChar? (digits : List Char) : Option Char := do
  let code ← hexValue? digits
  if code < 0xD800 || (0xE000 ≤ code && code < 0x110000) then some (Char.ofNat code) else none

/-- The character beyond the first plane that two codes of four digits write together, as JSON does;
the second code follows a backslash and its letter. -/
def pairedChar? (digits : List Char) : List Char → Option Char
  | '\\' :: 'u' :: rest => do
    let high ← hexValue? digits
    let low ← hexValue? (rest.take 4)
    if 0xD800 ≤ high && high < 0xDC00 && 0xDC00 ≤ low && low < 0xE000 then
      some (Char.ofNat (0x10000 + (high - 0xD800) * 0x400 + (low - 0xDC00)))
    else none
  | _ => none

/-- The character of an escape and the number of characters after the backslash. -/
def escape? : List Char → Option (Char × Nat)
  | [] => none
  | c :: rest =>
    let numbered (count : Nat) : Option (Char × Nat) :=
      if rest.length < count then none
      else (hexChar? (rest.take count)).map fun x => (x, count + 1)
    match c with
    | '0' => some (Char.ofNat 0, 1)
    | 'a' => some ('\x07', 1)
    | 'b' => some ('\x08', 1)
    | 't' => some ('\t', 1)
    | '\t' => some ('\t', 1)
    | 'n' => some ('\n', 1)
    | 'v' => some ('\x0b', 1)
    | 'f' => some ('\x0c', 1)
    | 'r' => some ('\r', 1)
    | 'e' => some ('\x1b', 1)
    | ' ' => some (' ', 1)
    | '"' => some ('"', 1)
    | '/' => some ('/', 1)
    | '\\' => some ('\\', 1)
    | 'N' => some (Char.ofNat 0x85, 1)
    | '_' => some (Char.ofNat 0xA0, 1)
    | 'L' => some (Char.ofNat 0x2028, 1)
    | 'P' => some (Char.ofNat 0x2029, 1)
    | 'x' => numbered 2
    | 'u' =>
      numbered 4 <|> (pairedChar? (rest.take 4) (rest.drop 4)).map fun x => (x, 11)
    | 'U' => numbered 8
    | _ => none

/-- The body of a double quoted scalar; a backslash at the end of a line joins it to the next. -/
def doubleQuoted? : (fuel : Nat) → Cursor → Option (List Char × Cursor)
  | 0, _ => none
  | fuel + 1, s =>
    match s.rest with
    | [] => none
    | '"' :: _ => some ([], s.skip 1)
    | '\\' :: '\n' :: rest => do
      let run := rest.takeWhile isGap
      let t ← (s.goto rest 0).afterRun? run
      let (more, t) ← doubleQuoted? fuel t
      return (List.replicate (run.filter (· = '\n')).length '\n' ++ more, t)
    | '\\' :: rest => do
      let (c, used) ← escape? rest
      let (more, t) ← doubleQuoted? fuel (s.skip (used + 1))
      return (c :: more, t)
    | c :: _ =>
      if isGap c then do
        let run := s.rest.takeWhile isGap
        let t ← s.afterRun? run
        let (more, t) ← doubleQuoted? fuel t
        return (foldRun run ++ more, t)
      else do
        let (more, t) ← doubleQuoted? fuel (s.skip 1)
        return (c :: more, t)

def quoted? (fuel : Nat) (s : Cursor) : Option (String × Cursor) := do
  let (cs, t) ←
    match s.rest with
    | '"' :: _ => doubleQuoted? fuel (s.skip 1)
    | '\x27' :: _ => singleQuoted? fuel (s.skip 1)
    | _ => none
  return (String.ofList cs, t)

/-! ## Block scalars -/

/-- What becomes of the line breaks at the end of a block scalar. -/
inductive Chomping where
  | strip
  | clip
  | keep

/-- The chomping and indentation indicators, in either order, and how many there are. -/
def blockHeader (cs : List Char) : Chomping × Option Nat × Nat :=
  let chomp? (c : Char) : Option Chomping :=
    if c = '-' then some .strip else if c = '+' then some .keep else none
  let depth? (c : Char) : Option Nat :=
    if c.isDigit && c != '0' then some (c.toNat - '0'.toNat) else none
  match cs with
  | [] => (.clip, none, 0)
  | c :: rest =>
    match chomp? c, depth? c with
    | some chomp, _ =>
      match rest.head?.bind depth? with
      | some depth => (chomp, some depth, 2)
      | none => (chomp, none, 1)
    | none, some depth =>
      match rest.head?.bind chomp? with
      | some chomp => (chomp, some depth, 2)
      | none => (.clip, some depth, 1)
    | none, none => (.clip, none, 0)

def splitLine (cs : List Char) : List Char × List Char :=
  (cs.takeWhile (· ≠ '\n'), (cs.dropWhile (· ≠ '\n')).drop 1)

/-- The number of blanks before the first line that holds anything else. -/
def detectIndent : (fuel : Nat) → List Char → Nat
  | 0, _ => 0
  | fuel + 1, cs =>
    let (line, rest) := splitLine cs
    let indent := (line.takeWhile (· = ' ')).length
    if indent < line.length then indent else if rest.isEmpty then 0 else detectIndent fuel rest

/-- The lines of a block scalar without their indentation; a line of blanks is empty. -/
def blockLines (indent : Nat) : (fuel : Nat) → List Char → List (List Char) × List Char
  | 0, cs => ([], cs)
  | _ + 1, [] => ([], [])
  | fuel + 1, cs =>
    let (line, rest) := splitLine cs
    let spaces := (line.takeWhile (· = ' ')).length
    -- A line of fewer blanks and nothing else still belongs to the scalar.
    if spaces < indent && spaces < line.length then ([], cs)
    else
      let (more, after) := blockLines indent fuel rest
      (line.drop indent :: more, after)

/-- Joins lines with their breaks, folding single breaks between lines that do not open blank. -/
def joinLines (folded : Bool) : (lines : List (List Char)) → List Char
  | [] => []
  | [line] => line
  | line :: rest =>
    let empties := rest.takeWhile List.isEmpty
    let opensBlank (l : List Char) : Bool := (l.head?.map isSpace).getD false
    let following := (rest.dropWhile List.isEmpty).head?.getD []
    -- A line that opens with a blank keeps the breaks before and after it.
    let breaks :=
      if line.isEmpty then ['\n']
      else if folded && !opensBlank line && !opensBlank following then
        if empties.isEmpty then [' '] else []
      else ['\n']
    line ++ breaks ++ joinLines folded rest

/-- A block scalar, its indicator being next. -/
def blockScalar? (parent : Int) (s : Cursor) : Option (String × Cursor) := do
  let folded := s.rest.head? == some '>'
  let (chomp, depth, used) := blockHeader (s.rest.drop 1)
  let head ← (s.skip (used + 1)).endLine?
  let body := (head.rest.dropWhile (· ≠ '\n')).drop 1
  let least := max (parent + 1) 1
  let indent : Nat :=
    match depth with
    | some d => (max parent 0 + d).toNat
    | none => max (detectIndent (body.length + 1) body) least.toNat
  let (lines, after) := blockLines indent (body.length + 1) body
  let tail := lines.reverse.takeWhile List.isEmpty
  let content := lines.take (lines.length - tail.length)
  let text := joinLines folded content
  let breaks : List Char :=
    match chomp with
    | .strip => []
    | .clip => if content.isEmpty then [] else ['\n']
    | .keep => List.replicate (tail.length + (if content.isEmpty then 0 else 1)) '\n'
  return (String.ofList (text ++ breaks), s.goto after 0)

end Cursor
end Yaml
end Espalier
