import Espalier.Text.Blank
import Espalier.Text.Percent
import Espalier.Text.Search

/-!
# Data source names

A data source name is a scheme, a path, and after a question mark a query.  Two readings of it stand
side by side.  Settings ask by sight whether the database is in memory, which decides how
connections are pooled; the driver takes the name apart and thereby decides what is opened.
-/

namespace Espalier
namespace Dsn

open Search

/-! ## By sight -/

def scheme : String := "sqlite:"

def isMemory (dsn : String) : Bool :=
  let dsn := Blank.trim dsn
  dsn == "sqlite::memory:" || endsWith dsn ":memory:" ||
    occursIn "mode=memory" dsn

def isKnown (dsn : String) : Bool :=
  startsWith (Blank.trimStart dsn) scheme

/-- The name for the argument of a command line: a path gets the scheme. -/
def ofArgument (argument : String) : String :=
  if startsWith argument scheme then argument else "sqlite://" ++ argument

/-! ## Taken apart -/

structure Target where
  /-- The path of the file, with its percent codes replaced. -/
  path : String
  inMemory : Bool := false
  readOnly : Bool := false
  /-- The name of the layer between the database and the files of the host. -/
  layer : String := "unix"
deriving DecidableEq

/-- Takes a start away as often as it is there. -/
def stripStart (start : List Char) (cs : List Char) : List Char :=
  if _h : start.isPrefixOf cs ∧ start ≠ [] then stripStart start (cs.drop start.length) else cs
termination_by cs.length
decreasing_by
  have hp := List.isPrefixOf_iff_prefix.1 _h.1
  have hl := hp.length_le
  have hn := List.length_pos_iff.2 _h.2
  simp only [List.length_drop]
  omega

/-- Splits at the first of a character; the second part is there if the character is. -/
def splitFirst (c : Char) (cs : List Char) : List Char × Option (List Char) :=
  match cs.dropWhile (· != c) with
  | [] => (cs, none)
  | _ :: rest => (cs.takeWhile (· != c), some rest)

/-- The pairs of a query; a missing value is empty. -/
def queryPairs (query : List Char) : List (String × String) :=
  ((query.splitOn '&').filter (!·.isEmpty)).map fun pair =>
    let (name, value) := splitFirst '=' pair
    (String.ofList name, String.ofList (value.getD []))

/-- Applies one member of a query. -/
def Target.setting? (t : Target) (name value : String) : Option Target :=
  let name := Percent.decodeQuery name
  let value := Percent.decodeQuery value
  if name = "mode" then
    if value = "ro" then some { t with readOnly := true }
    else if value = "rw" || value = "rwc" then some t
    else if value = "memory" then some { t with inMemory := true }
    else none
  else if name = "cache" then
    if value = "private" || value = "shared" then some t else none
  else if name = "immutable" then
    if ["true", "1", "false", "0"].contains value then some t else none
  else if name = "vfs" then some { t with layer := value }
  else none

def target? (dsn : String) : Option Target := do
  let cs := stripStart scheme.toList (stripStart "sqlite://".toList dsn.toList)
  let (path, query) := splitFirst '?' cs
  let base : Target ←
    if String.ofList path = ":memory:" then some { path := "", inMemory := true }
    else (Percent.decode? (String.ofList path)).map fun p => { path := p }
  (queryPairs (query.getD [])).foldlM (fun t pair => t.setting? pair.1 pair.2) base

/-! ## What is opened -/

inductive Location where
  | memory
  /-- A file of the connection's own that goes away with it. -/
  | temporary
  | file (path : String)
  /-- A file under a layer that has no write-ahead logs. -/
  | unlogged (path : String)
  /-- A file that its layer holds in memory. -/
  | held
deriving DecidableEq

/-- The layers that can be opened. -/
def layers : List String :=
  ["unix", "unix-excl", "unix-dotfile", "unix-none", "memdb"]

/-- The path of a file address without its scheme: a host, if there is one, must be this one, and a
query or a fragment is left out. -/
def addressPath? (address : List Char) : Option String :=
  let path? :=
    match address with
    | '/' :: '/' :: rest =>
      let host := String.ofList (rest.takeWhile (· != '/'))
      if host = "" || host = "localhost" then some (rest.dropWhile (· != '/')) else none
    | cs => some cs
  path?.bind fun cs => Percent.decode? (String.ofList (cs.takeWhile fun c => c != '?' && c != '#'))

/-- Where a layer has the database of a path. -/
def Location.ofPath (layer path : String) : Location :=
  if path = ":memory:" then .memory
  else if path.isEmpty then .temporary
  else if layer = "memdb" then .held
  else if layer = "unix-dotfile" || layer = "unix-none" then .unlogged path
  else .file path

/-- Where the database of a target is; a path may be written as a file address. -/
def Target.location? (t : Target) : Option Location :=
  if !layers.contains t.layer then none
  else if t.inMemory then some .memory
  else if startsWith t.path "file:" then
    (addressPath? (t.path.toList.drop 5)).map (Location.ofPath t.layer)
  else some (Location.ofPath t.layer t.path)

end Dsn
end Espalier
