import Espalier.Entries
import Espalier.Host

/-!
# Workspaces

A workspace is a directory with its files as a value, together with a text on standard input.  The
program runs on it as it runs on a machine.
-/

namespace Espalier

/-- Files and directories by their paths, and standard input. -/
structure Workspace where
  entries : Entries FileEntry := []
  input : String := ""

namespace Workspace

def pathOf (parts : List String) : String :=
  String.intercalate "/" parts

/-- What the parts of a path name; the empty path is the workspace itself. -/
def entry? (w : Workspace) (parts : List String) : Option FileEntry :=
  if parts.isEmpty || parts = [Path.root] then some .directory
  else Entries.get? w.entries (pathOf parts)

/-- What stands in the way of the parts after those already found. -/
def find (w : Workspace) (before : List String) : List String → Except FileError FileEntry
  | [] =>
    match w.entry? before with
    | some e => .ok e
    | none => .error .missing
  | part :: rest =>
    match w.entry? before with
    | some .directory => w.find (before ++ [part]) rest
    | some (.file _) => .error .notDirectory
    | none => .error .missing

/-- Makes the directories on the way that a path describes, where they are missing. -/
def makeDirectories (w : Workspace) (before : List String) :
    List String → Except FileError Workspace
  | [] => .ok w
  | part :: rest =>
    let here := if part = ".." then Path.above before else before ++ [part]
    match w.entry? here with
    | some .directory => w.makeDirectories here rest
    | some (.file _) => .error (if rest.isEmpty then .taken else .notDirectory)
    | none =>
      { w with entries := Entries.put w.entries (pathOf here) .directory }.makeDirectories here rest

def write (w : Workspace) (parts : List String) (text : String) : Except FileError Workspace :=
  match w.find [] parts.dropLast, w.entry? parts with
  | .error e, _ => .error e
  | .ok (.file _), _ => .error .notDirectory
  | .ok .directory, some .directory => .error .isDirectory
  | .ok .directory, _ =>
    .ok { w with entries := Entries.put w.entries (pathOf parts) (.file text) }

/-- The paths inside in order, those of directories with a slash at the end. -/
def listing (w : Workspace) : List String :=
  let paths := w.entries.map fun e =>
    match e.2 with
    | .directory => e.1 ++ "/"
    | .file _ => e.1
  (paths.filter fun path => path.toList.head? != some '/').mergeSort fun a b => decide (a ≤ b)

def update (f : Workspace → Except FileError Workspace) :
    StateM Workspace (Except FileError Unit) :=
  fun w =>
    match f w with
    | .ok w' => (.ok (), w')
    | .error e => (.error e, w)

instance : Host (StateM Workspace) where
  find path := fun w => (w.find [] (Path.parts path), w)
  write path text := update fun w => w.write (Path.parts path) text
  makeDirectories path := update fun w => w.makeDirectories [] (Path.segments path)
  input := fun w => (w.input, w)

end Workspace
end Espalier
