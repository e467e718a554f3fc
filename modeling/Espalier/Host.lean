/-!
# The host of the program

What the program asks of the files around it, as operations of a monad: it runs on the files of the
machine, and as well on a workspace, which is files as a value.
-/

namespace Espalier

inductive FileError where
  | missing
  | taken
  | notDirectory
  | isDirectory
  | refused
deriving DecidableEq

def FileError.message : FileError → String
  | missing => "No such file or directory (os error 2)"
  | taken => "File exists (os error 17)"
  | notDirectory => "Not a directory (os error 20)"
  | isDirectory => "Is a directory (os error 21)"
  | refused => "Permission denied (os error 13)"

inductive FileEntry where
  | directory
  | file (text : String)
deriving DecidableEq

class Host (m : Type → Type) where
  find : String → m (Except FileError FileEntry)
  write : String → String → m (Except FileError Unit)
  /-- Makes a directory and those above it. -/
  makeDirectories : String → m (Except FileError Unit)
  /-- All of standard input. -/
  input : m String

namespace Host

variable {m : Type → Type} [Monad m] [Host m]

def isFile (path : String) : m Bool := do
  match ← find path with
  | .ok (.file _) => return true
  | _ => return false

def read (path : String) : m (Except FileError String) := do
  match ← find path with
  | .ok (.file text) => return .ok text
  | .ok .directory => return .error .isDirectory
  | .error e => return .error e

end Host

namespace Path

def root : String := "/"

/-- The parts of a path as they are written; a point as a part means nothing. -/
def segments (path : String) : List String :=
  let start := if path.toList.head? = some '/' then [root] else []
  let written := (path.toList.splitOn '/').map String.ofList
  start ++ written.filter fun part => part ≠ "" && part ≠ "."

/-- The parts of the directory above; there is none above the root. -/
def above (parts : List String) : List String :=
  if parts = [root] then parts else parts.dropLast

/-- The parts of a path where two points as a part take the part before away. -/
def parts (path : String) : List String :=
  (segments path).foldl (fun before part =>
    if part = ".." then above before else before ++ [part]) []

def parent (path : String) : String :=
  let before := (path.toList.reverse.dropWhile (· == '/')).dropWhile (· != '/')
  let trimmed := (before.dropWhile (· == '/')).reverse
  if trimmed.isEmpty && !before.isEmpty then "/" else String.ofList trimmed

/-- The characters after the last point of the last part, if there is something before it. -/
def extension? (path : String) : Option String :=
  let name := ((path.toList.reverse.dropWhile (· == '/')).takeWhile (· != '/'))
  match name.dropWhile (· != '.') with
  | '.' :: _ :: _ =>
    if name = ['.', '.'] then none else some (String.ofList (name.takeWhile (· != '.')).reverse)
  | _ => none

end Path
end Espalier
