import Espalier.Program.Basic

/-!
# The command line program

Runs the program on the files of the machine.
-/

namespace Espalier

/-- The error of a path as the program words it. -/
def FileError.ofSystem : IO.Error → FileError
  | .noFileOrDirectory .. => .missing
  | .noSuchThing .. => .missing
  | .alreadyExists .. => .taken
  | .inappropriateType _ code _ => if code = 21 then .isDirectory else .notDirectory
  | _ => .refused

def FileError.guarded {α : Type} (act : IO α) : IO (Except FileError α) := do
  try
    return .ok (← act)
  catch e => return .error (.ofSystem e)

instance : Host IO where
  find path := do
    match ← FileError.guarded (IO.FS.readFile path) with
    | .ok text => return .ok (.file text)
    | .error .isDirectory => return .ok .directory
    | .error e => return .error e
  write path text := FileError.guarded (IO.FS.writeFile path text)
  makeDirectories path := FileError.guarded (IO.FS.createDirAll path)
  input := do (← IO.getStdin).readToEnd

def Program.Note.line : Program.Note → String
  | .text message => message
  | .database e => s!"database error {e.code}"
  | .undecodable => "a stored value has another type than the schema says"

/-- The variables of the environment, from the list that the system keeps for the process. -/
def readEnvironment : IO (List (String × String)) := do
  match ← FileError.guarded (IO.FS.readFile "/proc/self/environ") with
  | .error _ => return []
  | .ok text =>
    return (text.toList.splitOn '\x00').filterMap fun cs =>
      match Dsn.splitFirst '=' cs with
      | (name, some value) => some (String.ofList name, String.ofList value)
      | (_, none) => none

end Espalier

open Espalier

def main (arguments : List String) : IO UInt32 := do
  let environment ← readEnvironment
  let outcome ← (Program.run arguments environment : IO _)
  match outcome with
  | .success output => IO.print output
  | .refused => IO.eprintln "error: the arguments are not understood"
  | .failure notes => IO.eprintln ("Error: " ++ "\n".intercalate (notes.map Program.Note.line))
  return outcome.code.toUInt32
