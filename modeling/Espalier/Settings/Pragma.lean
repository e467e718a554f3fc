import Espalier.Text.Ascii

/-!
# Settings with a fixed choice

The journal modes and the levels of synchronisation that a connection can ask for.  They are read in
any case of letters and written in capitals.
-/

namespace Espalier

/-- A name that is not among the choices of a setting. -/
structure PragmaError where
  key : String
  choices : List String
  given : String
deriving DecidableEq

namespace PragmaError

def detail (e : PragmaError) : String :=
  let choices := String.intercalate "/" e.choices
  s!"must be one of {choices}, got '{e.given}'"

def message (e : PragmaError) : String :=
  s!"Invalid SQLite PRAGMA parameter '{e.key}': {e.detail}"

end PragmaError

/-- How a connection keeps the journal of a transaction. -/
inductive JournalMode where
  | delete
  | truncate
  | persist
  | memory
  | wal
  | off
deriving DecidableEq

namespace JournalMode

def all : List JournalMode :=
  [delete, truncate, persist, memory, wal, off]

def name : JournalMode → String
  | delete => "DELETE"
  | truncate => "TRUNCATE"
  | persist => "PERSIST"
  | memory => "MEMORY"
  | wal => "WAL"
  | off => "OFF"

def ofName (name : String) : Except PragmaError JournalMode :=
  match all.find? fun m => m.name = Ascii.raise name with
  | some m => .ok m
  | none => .error ⟨"journal_mode", all.map JournalMode.name, name⟩

end JournalMode

inductive Synchronous where
  | off
  | normal
  | full
  | extra
deriving DecidableEq

namespace Synchronous

def all : List Synchronous :=
  [off, normal, full, extra]

def name : Synchronous → String
  | off => "OFF"
  | normal => "NORMAL"
  | full => "FULL"
  | extra => "EXTRA"

def code : Synchronous → Nat
  | off => 0
  | normal => 1
  | full => 2
  | extra => 3

def ofName (name : String) : Except PragmaError Synchronous :=
  match all.find? fun m => m.name = Ascii.raise name with
  | some m => .ok m
  | none => .error ⟨"synchronous", all.map Synchronous.name, name⟩

end Synchronous
end Espalier
