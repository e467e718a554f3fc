import Espalier.Settings.Database
import Espalier.Settings.Dsn
import Espalier.Settings.Layer
import Espalier.Settings.Logging
import Espalier.Yaml.Printer

/-!
# Settings of the program

The settings of the program are those of its database, the path of its schema, and those of its log.
They are laid over their defaults, first from a file and then from the environment; the command line
has the last word.
-/

namespace Espalier

open Document

structure Settings where
  database : DatabaseSettings := {}
  schema : Option String := none
  logging : LogSettings := {}
deriving DecidableEq

namespace Settings

/-- What the names of variables that are settings start with. -/
def variableStart : String := "COMMON_SENSE__"

def read? {δ : Type} [Document δ] (d : δ) : Option Settings := do
  let members ← members? ["database", "schema", "logging"] d
  let database ← optional? {} DatabaseSettings.read? members "database"
  let schema ← optional? none (nullable? text?) members "schema"
  let logging ← optional? {} LogSettings.read? members "logging"
  return { database, schema, logging }

/-- The entries of the settings; a schema that is not set is left out. -/
def toEntries (s : Settings) : Entries Tree :=
  [("database", s.database.toTree)] ++ (s.schema.toList.map fun path => ("schema", .text path)) ++
    [("logging", s.logging.toTree)]

def yamlText (s : Settings) : String :=
  s.toEntries.yamlText

/-- The settings from a file, if there is one, and from the environment. -/
def load? (file : Option String) (environment : List (String × String)) : Option Settings := do
  let fileLayer ←
    match file with
    | none => some (Tree.map [])
    | some text => Layer.ofYaml? text
  let defaults : Settings := {}
  let base := (Tree.map defaults.toEntries).overlaid fileLayer
  read? (base.overlaid (Layer.ofEnvironment variableStart environment))

structure Overrides where
  database : Option String := none
  schema : Option String := none
  verbose : Nat := 0

def overridden (s : Settings) (o : Overrides) : Settings where
  database := { s.database with dsn := (o.database.map Dsn.ofArgument).getD s.database.dsn }
  schema := o.schema <|> s.schema
  logging := { s.logging with level := LogLevel.raised o.verbose s.logging.level }

end Settings
end Espalier
