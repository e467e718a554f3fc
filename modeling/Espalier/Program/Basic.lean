import Espalier.Connection
import Espalier.Program.Arguments
import Espalier.Schema.Document
import Espalier.Store.Basic

/-!
# The program

The program reads its command line and its settings, loads the schema, opens the database, and
carries out one command on it.  It answers with a text, or with a chain of notes on what went wrong,
the outermost first.
-/

namespace Espalier
namespace Program

open Database (Action)

inductive Note where
  | text (message : String)
  | database (failure : Database.Failure)
  | undecodable

inductive Outcome where
  | success (output : String)
  | refused
  | failure (notes : List Note)

def Outcome.code : Outcome → UInt8
  | success _ => 0
  | refused => 2
  | failure _ => 1

def versionLine : String := "common-sense 0.1.0\n"

/-- A part of a run: it answers or leaves notes. -/
abbrev Run (m : Type → Type) (α : Type) := ExceptT (List Note) m α

def storeNotes (f : Store.Failure) : List Note :=
  .text f.message ::
    match f with
    | .query _ _ (.database e) => [.database e]
    | .query _ _ .undecodable => [.undecodable]
    | .query _ _ cause => cause.message?.toList.map .text
    | _ => []

def connectNotes : ConnectError → List Note
  | .unknownDsn dsn => [.text (ConnectError.unknownMessage dsn)]
  | .files e => [.text e.message]
  | .driver => [.database .statement]

def isJson (path : String) : Bool :=
  match Path.extension? path with
  | some name => Ascii.sameName name "json"
  | none => false

section
variable {m : Type → Type} [Monad m] [Host m]

def failWith {α : Type} (message : String) (below : List Note) : Run m α :=
  throw (.text message :: below)

def loadSchema (s : Settings) : Run m Schema := do
  match s.schema with
  | none =>
    failWith "no schema given: pass --schema or set \x60schema\x60 in the config file" []
  | some path =>
    match ← (Host.read path : m _) with
    | .error e => failWith s!"failed to read schema {path}" [.text e.message]
    | .ok text =>
      let (format, loaded) :=
        if isJson path then ("JSON", Schema.loadJson text) else ("YAML", Schema.loadYaml text)
      match loaded with
      | .ok schema => return schema
      | .error .malformed =>
        failWith s!"invalid schema {path}" [.text s!"failed to parse {format} schema"]
      | .error (.invalid e) => failWith s!"invalid schema {path}" [.text e.message]

/-- Loads the document that a command names; a dash is standard input. -/
def loadDocument (file : String) : Run m Tree := do
  let text ←
    if file = "-" then (Host.input : m _)
    else
      match ← (Host.read file : m _) with
      | .ok text => pure text
      | .error e => failWith s!"failed to read {file}" [.text e.message]
  if isJson file then
    match Tree.ofJsonText? text with
    | some t => return t
    | none => failWith s!"invalid JSON in {file}" []
  else
    match Tree.ofYamlText? text with
    | some t => return t
    | none => failWith s!"invalid YAML in {file}" []

structure Session where
  connection : Connection
  store : Store

def openStore (s : Settings) (schema : Schema) : Run m Session := do
  match ← (Connection.open? s.database : m _) with
  | .error e => failWith s!"failed to open database {s.database.dsn}" (connectNotes e)
  | .ok connection =>
    match Store.ofSchema schema with
    | .ok store => return { connection, store }
    | .error e => throw (storeNotes e)

/-- Carries out an action and keeps what it leaves. -/
def Session.perform {α : Type} (s : Session) (message : String)
    (act : Action Store.Failure α) : Run m α := do
  match act.result s.connection.database with
  | .error e => failWith message (storeNotes e)
  | .ok a =>
    let db := act.after s.connection.database
    -- Reading leaves the file alone.
    if db ≠ s.connection.database then (s.connection.keep db : m _)
    return a

def schemaText (schema : Schema) : Run m String := do
  match schema.compile with
  | .error e => failWith e.message []
  | .ok tables =>
    return String.join (tables.flatMap fun t => t.2.map fun d => d.text ++ ";\n")

def pageHeading (p : Store.Page) : String :=
  if p.items.isEmpty then s!"No objects at offset {p.offset.toNat}"
  else
    let last := min (p.offset.toNat + p.count) (UInt64.size - 1) - 1
    s!"Listing objects {p.offset.toNat}-{last}"

def Session.command (s : Session) : Command → Run m String
  | .create => do
    s.perform "failed to create tables" s.store.provision
    return "DB created\n"
  | .insert file => do
    let tree ← loadDocument file
    let id ← s.perform s!"failed to insert {file}" (s.store.insert tree)
    return s!"Data inserted with id {id.toInt}\n"
  | .get id => do
    let entries ← s.perform s!"failed to get object {id.toInt}" (s.store.get id)
    return (Json.ofTree (.map entries)).indented ++ "\n"
  | .list window => do
    let page ← s.perform "failed to list objects" (s.store.list window)
    return pageHeading page ++ "\n" ++ page.toJson.indented ++ "\n"
  | .check => do
    s.perform "database layout does not match the schema" s.store.verify
    return "Layout matches schema\n"
  | .schema => schemaText s.store.schema

def loadSettings (a : Arguments) (environment : List (String × String)) : Run m Settings := do
  let file ←
    match a.config with
    | none => pure none
    | some path =>
      match ← (Host.read path : m _) with
      | .ok text => pure (some text)
      | .error _ => failWith s!"config file does not exist: {path}" []
  match Settings.load? file environment with
  | some s => return s.overridden a.overrides
  | none => failWith "failed to load configuration" []

def perform (a : Arguments) (environment : List (String × String)) : Run m String := do
  let settings ← loadSettings a environment
  if a.printConfig then return settings.yamlText ++ "\n"
  match a.command with
  | none => failWith "no command given, see --help" []
  | some command => do
    let schema ← loadSchema settings
    match command with
    -- The definitions are printed without opening the database.
    | .schema => schemaText schema
    | command => do
      let session ← openStore settings schema
      session.command command

def run (arguments : List String) (environment : List (String × String)) : m Outcome := do
  match request? arguments with
  | none => return .refused
  | some .version => return .success versionLine
  | some (.run a) =>
    match ← (perform a environment).run with
    | .ok output => return .success output
    | .error notes => return .failure notes

end
end Program
end Espalier
