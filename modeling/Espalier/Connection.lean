import Espalier.Database.Image
import Espalier.Host
import Espalier.Settings.Database
import Espalier.Settings.Dsn

/-!
# Connections

A connection is a database that was opened by its settings, with the settings in force.  Looks alone
decide how the pool of a database in memory is pinned; what is opened goes by the parts of the data
source name.
-/

namespace Espalier

inductive ConnectError where
  | unknownDsn (dsn : String)
  | files (error : FileError)
  /-- The driver cannot open what the name says. -/
  | driver
deriving DecidableEq

def ConnectError.unknownMessage (dsn : String) : String :=
  s!"Unsupported DSN (expected a sqlite: URL): {dsn}"

structure Pool where
  maxConnections : UInt32
  minConnections : UInt32
  acquireTimeout : Duration
  idleTimeout : Option Duration
  maxLifetime : Option Duration
  testBeforeAcquire : Bool
deriving DecidableEq

/-- The pool for settings.  A database in memory lives as long as its one connection, so that
connection is kept for ever. -/
def Pool.ofSettings (p : PoolSettings) (inMemory : Bool) : Pool :=
  let limits := p.limits
  let acquireTimeout := limits.acquireTimeout.getD (Duration.ofSeconds 30)
  if inMemory then
    { maxConnections := 1, minConnections := 1, acquireTimeout, idleTimeout := none,
      maxLifetime := none, testBeforeAcquire := p.testBeforeAcquire }
  else
    { maxConnections := limits.maxConnections.getD 10
      minConnections := limits.minConnections.getD 0
      acquireTimeout
      idleTimeout := limits.idleTimeout <|> some (Duration.ofSeconds 600)
      maxLifetime := limits.maxLifetime <|> some (Duration.ofSeconds 1800)
      testBeforeAcquire := p.testBeforeAcquire }

structure Connection where
  dsn : String
  /-- Whether the database is taken for one in memory. -/
  inMemory : Bool
  location : Dsn.Location
  journalMode : JournalMode
  synchronous : Synchronous
  busyMilliseconds : Nat
  pool : Pool
  database : Database

namespace Connection

/-- The journal mode in force: a database in memory has no log, and a write-ahead log needs a file
under a layer that has them. -/
def journalModeAt (wanted : Option JournalMode) : Dsn.Location → JournalMode
  | .memory => if wanted = some .off then .off else .memory
  | .held => if wanted = some .wal then .memory else wanted.getD .memory
  | .temporary => if wanted = some .wal then .delete else wanted.getD .delete
  | .unlogged _ => if wanted = some .wal then .delete else wanted.getD .delete
  | .file _ => wanted.getD .delete

def journalName (c : Connection) : String :=
  Ascii.fold c.journalMode.name

/-- The greatest time to wait for a lock, in milliseconds: the greatest integer of thirty-two bits
with a sign. -/
def busyLimit : Nat := 2147483647

section
variable {m : Type → Type} [Monad m] [Host m]

/-- Reads the database of a file, which comes into being if it may.  Whether it was left with a
write-ahead log is not kept in the file. -/
def openFile (path : String) (create readOnly logged : Bool) (s : DatabaseSettings) :
    m (Except ConnectError Database) := do
  match ← Host.find path with
  | .ok (.file text) =>
    match Database.ofImage? s.foreignKeys text with
    | none => return .error .driver
    | some db =>
      -- Asking for a write-ahead log writes to a new file, and here nothing may be written.
      if readOnly && text.isEmpty && logged then return .error .driver
      else return .ok db
  | .error .missing =>
    if create && !readOnly then
      match ← Host.write path "" with
      | .ok () => return .ok { checked := s.foreignKeys }
      | .error _ => return .error .driver
    else return .error .driver
  | _ => return .error .driver

def openAt (location : Dsn.Location) (create readOnly : Bool) (s : DatabaseSettings)
    (wanted : Option JournalMode) : m (Except ConnectError Database) :=
  match location with
  | .file path => openFile path create readOnly (wanted = some .wal) s
  | .unlogged path => openFile path create readOnly false s
  | _ => return .ok { checked := s.foreignKeys }

def open? (s : DatabaseSettings) : m (Except ConnectError Connection) := do
  let dsn := Blank.trim s.dsn
  if !Dsn.isKnown dsn then return .error (.unknownDsn s.dsn)
  match Dsn.target? dsn with
  | none => return .error .driver
  | some target =>
    let inMemory := Dsn.isMemory s.dsn
    let parent := Path.parent target.path
    -- Directories are made before it is known whether the database can be opened.
    let made ←
      if !inMemory && s.createIfMissing && parent ≠ "" then Host.makeDirectories parent
      else pure (.ok ())
    match made, target.location? with
    | .error e, _ => return .error (.files e)
    | _, none => return .error .driver
    | .ok (), some location =>
      let pool := Pool.ofSettings s.pool inMemory
      let busyMilliseconds := s.busyTimeout.milliseconds
      -- A pool without connections, or one that may not wait, never hands one out.
      if pool.maxConnections = 0 || pool.acquireTimeout = Duration.zero ||
          busyLimit < busyMilliseconds then
        return .error .driver
      let wanted := s.effectiveJournalMode inMemory
      match ← openAt location s.createIfMissing target.readOnly s wanted with
      | .error e => return .error e
      | .ok database =>
        return .ok
          { dsn := s.dsn, inMemory, location
            journalMode := journalModeAt wanted location
            synchronous := s.synchronous.getD .full
            busyMilliseconds, pool, database }

def keep (c : Connection) (db : Database) : m Unit :=
  match c.location with
  | .file path => discard (Host.write path db.image)
  | .unlogged path => discard (Host.write path db.image)
  | _ => pure ()

end
end Connection
end Espalier
