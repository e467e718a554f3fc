import Espalier.Document
import Espalier.Settings.Pragma
import Espalier.Time.Duration

/-!
# Settings of a database

Where a database is and how connections to it are made and pooled.  Every member has a default and
no others are known; durations are written as text.
-/

namespace Espalier

open Document

/-- How connections are pooled; what is absent is left to the pool. -/
structure PoolSettings where
  maxConnections : Option UInt32 := none
  minConnections : Option UInt32 := none
  acquireTimeout : Option Duration := none
  idleTimeout : Option Duration := none
  maxLifetime : Option Duration := none
  testBeforeAcquire : Bool := false
deriving DecidableEq

structure DatabaseSettings where
  dsn : String := "sqlite::memory:"
  createIfMissing : Bool := true
  foreignKeys : Bool := true
  busyTimeout : Duration := Duration.ofSeconds 5
  journalMode : Option JournalMode := none
  synchronous : Option Synchronous := none
  pool : PoolSettings := {}
deriving DecidableEq

/-- The limits of a pool with the defaults that do not depend on the database. -/
def PoolSettings.limits (p : PoolSettings) : PoolSettings :=
  { p with
    maxConnections := p.maxConnections <|> some 10
    acquireTimeout := p.acquireTimeout <|> some (Duration.ofSeconds 30) }

/-- The journal mode that a connection asks for: a file gets a write-ahead log unless another mode
is set. -/
def DatabaseSettings.effectiveJournalMode (s : DatabaseSettings) (inMemory : Bool) :
    Option JournalMode :=
  s.journalMode <|> if inMemory then none else some .wal

/-! ## Reading -/

section
variable {δ : Type} [Document δ]

def Duration.read? (d : δ) : Option Duration :=
  (text? d).bind Duration.ofText?

def JournalMode.read? (d : δ) : Option JournalMode :=
  (text? d).bind fun name => (JournalMode.ofName name).toOption

def Synchronous.read? (d : δ) : Option Synchronous :=
  (text? d).bind fun name => (Synchronous.ofName name).toOption

def PoolSettings.read? (d : δ) : Option PoolSettings := do
  let members ← members? ["max_conns", "min_conns", "acquire_timeout", "idle_timeout",
    "max_lifetime", "test_before_acquire"] d
  let maxConnections ← optional? none (nullable? count?) members "max_conns"
  let minConnections ← optional? none (nullable? count?) members "min_conns"
  let acquireTimeout ← optional? none (nullable? Duration.read?) members "acquire_timeout"
  let idleTimeout ← optional? none (nullable? Duration.read?) members "idle_timeout"
  let maxLifetime ← optional? none (nullable? Duration.read?) members "max_lifetime"
  let testBeforeAcquire ← optional? false flag? members "test_before_acquire"
  return { maxConnections, minConnections, acquireTimeout, idleTimeout, maxLifetime,
           testBeforeAcquire }

def DatabaseSettings.read? (d : δ) : Option DatabaseSettings := do
  let members ← members? ["dsn", "create_if_missing", "foreign_keys", "busy_timeout",
    "journal_mode", "synchronous", "pool"] d
  let dsn ← optional? ({} : DatabaseSettings).dsn text? members "dsn"
  let createIfMissing ← optional? true flag? members "create_if_missing"
  let foreignKeys ← optional? true flag? members "foreign_keys"
  let busyTimeout ←
    optional? ({} : DatabaseSettings).busyTimeout Duration.read? members "busy_timeout"
  let journalMode ← optional? none (nullable? JournalMode.read?) members "journal_mode"
  let synchronous ← optional? none (nullable? Synchronous.read?) members "synchronous"
  let pool ← optional? {} PoolSettings.read? members "pool"
  return { dsn, createIfMissing, foreignKeys, busyTimeout, journalMode, synchronous, pool }

end

/-! ## Writing -/

/-- The tree of a value that may be absent. -/
def Tree.ofOption {α : Type} (tree : α → Tree) : Option α → Tree
  | none => .null
  | some a => tree a

def Tree.ofCount (n : UInt32) : Tree :=
  .int (Int64.ofNat n.toNat)

def Tree.ofDuration (d : Duration) : Tree :=
  .text d.text

def PoolSettings.toTree (p : PoolSettings) : Tree :=
  .map
    [("max_conns", .ofOption .ofCount p.maxConnections),
      ("min_conns", .ofOption .ofCount p.minConnections),
      ("acquire_timeout", .ofOption .ofDuration p.acquireTimeout),
      ("idle_timeout", .ofOption .ofDuration p.idleTimeout),
      ("max_lifetime", .ofOption .ofDuration p.maxLifetime),
      ("test_before_acquire", .bool p.testBeforeAcquire)]

/-- The tree of the settings; a journal mode or a level that is not set is left out. -/
def DatabaseSettings.toTree (s : DatabaseSettings) : Tree :=
  .map
    ([("dsn", .text s.dsn), ("create_if_missing", .bool s.createIfMissing),
        ("foreign_keys", .bool s.foreignKeys), ("busy_timeout", .ofDuration s.busyTimeout)] ++
      (s.journalMode.toList.map fun m => ("journal_mode", .text m.name)) ++
      (s.synchronous.toList.map fun m => ("synchronous", .text m.name)) ++
      [("pool", s.pool.toTree)])

end Espalier
