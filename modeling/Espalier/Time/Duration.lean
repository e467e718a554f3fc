import Espalier.Text.Ascii
import Espalier.Text.Blank

/-!
# Durations in text

A duration is written as a sum of counts with units, from years down to nanoseconds: `1h 30m`.  A
year has 365.25 days and a month 30.44.  Writing uses each unit at most once, the longest first;
reading takes the units in any order, long names for them, and a decimal fraction of a count.
-/

namespace Espalier

/-- A duration, whose whole seconds fit sixty-four bits. -/
structure Duration where
  nanoseconds : Nat
  bounded : nanoseconds < UInt64.size * 1000000000
deriving DecidableEq

namespace Duration

/-- The duration of a number of nanoseconds, if it is not too long. -/
def ofNanoseconds? (n : Nat) : Option Duration :=
  if h : n < UInt64.size * 1000000000 then some ⟨n, h⟩ else none

/-- The duration of a number of seconds, for the short durations that are defaults. -/
def ofSeconds (n : UInt32) : Duration :=
  ⟨n.toNat * 1000000000, Nat.mul_lt_mul_of_pos_right
    (Nat.lt_of_lt_of_le n.toNat_lt_size (by decide)) (by decide)⟩

def zero : Duration := ofSeconds 0

def seconds (d : Duration) : Nat :=
  d.nanoseconds / 1000000000

/-- The nanoseconds beyond the whole seconds. -/
def subseconds (d : Duration) : Nat :=
  d.nanoseconds % 1000000000

def milliseconds (d : Duration) : Nat :=
  d.nanoseconds / 1000000

/-! ## Units -/

inductive TimeUnit where
  | nanosecond
  | microsecond
  | millisecond
  | second
  | minute
  | hour
  | day
  | week
  | month
  | year
deriving DecidableEq

namespace TimeUnit

def names : TimeUnit → List String
  | nanosecond => ["nanos", "nsec", "ns"]
  | microsecond => ["usec", "us", "µs"]
  | millisecond => ["millis", "msec", "ms"]
  | second => ["seconds", "second", "secs", "sec", "s"]
  | minute => ["minutes", "minute", "mins", "min", "m"]
  | hour => ["hours", "hour", "hrs", "hr", "h"]
  | day => ["days", "day", "d"]
  | week => ["weeks", "week", "wks", "wk", "w"]
  | month => ["months", "month", "M"]
  | year => ["years", "year", "yrs", "yr", "y"]

def all : List TimeUnit :=
  [nanosecond, microsecond, millisecond, second, minute, hour, day, week, month, year]

def ofName? (name : String) : Option TimeUnit :=
  all.find? fun u => u.names.contains name

def nanoseconds : TimeUnit → Nat
  | nanosecond => 1
  | microsecond => 1000
  | millisecond => 1000000
  | second => 1000000000
  | minute => 60 * 1000000000
  | hour => 3600 * 1000000000
  | day => 86400 * 1000000000
  | week => 604800 * 1000000000
  | month => 2630016 * 1000000000
  | year => 31557600 * 1000000000

/-- Whether whole counts of a unit are summed in nanoseconds rather than in seconds. -/
def isFine : TimeUnit → Bool
  | nanosecond => true
  | microsecond => true
  | millisecond => true
  | _ => false

/-- Whether fractions of a unit are summed in nanoseconds rather than in seconds. -/
def hasFineFraction : TimeUnit → Bool
  | second => true
  | minute => true
  | u => u.isFine

end TimeUnit

/-! ## Reading -/

/-- A number as it is summed up: it must fit sixty-four bits. -/
def word? (n : Nat) : Option Nat :=
  if n < UInt64.size then some n else none

def addNanoseconds? (d : Duration) (n : Nat) : Option Duration := do
  let _ ← word? (d.subseconds + n)
  ofNanoseconds? (d.nanoseconds + n)

def addSeconds? (d : Duration) (n : Nat) : Option Duration :=
  ofNanoseconds? (d.nanoseconds + n * 1000000000)

/-- Adds `count / parts` of a unit, cut off to whole nanoseconds or seconds. -/
def addUnits? (d : Duration) (fine : Bool) (u : TimeUnit) (count parts : Nat) :
    Option Duration := do
  if fine then
    let total ← word? (count * u.nanoseconds)
    d.addNanoseconds? (total / parts)
  else
    let total ← word? (count * (u.nanoseconds / 1000000000))
    d.addSeconds? (total / parts)

/-- A count with its unit as written: digits, digits after a point, and a name. -/
structure Term where
  whole : List Char
  fraction : Option (List Char)
  name : String

def isLetter (c : Char) : Bool :=
  c.isAlpha || c == 'µ'

/-- Takes digits, which blanks may part. -/
def takeDigits (cs : List Char) : List Char × List Char :=
  let inNumber (c : Char) := c.isDigit || Blank.isBlank c
  ((cs.takeWhile inNumber).filter Char.isDigit, cs.dropWhile inNumber)

def term? (cs : List Char) : Option (Term × List Char) :=
  match cs with
  | [] => none
  | c :: _ =>
    if !c.isDigit then none
    else
      let (whole, rest) := takeDigits cs
      let (fraction, rest) :=
        match rest with
        | '.' :: rest =>
          let (digits, rest) := takeDigits rest
          (some digits, rest)
        | rest => (none, rest)
      let name := String.ofList (rest.takeWhile isLetter)
      some ({ whole, fraction, name }, rest.dropWhile isLetter)

def addTerm? (d : Duration) (t : Term) : Option Duration := do
  let u ← TimeUnit.ofName? t.name
  let count ← word? (Ascii.decimalValue t.whole)
  let d ← d.addUnits? u.isFine u count 1
  match t.fraction with
  | none => return d
  | some digits =>
    -- Nothing is finer than a nanosecond, so it has no fractions, not even zero.
    if digits.isEmpty || u = .nanosecond then none
    else
      let parts ← word? (Nat.pow 10 digits.length)
      d.addUnits? u.hasFineFraction u (Ascii.decimalValue digits) parts

/-- Adds the terms of a text; `fuel` bounds their number. -/
def addTerms? : (fuel : Nat) → Duration → List Char → Option Duration
  | 0, _, _ => none
  | fuel + 1, d, cs => do
    let (t, rest) ← term? (cs.dropWhile Blank.isBlank)
    let d ← d.addTerm? t
    if rest.all Blank.isBlank then return d else addTerms? fuel d rest

/-- Reads a duration; a lone zero needs no unit. -/
def ofText? (s : String) : Option Duration :=
  if s = "0" then some zero else addTerms? s.length zero s.toList

/-! ## Writing -/

/-- A count with its unit, left out if it is zero. -/
def shown (count : Nat) (name : String) : List String :=
  if count = 0 then [] else [toString count ++ name]

def shownPlural (count : Nat) (name : String) : List String :=
  shown count (if 1 < count then name ++ "s" else name)

def text (d : Duration) : String :=
  let seconds := d.seconds
  let rest := d.subseconds
  let inYear := seconds % 31557600
  let inMonth := inYear % 2630016
  let inDay := inMonth % 86400
  let parts :=
    shownPlural (seconds / 31557600) "year" ++ shownPlural (inYear / 2630016) "month" ++
      shownPlural (inMonth / 86400) "day" ++ shown (inDay / 3600) "h" ++
      shown (inDay % 3600 / 60) "m" ++ shown (inDay % 60) "s" ++
      shown (rest / 1000000) "ms" ++ shown (rest / 1000 % 1000) "us" ++ shown (rest % 1000) "ns"
  if parts.isEmpty then "0s" else String.intercalate " " parts

end Duration
end Espalier
