import Espalier.Text.Ascii
import Espalier.Text.Blank

/-!
# Datetimes in text

The texts that a datetime column takes: a strict form with an offset from universal time, and two
lenient forms without one, a date with a time and a date alone.  The lenient forms allow blanks
before a number, fewer digits, and a sign before the year.  Dates and times must exist.
-/

namespace Espalier
namespace Timestamp

/-! ## The calendar -/

/-- Whether a year has a leap day, counted back evenly to years before the first. -/
def isLeap (year : Int) : Bool :=
  year % 4 == 0 && (year % 100 != 0 || year % 400 == 0)

def daysInMonth (year : Int) (month : Nat) : Nat :=
  if month = 2 then (if isLeap year then 29 else 28)
  else if [4, 6, 9, 11].contains month then 30
  else 31

/-- The years that dates may have. -/
def hasYear (year : Int) : Bool :=
  -262143 ≤ year && year ≤ 262142

def isDate (year : Int) (month day : Nat) : Bool :=
  hasYear year && 1 ≤ month && month ≤ 12 && 1 ≤ day && day ≤ daysInMonth year month

/-- Whether there is such a time of day; a minute may have a leap second. -/
def isTime (hour minute second : Nat) : Bool :=
  hour ≤ 23 && minute ≤ 59 && second ≤ 60

/-! ## Scanning -/

abbrev Scan := StateT (List Char) Option

def oneOf (cs : List Char) : Scan Char
  | d :: rest => if cs.contains d then some (d, rest) else none
  | [] => none

def exactly (c : Char) : Scan Unit := do
  let _ ← oneOf [c]

/-- Takes as many digits as there are, up to a bound, and at least a given count. -/
def number (least most : Nat) : Scan Nat := fun cs =>
  let ds := (cs.take most).takeWhile Char.isDigit
  if ds.length < least then none else some (Ascii.decimalValue ds, cs.drop ds.length)

/-- Takes the digits of a number of any length. -/
def anyNumber : Scan Nat := fun cs =>
  number 1 cs.length cs

def skipBlanks : Scan Unit := fun cs =>
  some ((), cs.dropWhile Blank.isBlank)

def fraction : Scan Unit := fun cs =>
  match cs with
  | '.' :: rest => (anyNumber rest).map fun r => ((), r.2)
  | cs => some ((), cs)

/-- Whether a scan takes a text as a whole. -/
def takesAll {α : Type} (scan : Scan α) (s : String) : Bool :=
  match scan s.toList with
  | some (_, []) => true
  | _ => false

def require (condition : Bool) : Scan Unit := fun cs =>
  if condition then some ((), cs) else none

/-! ## The strict form -/

/-- The offset from universal time: none, or hours and minutes with a sign, also the
typographic minus. -/
def offset : Scan Unit := do
  let sign ← oneOf ['Z', 'z', '+', '-', '\u2212']
  if sign = 'Z' ∨ sign = 'z' then return
  let hours ← number 2 2
  exactly ':'
  let minutes ← number 2 2
  require (hours ≤ 23 && minutes ≤ 59)

/-- A date and a time with all their digits and an offset. -/
def strict : Scan Unit := do
  let year ← number 4 4
  exactly '-'
  let month ← number 2 2
  exactly '-'
  let day ← number 2 2
  let _ ← oneOf ['T', 't', ' ']
  let hour ← number 2 2
  exactly ':'
  let minute ← number 2 2
  exactly ':'
  let second ← number 2 2
  fraction
  offset
  require (isDate year month day && isTime hour minute second)

/-! ## The lenient forms -/

def looseNumber : Scan Nat := do
  skipBlanks
  number 1 2

/-- A year of up to four digits, or of any length after a sign. -/
def looseYear : Scan Int := do
  skipBlanks
  fun cs =>
    match cs with
    | '-' :: rest => (anyNumber rest).map fun r => (-(r.1 : Int), r.2)
    | '+' :: rest => (anyNumber rest).map fun r => ((r.1 : Int), r.2)
    | cs => (number 1 4 cs).map fun r => ((r.1 : Int), r.2)

def looseDate : Scan Unit := do
  let year ← looseYear
  exactly '-'
  let month ← looseNumber
  exactly '-'
  let day ← looseNumber
  require (isDate year month day)

def looseDateTime : Scan Unit := do
  looseDate
  exactly 'T'
  let hour ← looseNumber
  exactly ':'
  let minute ← looseNumber
  exactly ':'
  let second ← looseNumber
  fraction
  require (isTime hour minute second)

/-- Whether a text is a datetime in one of the three forms. -/
def isTimestamp (s : String) : Bool :=
  takesAll strict s || takesAll looseDateTime s || takesAll looseDate s

end Timestamp
end Espalier
