import Espalier.Document
import Espalier.Text.Blank

/-!
# Settings of the log

The level of the log is a text: a plain level, or directives that go into detail.  Flags on the
command line can raise the level and never lower it.
-/

namespace Espalier

open Document

inductive LogLevel where
  | off
  | error
  | warn
  | info
  | debug
  | trace
deriving DecidableEq

namespace LogLevel

def all : List LogLevel :=
  [off, error, warn, info, debug, trace]

def name : LogLevel → String
  | off => "off"
  | error => "error"
  | warn => "warn"
  | info => "info"
  | debug => "debug"
  | trace => "trace"

def number : LogLevel → Nat
  | off => 0
  | error => 1
  | warn => 2
  | info => 3
  | debug => 4
  | trace => 5

/-- The number that a text is, with a plus sign or without. -/
def number? (s : String) : Option Nat :=
  let digits :=
    match s.toList with
    | '+' :: rest => rest
    | cs => cs
  if digits.isEmpty || !digits.all Char.isDigit then none else some (Ascii.decimalValue digits)

def ofText? (s : String) : Option LogLevel :=
  match number? s with
  | some n => all.find? fun l => l.number = n
  | none => all.find? fun l => Ascii.sameName l.name s

def max (a b : LogLevel) : LogLevel :=
  if a.number ≤ b.number then b else a

def wanted? (flags : Nat) : Option LogLevel :=
  match flags with
  | 0 => none
  | 1 => some info
  | 2 => some debug
  | _ => some trace

/-- The text of a level raised to what flags ask for.  A text that is no plain level keeps its
directives, after the wanted level. -/
def raised (flags : Nat) (configured : String) : String :=
  match wanted? flags with
  | none => configured
  | some wanted =>
    let directives := Blank.trim configured
    match ofText? directives with
    | some current => (max current wanted).name
    | none => if directives.isEmpty then wanted.name else wanted.name ++ "," ++ directives

end LogLevel

inductive LogFormat where
  | text
  | json
deriving DecidableEq

def LogFormat.name : LogFormat → String
  | text => "text"
  | json => "json"

structure LogSettings where
  level : String := "warn"
  format : LogFormat := .text
deriving DecidableEq

section
variable {δ : Type} [Document δ]

def LogFormat.read? (d : δ) : Option LogFormat := do
  let name ← text? d
  [LogFormat.text, LogFormat.json].find? fun f => f.name = name

def LogSettings.read? (d : δ) : Option LogSettings := do
  let members ← members? ["level", "format"] d
  let level ← optional? ({} : LogSettings).level text? members "level"
  let format ← optional? LogFormat.text LogFormat.read? members "format"
  return { level, format }

end

def LogSettings.toTree (s : LogSettings) : Tree :=
  .map [("level", .text s.level), ("format", .text s.format.name)]

end Espalier
