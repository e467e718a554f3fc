import Espalier.Number.Word
import Espalier.Settings.Basic
import Espalier.Store.Growth

/-!
# The command line

The grammar of the command line: options, then one command with its own arguments.  A value that
starts with a dash is not taken for a value, unless it is a single dash or follows two of them.
-/

namespace Espalier
namespace Program

inductive Command where
  | create
  | insert (file : String)
  | get (id : Int64)
  | list (window : Store.Window)
  | schema
  | check

structure Arguments where
  config : Option String := none
  database : Option String := none
  schema : Option String := none
  printConfig : Bool := false
  verbose : Nat := 0
  command : Option Command := none

inductive Request where
  | run (arguments : Arguments)
  | version

def Arguments.overrides (a : Arguments) : Settings.Overrides where
  database := a.database
  schema := a.schema
  verbose := a.verbose

/-! ## Values -/

/-- A number without sign, or with a plus sign. -/
def natural? (s : String) : Option Nat :=
  LogLevel.number? s

def count? (s : String) : Option UInt64 :=
  (natural? s).bind fun n => if n < UInt64.size then some (UInt64.ofNat n) else none

def integer? (s : String) : Option Int64 :=
  match s.toList with
  | '-' :: '+' :: _ => none
  | '-' :: rest => (natural? (String.ofList rest)).bind fun n => int64? (-(n : Int))
  | _ => (natural? s).bind fun n => int64? n

def path? (s : String) : Option String :=
  if s.isEmpty then none else some s

def isOption (argument : String) : Bool :=
  match argument.toList with
  | '-' :: _ :: _ => true
  | _ => false

/-- The value of an option: what follows the equals sign, or else the next argument. -/
def value? (attached : Option String) (rest : List String) : Option (String × List String) :=
  match attached, rest with
  | some value, rest => some (value, rest)
  | none, value :: rest => if isOption value then none else some (value, rest)
  | none, [] => none

def once? {α : Type} (old : Option α) (new : α) : Option (Option α) :=
  match old with
  | none => some (some new)
  | some _ => none

def longOption (argument : String) : String × Option String :=
  let (name, value) := Dsn.splitFirst '=' (argument.toList.drop 2)
  (String.ofList name, value.map String.ofList)

/-! ## Commands -/

/-- The arguments of a command sorted out: its options with their values, and the others. -/
structure Given where
  offset : Option UInt64 := none
  limit : Option UInt64 := none
  operands : List String := []

/-- Sorts out the arguments of a command; only a list has options. -/
def given? (fuel : Nat) (isList : Bool) (g : Given) : List String → Option Given
  | [] => some g
  | argument :: rest =>
    match fuel with
    | 0 => none
    | fuel + 1 =>
      if argument = "--" then some { g with operands := g.operands ++ rest }
      else if isOption argument then do
        if !isList then failure
        let (name, attached) := longOption argument
        let (value, rest) ← value? attached rest
        let n ← count? value
        if argument.toList.take 2 ≠ ['-', '-'] then failure
        if name = "offset" then
          let offset ← once? g.offset n
          given? fuel isList { g with offset } rest
        else if name = "limit" then
          let limit ← once? g.limit n
          given? fuel isList { g with limit } rest
        else failure
      else given? fuel isList { g with operands := g.operands ++ [argument] } rest

def command? (name : String) (arguments : List String) : Option Command := do
  let g ← given? arguments.length (name = "list") {} arguments
  match name, g.operands with
  | "create", [] => return .create
  | "insert", [file] => return .insert (← path? file)
  | "get", [id] => return .get (← integer? id)
  | "list", [] => return .list ⟨g.offset.getD 0, g.limit.getD 0⟩
  | "schema", [] => return .schema
  | "check", [] => return .check
  | _, _ => none

/-! ## The whole line -/

/-- Reads a cluster of short options; `next` goes on with what is left of the line. -/
def cluster? (next : Arguments → List String → Option Request) (a : Arguments)
    (rest : List String) : List Char → Option Request
  | [] => next a rest
  | 'v' :: cs => cluster? next { a with verbose := a.verbose + 1 } rest cs
  | 'V' :: _ => some .version
  | 'c' :: cs => do
    let attached :=
      match cs with
      | [] => none
      | '=' :: value => some (String.ofList value)
      | value => some (String.ofList value)
    let (value, rest) ← value? attached rest
    let config ← once? a.config (← path? value)
    next { a with config } rest
  | _ => none

/-- Reads options up to the command; `fuel` bounds the number of arguments. -/
def options? (fuel : Nat) (a : Arguments) : List String → Option Request
  | [] => some (.run a)
  | argument :: rest =>
    match fuel with
    | 0 => none
    | fuel + 1 =>
      match argument.toList with
      | ['-', '-'] => if rest.isEmpty then some (.run a) else none
      | '-' :: '-' :: _ =>
        match longOption argument with
        | ("version", none) => some .version
        | ("verbose", none) => options? fuel { a with verbose := a.verbose + 1 } rest
        | ("print-config", none) =>
          if a.printConfig then none else options? fuel { a with printConfig := true } rest
        | ("config", attached) => do
          let (value, rest) ← value? attached rest
          let config ← once? a.config (← path? value)
          options? fuel { a with config } rest
        | ("database", attached) => do
          let (value, rest) ← value? attached rest
          let database ← once? a.database value
          options? fuel { a with database } rest
        | ("schema", attached) => do
          let (value, rest) ← value? attached rest
          let schema ← once? a.schema (← path? value)
          options? fuel { a with schema } rest
        | _ => none
      | '-' :: c :: cs => cluster? (options? fuel) a rest (c :: cs)
      | _ => do
        let command ← command? argument rest
        return .run { a with command := some command }

def request? (arguments : List String) : Option Request :=
  options? arguments.length {} arguments

end Program
end Espalier
