import Espalier.Database.Basic

/-!
# Writing rows

What the statements do that insert one row and delete rows.  An insertion first settles what can be
told without the arguments, then the row number, then the constraints: values that must be there,
the primary key, and last the references.
-/

namespace Espalier
namespace Database

/-! ## Insertion -/

inductive Target where
  | column (index : Nat)
  | number
deriving DecidableEq

namespace Table

def target (t : Table) (name : String) : Except Failure Target :=
  match t.column? name with
  | some i => .ok (if t.numberColumn? = some i then .number else .column i)
  | none => if isNumberName name then .ok .number else .error .statement

/-- The argument for a target; what is not named gets no value.  Of several arguments a column takes
the first, the row number the last. -/
def argument (assigned : List (Target × Cell)) (target : Target) : Cell :=
  let assigned := if target = .number then assigned.reverse else assigned
  ((assigned.find? fun a => a.1 = target).map Prod.snd).getD .null

def numberFor (t : Table) (draw : Nat) (argument : Cell) : Except Failure Int64 :=
  match argument.toNumeric with
  | .null =>
    match t.nextNumber? draw with
    | some n => .ok n
    | none => .error .full
  | .int n => .ok n
  | _ => .error .mismatch

def cellsOf (t : Table) (number : Int64) (assigned : List (Target × Cell)) : List Cell :=
  t.columns.zipIdx.map fun (c, i) =>
    -- The column that is the row number shows the number that was settled on.
    if t.numberColumn? = some i then .int number
    else (Affinity.ofDeclared c.declared).apply (argument assigned (.column i))

/-- Whether every column that needs a value has one. -/
def isComplete (t : Table) (r : Row) : Bool :=
  (t.columns.zip r.cells).all fun (c, v) => !c.notNull || v != .null

/-- The failure of a row that repeats the number or the primary key of another. -/
def repeated? (t : Table) (r : Row) : Option Failure :=
  if t.hasNumber r.number then
    some (if t.numberColumn?.isSome then .primaryKey else .rowNumber)
  else
    match t.keyColumn? with
    | none => none
    | some i => if t.rows.any fun s => (s.cell i).equals (r.cell i) then some .primaryKey else none

end Table

/-- The failure of a row that breaks a constraint, in the order of the constraints. -/
def checkRow (t : Table) (parents : List (Nat × Table × ReferenceKey)) (r : Row) :
    Except Failure Unit :=
  if !t.isComplete r then .error .notNull
  else
    match t.repeated? r with
    | some f => .error f
    | none =>
      if parents.all fun (column, parent, key) =>
          r.cell column == .null || parent.hasReferenced key (r.cell column) then .ok ()
      else .error .reference

def insert (db : Database) (s : Sql.Insert) (arguments : List Cell) :
    Except Failure (Int64 × Database) := do
  -- Names are settled before any argument is looked at.
  let t ← db.table s.table
  let targets ← s.columns.mapM t.target
  let parents ← db.parents t
  let assigned := targets.zip arguments
  let number ← t.numberFor db.draw (Table.argument assigned .number)
  let row : Row := ⟨number, t.cellsOf number assigned⟩
  checkRow t parents row
  return (number, db.replace (t.add row))

/-! ## Deletion -/

def delete (db : Database) (s : Sql.Delete) (argument : Cell) :
    Except Failure (Nat × Database) := do
  let t ← db.table s.table
  let _ ← db.parents t
  let gone := t.rows.filter (t.holds s.key argument)
  -- A table that others refer to needs a key for that, even if no row goes.
  if !(db.children t).isEmpty then
    match t.referenceKey? with
    | none => throw .statement
    | some key => if gone.any (db.isReferenced t key) then throw .reference
  let left := t.rows.filter fun r => !t.holds s.key argument r
  return (gone.length, db.replace { t with rows := left })

end Database
end Espalier
