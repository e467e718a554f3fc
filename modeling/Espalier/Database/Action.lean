import Espalier.Database.Definition
import Espalier.Database.Reading
import Espalier.Database.Writing

/-!
# Actions on a database

An action is a run of statements that may fail.  One statement that fails leaves nothing behind, but
what the statements before it did stays done.  A transaction takes that back: when it fails, the
database is what it was before.
-/

namespace Espalier
namespace Database

/-- A run of statements with a result or a failure, and the database that it leaves. -/
abbrev Action (ε α : Type) := ExceptT ε (StateM Database) α

namespace Action

variable {ε α : Type}

def ask (f : Database → Except ε α) : Action ε α := fun db =>
  (f db, db)

def change (f : Database → Except ε (α × Database)) : Action ε α := fun db =>
  match f db with
  | .ok (a, db') => (.ok a, db')
  | .error e => (.error e, db)

/-- Says what a failure means to the caller. -/
def reporting {δ : Type} (report : δ → ε) (act : Action δ α) : Action ε α := fun db =>
  match act db with
  | (.ok a, db') => (.ok a, db')
  | (.error e, db') => (.error (report e), db')

/-- Takes back what an action did if it fails. -/
def transaction (act : Action ε α) : Action ε α := fun db =>
  match act db with
  | (.ok a, db') => (.ok a, db')
  | (.error e, _) => (.error e, db)

def result (act : Action ε α) (db : Database) : Except ε α :=
  (act db).1

def after (act : Action ε α) (db : Database) : Database :=
  (act db).2

theorem result_transaction (act : Action ε α) (db : Database) :
    act.transaction.result db = act.result db := by
  rcases h : act db with ⟨_ | _, _⟩ <;> simp [transaction, result, h]

/-- A transaction that fails leaves the database as it was. -/
theorem after_transaction_of_error {act : Action ε α} {db : Database} {e : ε}
    (h : act.result db = .error e) : act.transaction.after db = db := by
  rcases hr : act db with ⟨_ | _, _⟩ <;> simp_all [transaction, result, after]

/-! ## Statements -/

def define (d : Sql.Definition) : Action Failure Unit :=
  change fun db => (db.define d).map fun db' => ((), db')

def insert (s : Sql.Insert) (arguments : List Cell) : Action Failure Int64 :=
  change fun db => db.insert s arguments

def delete (s : Sql.Delete) (argument : Cell) : Action Failure Nat :=
  change fun db => db.delete s argument

def drop (d : Sql.DropTable) : Action Failure Unit :=
  change fun db => (db.drop d).map fun db' => ((), db')

def select (s : Sql.Select) (arguments : List Cell) : Action Failure (List (List Cell)) :=
  ask fun db => db.select s arguments

end Action
end Database
end Espalier
