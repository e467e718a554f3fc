import Espalier.Store.Basic

/-!
# Runs of a store

A run is a sequence of the operations of a store, mixed with deletions of rows by their id, which
are left to the users of the database.  It answers every step and leads to a database.
-/

namespace Espalier
namespace Store

open Database (Action)

/-- An operation of a store, or the deletion of the rows of a table that have an id. -/
inductive Step where
  | provision
  | verify
  | insert (tree : Tree)
  | get (id : Int64)
  | list (w : Window)
  | delete (table : String) (id : Int64)

inductive Answer where
  | done (result : Except Failure Unit)
  | inserted (result : Except Failure Int64)
  | grown (result : Except Failure (Entries Tree))
  | listed (result : Except Failure Page)
  | deleted (result : Except Database.Failure Nat)

/-- Deletes the rows of a table that have an id. -/
def deleteRows (table : String) (id : Int64) : Action Database.Failure Nat :=
  Action.delete ⟨table, idColumn⟩ (.int id)

/-- Takes a step: its answer and the database after it. -/
def step (s : Store) (db : Database) : Step → Answer × Database
  | .provision => (.done (s.provision.result db), s.provision.after db)
  | .verify => (.done (s.verify.result db), s.verify.after db)
  | .insert tree => (.inserted ((s.insert tree).result db), (s.insert tree).after db)
  | .get id => (.grown ((s.get id).result db), (s.get id).after db)
  | .list w => (.listed ((s.list w).result db), (s.list w).after db)
  | .delete table id =>
    (.deleted ((deleteRows table id).result db), (deleteRows table id).after db)

def run (s : Store) (db : Database) : List Step → List Answer × Database
  | [] => ([], db)
  | a :: rest =>
    let (answer, db') := s.step db a
    let (answers, db'') := s.run db' rest
    (answer :: answers, db'')

def reached (s : Store) (db : Database) (steps : List Step) : Database :=
  (s.run db steps).2

/-! ## Documents put in -/

/-- The document that a step has put in, with its id, as the answer tells. -/
def Step.inserted? : Step → Answer → Option (Int64 × Tree)
  | .insert tree, .inserted (.ok id) => some (id, tree)
  | _, _ => none

/-- The documents that a run puts in, with their ids. -/
def inserted (s : Store) (db : Database) : List Step → List (Int64 × Tree)
  | [] => []
  | a :: rest => (a.inserted? (s.step db a).1).toList ++ s.inserted (s.step db a).2 rest

/-- Whether a step takes rows away. -/
def Step.deletes : Step → Bool
  | .delete _ _ => true
  | _ => false

/-! ## Runs in parts -/

/-- A longer run goes on where the shorter one ends. -/
theorem reached_append (s : Store) (db : Database) (before later : List Step) :
    s.reached db (before ++ later) = s.reached (s.reached db before) later := by
  induction before generalizing db with
  | nil => rfl
  | cons a before ih => exact ih (s.step db a).2

theorem reached_concat (s : Store) (db : Database) (steps : List Step) (a : Step) :
    s.reached db (steps ++ [a]) = (s.step (s.reached db steps) a).2 :=
  s.reached_append db steps [a]

/-- A further step adds at most its own document to those inserted. -/
theorem inserted_concat (s : Store) (db : Database) (steps : List Step) (a : Step) :
    s.inserted db (steps ++ [a]) =
      s.inserted db steps ++ (a.inserted? (s.step (s.reached db steps) a).1).toList := by
  induction steps generalizing db with
  | nil => exact List.append_nil _
  | cons b steps ih =>
    have hrest := ih (s.step db b).2
    rw [List.cons_append, inserted, hrest, inserted, List.append_assoc]
    rfl

end Store
end Espalier
