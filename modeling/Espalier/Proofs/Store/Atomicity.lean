import Espalier.Proofs.Store.Run
import Espalier.Proofs.Store.Writing

/-!
# Insertions that fail leave nothing behind

Whatever the database is, an insertion that fails leaves it as it was, rows, indexes and counters,
so no later step can tell that it was tried.  Its failure is that of the first row that a check or
the database refuses, and it names the table of that row.
-/

namespace Espalier
namespace Store

open Database (Action)

/-- A failed insertion gives back the very database that it started from. -/
theorem after_insert_of_error {s : Store} {tree : Tree} {db : Database} {f : Failure}
    (h : (s.insert tree).result db = .error f) : (s.insert tree).after db = db := by
  unfold Store.insert at h ⊢
  cases hroot : s.plan.root tree with
  | error e => rfl
  | ok entries =>
    rw [hroot] at h
    exact Action.after_transaction_of_error ((Action.result_transaction _ db).symm.trans h)

/--
An insertion that fails in a database of any kind leaves it as it was, and its failure is that of
the first row in the order of writing that is refused; a run goes on as if it had not been tried.
-/
theorem insert_error (s : Store) (db : Database) (tree : Tree) (f : Failure)
    (h : (s.insert tree).result db = .error f) :
    (s.insert tree).after db = db ∧
      (∃ done w rest p cause, s.plan.writings tree = done ++ w :: rest ∧
        Written ⟨none, db⟩ done p ∧ w.write p = .error cause ∧
        f = .query .insert w.table.name cause) ∧
      ∀ later, s.run db (.insert tree :: later) =
        (.inserted (.error f) :: (s.run db later).1, (s.run db later).2) := by
  have hafter := after_insert_of_error h
  refine ⟨hafter, (s.run_insert tree db).2 f h, ?_⟩
  intro later
  -- The step answers the failure and stays where it was.
  have hstep : s.step db (.insert tree) = (.inserted (.error f), db) := by
    rw [step, h, hafter]
  rw [run, hstep]

/-- A plant whose second tag is a number: the plant and its first tag are taken back, and the next
plant gets the first id. -/
theorem insert_error_plants :
    (plants.run (plants.provision.after {})
      [.insert (.map [("tags", .seq [.text "green", .int 2])]), .insert (.map [])]).1 =
      [.inserted (.error (.query .insert "tags" (.typeMismatch "label" .string "integer"))),
        .inserted (.ok 1)] := by
  have hfirst : (plants.insert (.map [("tags", .seq [.text "green", .int 2])])).result
      (plants.provision.after {}) =
      .error (.query .insert "tags" (.typeMismatch "label" .string "integer")) := by
    decide +kernel
  have hnext : (plants.insert (.map [])).result (plants.provision.after {}) = .ok 1 := by
    decide +kernel
  rcases insert_error plants (plants.provision.after {}) _ _ hfirst with ⟨-, -, hlater⟩
  rw [hlater, run, step, hnext]
  rfl

end Store
end Espalier
