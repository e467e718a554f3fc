import Espalier.Store.Growth
import Espalier.Store.Insertion
import Espalier.Store.Provision

/-!
# Stores

A store is a sound schema with its plan.  Its operations act on a database; those that write do so
in a transaction, so that a failure leaves the database as it was.
-/

namespace Espalier

/-- A schema that was checked, and its plan. -/
structure Store where
  schema : Schema
  plan : Store.Plan
  sound : schema.validate = .ok ()
  planned : Store.Plan.ofSchema schema = .ok plan

namespace Store

open Database (Action)

/-- The store of a schema that is sound and has a layout. -/
def ofSchema (s : Schema) : Except Failure Store :=
  match hs : s.validate with
  | .error e => .error (.schema e)
  | .ok () =>
    match hp : Plan.ofSchema s with
    | .error e => .error (.compile e)
    | .ok plan => .ok ⟨s, plan, hs, hp⟩

def provision (s : Store) : Action Failure Unit :=
  s.plan.provision.transaction

def verify (s : Store) : Action Failure Unit :=
  s.plan.verify

def insert (s : Store) (tree : Tree) : Action Failure Int64 :=
  match s.plan.root tree with
  | .error e => throw e
  | .ok entries => (s.plan.insertTree entries).transaction

def get (s : Store) (id : Int64) : Action Failure (Entries Tree) :=
  s.plan.growTree id

def list (s : Store) (w : Window) : Action Failure Page :=
  s.plan.listPage w

end Store
end Espalier
