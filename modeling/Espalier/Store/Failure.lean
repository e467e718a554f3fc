import Espalier.Database.Basic
import Espalier.Schema.Layout

/-!
# Failures of a store

What can go wrong between a document and its rows.  A failure of a query names the operation, the
table, and the cause: the database, a stored value of the wrong type, or a document that does not
have the shape or the types of the schema.
-/

namespace Espalier
namespace Store

inductive Operation where
  | provision
  | verify
  | insert
  | get
  | list
deriving DecidableEq

def Operation.name : Operation → String
  | provision => "provision"
  | verify => "verify"
  | insert => "insert"
  | get => "get"
  | list => "list"

/-- The shape that the schema gives a part of a document. -/
inductive Shape where
  | mapping
  | sequence
  | mappings
deriving DecidableEq

def Shape.name : Shape → String
  | mapping => "mapping"
  | sequence => "sequence"
  | mappings => "sequence of mappings"

inductive Cause where
  | database (failure : Database.Failure)
  /-- A stored value that the column's type cannot have. -/
  | undecodable
  | typeMismatch (column : String) (expected : FieldType) (found : String)
  | shape (expected : Shape) (found : String)
deriving DecidableEq

namespace Cause

/-- Whether the cause lies in the database rather than in the document. -/
def isStored : Cause → Bool
  | database _ => true
  | undecodable => true
  | _ => false

/-- The wording of a cause that lies in the document. -/
def message? : Cause → Option String
  | typeMismatch column expected found =>
    some s!"column '{column}' expects {expected.name}, got {found}"
  | shape expected found => some s!"expected {expected.name}, got {found}"
  | _ => none

end Cause

inductive Failure where
  | schema (error : SchemaError)
  | compile (error : CompileError)
  | query (operation : Operation) (table : String) (cause : Cause)
  | notFound (table : String) (id : Int64)
  | layoutMismatch (table detail : String)
deriving DecidableEq

def Failure.message : Failure → String
  | schema e => e.message
  | compile e => e.message
  | query operation table _ => s!"{operation.name} failed on table '{table}'"
  | notFound table id => s!"no row with id {id.toInt} in table '{table}'"
  | layoutMismatch table detail => s!"table '{table}' does not match the schema: {detail}"

end Store
end Espalier
