import Espalier.Store.Failure
import Espalier.Time.Timestamp
import Espalier.Tree

/-!
# Values in cells

A field type fixes how a scalar of a document becomes the value of a cell and how it is read back.
Writing checks the scalar against the type; reading only asks for the storage class that the type
uses, and a cell without a value is null for every type.
-/

namespace Espalier
namespace Store

/-- How the scalars of a field type are kept in cells. -/
inductive Codec where
  | text
  | datetime
  | integer
  | real
  | boolean
deriving DecidableEq

namespace Codec

def ofFieldType? : FieldType → Option Codec
  | .string => some text
  | .datetime => some datetime
  | .integer => some integer
  | .float => some real
  | .boolean => some boolean
  | .unknown _ => none

def fieldType : Codec → FieldType
  | text => .string
  | datetime => .datetime
  | integer => .integer
  | real => .float
  | boolean => .boolean

def name : Codec → String
  | text => "Text"
  | datetime => "Datetime"
  | integer => "Integer"
  | real => "Real"
  | boolean => "Boolean"

def ofField (table : String) (f : Field) : Except CompileError Codec :=
  match ofFieldType? f.type with
  | some c => .ok c
  | none => .error (.unknownType table f.name f.type.name)

def refuse (c : Codec) (column found : String) : Except Cause Database.Cell :=
  .error (.typeMismatch column c.fieldType found)

def encode (c : Codec) (column : String) (value : Tree) : Except Cause Database.Cell :=
  match c, value with
  | _, .null => .ok .null
  | text, .text s => .ok (.text s)
  | datetime, .text s =>
    if Timestamp.isTimestamp s then .ok (.text s)
    else c.refuse column s!"unparseable datetime '{s}'"
  | integer, .int n => .ok (.int n)
  | real, .int n => .ok (.int n)
  | real, .float x => .ok (.ofDouble x)
  | boolean, .bool b => .ok (.int (if b then 1 else 0))
  | _, value => c.refuse column value.kind

def decode (c : Codec) (cell : Database.Cell) : Except Cause Tree :=
  match c, cell with
  | _, .null => .ok .null
  | text, .text s => .ok (.text s)
  | datetime, .text s => .ok (.text s)
  | integer, .int n => .ok (.int n)
  | real, .real x => .ok (.float x)
  | boolean, .int n => .ok (.bool (n != 0))
  | _, _ => .error .undecodable

end Codec
end Store
end Espalier
