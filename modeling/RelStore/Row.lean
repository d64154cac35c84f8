import RelStore.Schema.Basic
import RelStore.Store.Basic
import RelStore.Text.Blank
/-! Table rows. The row id is the key of the stored document and the other values are joined into
its text. -/
namespace RelStore

def fieldDelimiter : Char := '#'

structure Row where
  id : Value
  fields : List Value
  deriving DecidableEq

namespace Row

def values (r : Row) : List Value := r.id :: r.fields

def get? (r : Row) (position : Nat) : Option Value := r.values[position]?

/-- Positions beyond the row are left out. -/
def project (r : Row) (positions : List Nat) : List Value := positions.filterMap r.get?

def document (r : Row) : Document :=
  ⟨r.id, .blob (String.ofList (Text.joinFields fieldDelimiter (r.fields.map Value.chars)))⟩

/-- The fields of a stored row; a table of one column stores none. -/
def splitBlob (t : Table) (blob : String) : List String :=
  if t.width = 1 then []
  else (Text.splitFields fieldDelimiter blob.toList).map String.ofList

def readField (t : Table) (id : Value) (c : Column) (field : String) : Except Error Value :=
  match c.type.read? field with
  | some v => .ok v
  | none =>
    .error (.storage ("row " ++ Error.quoted id.text ++ " in table " ++ Error.quoted t.name ++
      " holds " ++ Error.quoted field ++ " in " ++ c.type.title ++ " column " ++
      Error.quoted c.name))

def ofDocument (t : Table) (d : Document) : Except Error Row :=
  match d.payload with
  | .rowIds _ =>
    .error (.storage ("document " ++ Error.quoted d.id.text ++ " in table " ++
      Error.quoted t.name ++ " is not a row"))
  | .blob blob => do
    let fields := splitBlob t blob
    if fields.length + 1 ≠ t.width then
      throw (.storage ("row " ++ Error.quoted d.id.text ++ " in table " ++ Error.quoted t.name ++
        " has " ++ toString fields.length ++ " fields, expected " ++ toString (t.width - 1)))
    let values ← (t.columns.tail.zip fields).mapM fun p => readField t d.id p.1 p.2
    return ⟨d.id, values⟩

def scan (c : Content) (db : String) (t : Table) (f : KeyFilter) : Except Error (List Row) :=
  (c.find db t.name f).mapM (ofDocument t)

end Row

end RelStore
