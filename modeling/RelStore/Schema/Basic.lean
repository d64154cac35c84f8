import RelStore.Error
import RelStore.Value.Literal
/-! Table definitions: columns with their flags, keys, and the references between tables. -/
namespace RelStore

def isNameChar (c : Char) : Bool :=
  ('a' ≤ c && c ≤ 'z') || ('A' ≤ c && c ≤ 'Z') || ('0' ≤ c && c ≤ '9') || c = '_'

def isValidName (name : String) : Bool := name ≠ "" && name.toList.all isNameChar

def checkName (name : String) : Except Error Unit :=
  if isValidName name then .ok () else .error (.invalidName name)

/-- A valid name has no point, so no table shares a name with an index. -/
def indexCollection (table column : String) : String := "index_" ++ table ++ "." ++ column

structure Column where
  name : String
  type : ColumnType
  position : Nat
  primaryKey : Bool
  unique : Bool
  indexed : Bool
  foreignKey : Bool
  /-- Whether some foreign key refers to the column. -/
  parentTable : Bool
  deriving DecidableEq

structure KeyRef where
  column : String
  ordinal : Nat
  type : ColumnType
  deriving DecidableEq

/-- On the referring table, `key` is its own column and `column` the one referred to in `table`;
on the table referred to, the same record has the roles swapped. -/
structure ForeignKey where
  key : KeyRef
  table : String
  column : KeyRef
  deriving DecidableEq

structure Table where
  name : String
  columns : List Column
  primaryKeys : List (String × Nat)
  foreignKeys : List ForeignKey
  /-- The references of other tables, and of the table itself, to its columns. -/
  childTables : List ForeignKey
  columns_ne : columns ≠ []
  deriving DecidableEq

namespace Column

/-- The values of the first column are the keys of the table's own collection. -/
def isRowId (c : Column) : Bool := c.position = 0

def keyRef (c : Column) : KeyRef := ⟨c.name, c.position, c.type⟩

def declared (name : String) (type : ColumnType) (position : Nat) : Column where
  name := name
  type := type
  position := position
  primaryKey := position = 0
  unique := position = 0
  indexed := position = 0
  foreignKey := false
  parentTable := false

def read (c : Column) (literal : String) : Except Error Value :=
  match c.type.read? literal with
  | some v => .ok v
  | none => .error (.typeMismatch c.name c.type.title literal)

end Column

namespace Table

def column (t : Table) (name : String) : Except Error Column :=
  match t.columns.find? fun c => c.name = name with
  | some c => .ok c
  | none => .error (.columnNotFound name t.name)

def rowId (t : Table) : Column := t.columns.head t.columns_ne

def width (t : Table) : Nat := t.columns.length

def secondaryIndexes (t : Table) : List Column :=
  t.columns.filter fun c => c.indexed && !c.isRowId

def mapColumns (t : Table) (f : Column → Column) : Table :=
  { t with columns := t.columns.map f, columns_ne := by simp [t.columns_ne] }

def updateColumn (t : Table) (name : String) (f : Column → Column) : Table :=
  t.mapColumns fun c => if c.name = name then f c else c

/-- Checks the names one after another and numbers the columns. -/
def declareColumns (table : String) (seen : List String) :
    List (String × ColumnType) → Except Error (List Column)
  | [] => .ok []
  | (name, type) :: rest => do
    checkName name
    if name ∈ seen then throw (.duplicateColumn name table)
    let columns ← declareColumns table (seen ++ [name]) rest
    return .declared name type seen.length :: columns

/-- A new table; its first column becomes the primary key. -/
def declare (name : String) (columns : List (String × ColumnType)) : Except Error Table := do
  checkName name
  match ← declareColumns name [] columns with
  | [] => throw (.emptyTable name)
  | first :: rest =>
    return ⟨name, first :: rest, [(first.name, 0)], [], [], by simp⟩

end Table

end RelStore
