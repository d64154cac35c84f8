import RelStore.Json.Decode
import RelStore.Json.Print
import RelStore.Json.Read
import RelStore.Schema.Basic
/-! A table definition as the text of its catalog file: a JSON array with a record of the keys and
then one record a column. A record is told apart by its fields, the keys first. -/
namespace RelStore

structure KeysRecord where
  primaryKeys : List (String × Nat)
  foreignKeys : List ForeignKey
  childTables : List ForeignKey
  deriving DecidableEq

structure ColumnRecord where
  name : String
  type : ColumnType
  index : Bool
  unique : Bool
  primaryKey : Bool
  foreignKey : Bool
  parentTable : Bool
  deriving DecidableEq

inductive CatalogRecord where
  | keys (columnName : String) (keys : KeysRecord)
  | column (column : ColumnRecord)
  deriving DecidableEq

namespace CatalogRecord

def keyRefJson (k : KeyRef) : Json :=
  .ofFields [("column", .ofText k.column), ("ordinal", .ofNat k.ordinal),
    ("type", .ofText k.type.name)]

def foreignKeyJson (fk : ForeignKey) : Json :=
  .ofFields [("key", keyRefJson fk.key), ("table", .ofText fk.table),
    ("column", keyRefJson fk.column)]

def json : CatalogRecord → Json
  | .keys name k =>
    .ofFields [("column_name", .ofText name),
      ("primary_keys", .array (k.primaryKeys.map fun p => .array [.ofText p.1, .ofNat p.2])),
      ("foreign_keys", .array (k.foreignKeys.map foreignKeyJson)),
      ("child_tables", .array (k.childTables.map foreignKeyJson))]
  | .column c =>
    .ofFields [("column_name", .ofText c.name), ("type", .ofText c.type.name),
      ("index", .bool c.index), ("unique", .bool c.unique), ("primary_key", .bool c.primaryKey),
      ("foreign_key", .bool c.foreignKey), ("parent_table", .bool c.parentTable)]

/-- The name of a type, alone or over a null. -/
def type? (j : Json) : Option ColumnType :=
  match j with
  | .string s => s.bind ColumnType.ofName?
  | _ =>
    match j.variant? with
    | some (name, .null) => ColumnType.ofName? name
    | _ => none

def keyRef? (j : Json) : Option KeyRef := do
  match ← j.record? ["column", "ordinal", "type"] with
  | [name, ordinal, type] => return ⟨← name.text?, ← ordinal.nat?, ← type? type⟩
  | _ => none

def foreignKey? (j : Json) : Option ForeignKey := do
  match ← j.record? ["key", "table", "column"] with
  | [key, table, other] => return ⟨← keyRef? key, ← table.text?, ← keyRef? other⟩
  | _ => none

def primaryKey? (j : Json) : Option (String × Nat) := do
  match ← j.items? with
  | [name, position] => return (← name.text?, ← position.nat?)
  | _ => none

def keys? (j : Json) : Option CatalogRecord := do
  match ← j.record? ["column_name", "primary_keys", "foreign_keys", "child_tables"] with
  | [name, primaryKeys, foreignKeys, childTables] =>
    return .keys (← name.text?) ⟨← (← primaryKeys.items?).mapM primaryKey?,
      ← (← foreignKeys.items?).mapM foreignKey?, ← (← childTables.items?).mapM foreignKey?⟩
  | _ => none

def column? (j : Json) : Option CatalogRecord := do
  match ← j.record? ["column_name", "type", "index", "unique", "primary_key", "foreign_key",
    "parent_table"] with
  | [name, type, index, unique, primaryKey, foreignKey, parentTable] =>
    return .column ⟨← name.text?, ← type? type, ← index.bool?, ← unique.bool?,
      ← primaryKey.bool?, ← foreignKey.bool?, ← parentTable.bool?⟩
  | _ => none

def ofJson? (j : Json) : Option CatalogRecord := (keys? j).orElse fun _ => column? j

def maxDepth : Nat := 127

def read? (text : String) : Option (List CatalogRecord) := do
  let j ← Json.read? text.toList
  if j.sound maxDepth then (← j.items?).mapM ofJson? else none

def write (records : List CatalogRecord) : String :=
  String.ofList (Json.array (records.map json) |>.pretty 0)

end CatalogRecord

namespace Table

def records (t : Table) : List CatalogRecord :=
  .keys "keys" ⟨t.primaryKeys, t.foreignKeys, t.childTables⟩ ::
    t.columns.map fun c => .column ⟨c.name, c.type, c.indexed, c.unique, c.primaryKey,
      c.foreignKey, c.parentTable⟩

def recordedColumns (table : String) (seen : List String) :
    List CatalogRecord → Except Error (List Column)
  | [] => .ok []
  | .keys _ _ :: _ =>
    .error (.storage ("catalog file for " ++ Error.quoted table ++
      " has more than one keys record"))
  | .column r :: rest => do
    if r.name ∈ seen then throw (.duplicateColumn r.name table)
    let columns ← recordedColumns table (seen ++ [r.name]) rest
    return ⟨r.name, r.type, seen.length, r.primaryKey, r.unique, r.index, r.foreignKey,
      r.parentTable⟩ :: columns

def ofRecords (name : String) (records : List CatalogRecord) : Except Error Table :=
  match records with
  | .keys _ k :: rest => do
    match ← recordedColumns name [] rest with
    | [] => throw (.emptyTable name)
    | first :: rest =>
      return ⟨name, first :: rest, k.primaryKeys, k.foreignKeys, k.childTables,
        List.cons_ne_nil _ _⟩
  | _ =>
    .error (.storage ("catalog file for " ++ Error.quoted name ++
      " does not start with a keys record"))

def fileText (t : Table) : String := CatalogRecord.write t.records

def ofFileText (name text : String) : Except Error Table :=
  match CatalogRecord.read? text with
  | some records => ofRecords name records
  | none => .error (.serialization "catalog file is not valid")

end Table

end RelStore
