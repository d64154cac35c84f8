import RelStore.Row
import RelStore.Store.Durable
/-! Secondary indexes. An indexed column other than the row id has a collection that lists, for
each value in the column, the ids of the rows holding it. The row ids themselves are looked up in
the collection of the table. -/
namespace RelStore

abbrev IdSet := OrdSet Value

namespace Index

def insertWrites (c : Content) (db : String) (t : Table) (r : Row) : List WriteOp :=
  t.secondaryIndexes.filterMap fun column =>
    (r.get? column.position).map fun v =>
      let name := indexCollection t.name column.name
      match c.findOne db name v with
      | some _ => .push name v r.id
      | none => .insert name ⟨v, .rowIds [r.id]⟩

/-- The writes that go with deleting a row; the last id takes its entry along. -/
def deleteWrites (c : Content) (db : String) (t : Table) (r : Row) : List WriteOp :=
  t.secondaryIndexes.filterMap fun column =>
    (r.get? column.position).bind fun v =>
      let name := indexCollection t.name column.name
      ((c.findOne db name v).bind fun d => d.payload.rowIds?).map fun ids =>
        if ids.all (· = r.id) then .delete name v else .pull name v r.id

def group (rows : List Row) (position : Nat) : OrdMap Value (List Value) :=
  rows.foldl (fun m r =>
    match r.get? position with
    | some v => m.insert v ((m.find? v).getD [] ++ [r.id])
    | none => m) ∅

def build (db : String) (t : Table) (column : Column) : Step Store Unit := do
  if column.isRowId then return
  let name := indexCollection t.name column.name
  let entries := group (← Row.scan (← Store.getContent) db t .all) column.position
  Store.createCollection db name
  Store.apply db (entries.bindings.map fun e => .insert name ⟨e.1, .rowIds e.2⟩)

def dropAll (db : String) (t : Table) : Step Store Unit :=
  t.secondaryIndexes.forM fun column => do
    let _ ← Store.dropCollection db (indexCollection t.name column.name)

def lookup (c : Content) (db : String) (t : Table) (column : Column) (op : Operator) (v : Value) :
    IdSet :=
  if column.isRowId then
    OrdSet.ofList ((c.find db t.name (.compared op v)).map (·.id))
  else
    OrdSet.ofList ((c.find db (indexCollection t.name column.name) (.compared op v)).flatMap
      fun d => d.payload.rowIds?.getD [])

def contains (c : Content) (db : String) (t : Table) (column : Column) (v : Value) : Bool :=
  if column.isRowId then (c.findOne db t.name v).isSome
  else
    match c.findOne db (indexCollection t.name column.name) v with
    | some ⟨_, .rowIds ids⟩ => !ids.isEmpty
    | _ => false

def meet (left : Option IdSet) (ids : IdSet) : IdSet :=
  match left with
  | some acc => OrdSet.inter acc ids
  | none => ids

/-- Meets what is left with the ids of each condition in turn, until nothing is left. -/
def lookupAllFrom (c : Content) (db : String) (t : Table) (column : Column)
    (left : Option IdSet) : List (Operator × Value) → Option IdSet
  | [] => left
  | (op, v) :: rest =>
    let left := meet left (lookup c db t column op v)
    if left.isEmpty then some ∅ else lookupAllFrom c db t column (some left) rest

/-- The ids of the rows that satisfy every condition on one column; none without a condition. -/
def lookupAll (c : Content) (db : String) (t : Table) (column : Column)
    (conditions : List (Operator × Value)) : IdSet :=
  (lookupAllFrom c db t column none conditions).getD ∅

def resolveFrom (c : Content) (db : String) (t : Table) (left : Option IdSet) :
    List (String × List (Operator × Value)) → Except Error (Option IdSet)
  | [] => .ok left
  | (name, conditions) :: rest => do
    let column ← t.column name
    let left := meet left (lookupAll c db t column conditions)
    if left.isEmpty then return some ∅ else resolveFrom c db t (some left) rest

/-- The ids of the rows that satisfy every condition on every column; no restriction without a
column. -/
def resolve (c : Content) (db : String) (t : Table)
    (columns : List (String × List (Operator × Value))) : Except Error (Option IdSet) :=
  resolveFrom c db t none columns

end Index

end RelStore
