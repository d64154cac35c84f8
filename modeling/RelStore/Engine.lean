import RelStore.Constraint
import RelStore.Query.Plan
/-! The operations on databases, tables, rows and constraints. Each works on the catalog and on the
document store; a row and its index entries are written in one batch. -/
namespace RelStore

structure Backend where
  catalog : Catalog
  store : Store
  deriving DecidableEq

inductive Outcome where
  | done (affected : Nat) (message : String)
  | table (columns : List String) (rows : List (List Value))
  deriving DecidableEq

namespace Backend

def onCatalog {α : Type} (step : Step Catalog α) : Step Backend α := fun b =>
  let (result, catalog) := step b.catalog
  (result, { b with catalog := catalog })

def onStore {α : Type} (step : Step Store α) : Step Backend α := fun b =>
  let (result, store) := step b.store
  (result, { b with store := store })

end Backend

namespace Engine

open Backend (onCatalog onStore)

/-- Keeps a database without tables in the store. -/
def placeholder : String := "database created"

def getContent : Step Backend Content := return (← get).store.content

def getTable (db name : String) : Step Backend Table := do
  let t ← (← get).catalog.table db name
  return t

def requireDatabase (db : String) : Step Backend Unit := do
  if !(← get).catalog.databaseExists db then throw (.databaseNotFound db)

def createDatabase (name : String) : Step Backend Outcome := do
  if name ∈ (← getContent).databases then throw (.databaseAlreadyExists name)
  onCatalog (Catalog.createDatabase name)
  onStore (Store.createCollection name placeholder)
  return .done 0 ("Database " ++ Error.quoted name ++ " created")

def dropDatabase (name : String) : Step Backend Outcome := do
  onCatalog (Catalog.dropDatabase name)
  onStore (Store.dropDatabase name)
  return .done 0 ("Database " ++ Error.quoted name ++ " dropped")

def useDatabase (name : String) : Step Backend Outcome := do
  requireDatabase name
  return .done 0 ("Using database " ++ Error.quoted name)

def createTable (db name : String) (columns : List (String × ColumnType)) :
    Step Backend Outcome := do
  requireDatabase db
  let _ ← onCatalog (Catalog.createTable db name columns)
  onStore (Store.createCollection db name)
  let _ ← onStore (Store.dropCollection db placeholder)
  return .done 0 ("Table " ++ Error.quoted name ++ " created")

/-- References of the table to itself do not stand in the way. -/
def dropTable (db name : String) : Step Backend Outcome := do
  requireDatabase db
  let t ← getTable db name
  match t.childTables.find? fun r => r.table ≠ name with
  | some r => throw (.referencedTable name r.table)
  | none => pure ()
  (t.foreignKeys.filter fun fk => fk.table ≠ name).forM fun fk => do
    let _ ← onCatalog (Catalog.removeChildReferences db fk.table name)
  onStore (Index.dropAll db t)
  let _ ← onStore (Store.dropCollection db name)
  let _ ← onCatalog (Catalog.dropTable db name)
  let tables ← (← get).catalog.listTables db
  if tables.isEmpty then onStore (Store.createCollection db placeholder)
  return .done 0 ("Table " ++ Error.quoted name ++ " dropped")

def insert (db table : String) (values : List String) : Step Backend Outcome := do
  requireDatabase db
  let t ← getTable db table
  let c ← getContent
  let r ← Constraint.readRow t values
  Constraint.checkUnique c db t r
  Constraint.checkParents (← get).catalog c db t r.values
  onStore (Store.apply db (.insert t.name r.document :: Index.insertWrites c db t r))
  return .done 1 "1 row inserted"

def delete (db table id : String) : Step Backend Outcome := do
  requireDatabase db
  let t ← getTable db table
  let c ← getContent
  let id ← t.rowId.read id
  match c.findOne db t.name id with
  | none => throw (.rowNotFound t.name id.text)
  | some d =>
    let r ← Row.ofDocument t d
    Constraint.checkNoChildren (← get).catalog c db t r.values
    onStore (Store.apply db (.delete t.name id :: Index.deleteWrites c db t r))
    return .done 1 "1 row deleted"

def addPrimaryKey (db table column : String) : Step Backend Outcome := do
  requireDatabase db
  let t ← getTable db table
  let c ← t.column column
  if c.primaryKey then throw (.alreadyPrimaryKey column)
  Constraint.checkExistingUnique (← getContent) db t c
  let updated ← onCatalog (Catalog.addPrimaryKey db table column)
  if !c.indexed then onStore (Index.build db updated (← updated.column column))
  return .done 0 ("Primary key added on " ++ table ++ "." ++ column)

def addUnique (db table column : String) : Step Backend Outcome := do
  requireDatabase db
  let t ← getTable db table
  let c ← t.column column
  Constraint.checkExistingUnique (← getContent) db t c
  let updated ← onCatalog (Catalog.addUnique db table column)
  if !c.indexed then onStore (Index.build db updated (← updated.column column))
  return .done 0 ("Unique constraint added on " ++ table ++ "." ++ column)

def addIndex (db table column : String) : Step Backend Outcome := do
  requireDatabase db
  let updated ← onCatalog (Catalog.addIndex db table column)
  onStore (Index.build db updated (← updated.column column))
  return .done 0 ("Index created on " ++ table ++ "." ++ column)

def addForeignKey (db table column parent parentColumn : String) : Step Backend Outcome := do
  requireDatabase db
  let child ← getTable db table
  let parentTable ← getTable db parent
  let own ← child.column column
  let target ← parentTable.column parentColumn
  if own.foreignKey then throw (.alreadyForeignKey column)
  if own.type ≠ target.type then
    throw (.foreignKeyTypeMismatch column target.type.title own.type.title)
  Constraint.checkExistingReferences (← getContent) db child own parentTable target
  let _ ← onCatalog (Catalog.addForeignKey db table column parent parentColumn)
  return .done 0 ("Foreign key " ++ table ++ "." ++ column ++ " -> " ++ parent ++ "." ++
    parentColumn ++ " added")

def runPlan (c : Content) (db : String) (plan : SelectPlan) :
    Except Error (List (List Value)) := do
  let ids ← Index.resolve c db plan.table plan.indexed
  let filter : KeyFilter :=
    match ids with
    | some ids => .among ids.keys
    | none => .all
  if ids.any (·.isEmpty) then return []
  let rows ← Row.scan c db plan.table filter
  return (rows.filter fun r => plan.filters.all fun f => f.admits r).map fun r =>
    r.project plan.projection

def select (db table : String) (projection : Projection) (predicates : List Predicate) :
    Step Backend Outcome := do
  requireDatabase db
  let plan ← SelectPlan.make (← get).catalog db table projection predicates
  let rows ← runPlan (← getContent) db plan
  return .table plan.columns rows

end Engine

end RelStore
