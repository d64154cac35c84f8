import RelStore.Proofs.Maps
import RelStore.Proofs.Tables
import RelStore.Session
/-! What the operations mean for definitions and typed rows, with no files, collections or indexes.
A relation is a table with its rows by row id, and a database is a set of named relations. -/
namespace RelStore

structure Relation where
  table : Table
  rows : OrdMap Value (List Value)

abbrev Database := OrdMap String Relation

abbrev Databases := OrdMap String Database

namespace Relation

/-- The rows in the order of their ids. -/
def list (R : Relation) : List Row := R.rows.bindings.map fun b => ⟨b.1, b.2⟩

def holds (R : Relation) (c : Column) (v : Value) : Bool :=
  R.list.any fun r => r.get? c.position = some v

def insertRow (r : Row) (R : Relation) : Relation := { R with rows := R.rows.insert r.id r.fields }

def deleteRow (id : Value) (R : Relation) : Relation := { R with rows := R.rows.erase id }

def withTable (f : Table → Table) (R : Relation) : Relation := { R with table := f R.table }

def checkUniqueColumn (R : Relation) (r : Row) (c : Column) : Except Error Unit :=
  match r.get? c.position with
  | none => .ok ()
  | some v => if R.holds c v then .error (.duplicateValue R.table.name c.name v.text) else .ok ()

def checkUnique (R : Relation) (r : Row) : Except Error Unit := do
  if R.rows.contains r.id then throw (.duplicatePrimaryKey R.table.name r.id.text)
  (R.table.columns.filter fun c => c.unique && !c.isRowId).forM (R.checkUniqueColumn r)

/-- Whether the row has a value in the column that compares so with `v`. -/
def meets (r : Row) (c : Column × Operator × Value) : Bool :=
  (r.get? c.1.position).any fun x => c.2.1.holds x c.2.2

def condition (t : Table) (p : Predicate) : Except Error (Column × Operator × Value) := do
  let c ← t.column p.column
  let v ← c.read p.literal
  return (c, p.op, v)

def select (R : Relation) (projection : Projection) (predicates : List Predicate) :
    Except Error (List String × List (List Value)) := do
  let columns ← SelectPlan.planProjection R.table projection
  let conditions ← predicates.mapM (condition R.table)
  let rows := R.list.filter fun r => conditions.all (meets r)
  return (columns.map (·.name), rows.map fun r => r.project (columns.map (·.position)))

end Relation

namespace Database

def relation (D : Database) (name : String) : Except Error Relation := do
  checkName name
  match D.find? name with
  | some R => return R
  | none => throw (.tableNotFound name)

def createTable (D : Database) (name : String) (columns : List (String × ColumnType)) :
    Except Error Database := do
  if D.contains name then throw (.tableAlreadyExists name)
  let t ← Table.declare name columns
  if !Catalog.nameFits (Catalog.tableFile name) then throw (.io "File name too long")
  return D.insert name ⟨t, ∅⟩

def dropTable (D : Database) (name : String) : Except Error Database := do
  let R ← D.relation name
  match R.table.childTables.find? fun r => r.table ≠ name with
  | some r => throw (.referencedTable name r.table)
  | none => return (D.mapValues fun _ R => R.withTable (Table.forget name)).erase name

def checkReference (D : Database) (t : Table) (values : List Value) (wanted : Bool)
    (failure : String → String → String → Error) (fk : ForeignKey) : Except Error Unit := do
  let own ← t.column fk.key.column
  match values[own.position]? with
  | none => return
  | some v =>
    let other ← D.relation fk.table
    let column ← other.table.column fk.column.column
    if other.holds column v ≠ wanted then throw (failure v.text other.table.name column.name)

def insertRow (D : Database) (name : String) (values : List String) : Except Error Database := do
  let R ← D.relation name
  let r ← Constraint.readRow R.table values
  R.checkUnique r
  R.table.foreignKeys.forM (D.checkReference R.table r.values true .missingParent)
  return D.update name (·.insertRow r)

def deleteRow (D : Database) (name literal : String) : Except Error Database := do
  let R ← D.relation name
  let id ← R.table.rowId.read literal
  match R.rows.find? id with
  | none => throw (.rowNotFound R.table.name id.text)
  | some fields =>
    R.table.childTables.forM (D.checkReference R.table (id :: fields) false .dependentRows)
    return D.update name (·.deleteRow id)

def addPrimaryKey (D : Database) (name column : String) : Except Error Database := do
  let R ← D.relation name
  let c ← R.table.column column
  if c.primaryKey then throw (.alreadyPrimaryKey column)
  Constraint.checkDistinct R.table c ∅ R.list
  return D.update name (·.withTable fun t => t.withPrimaryKey c.name c.position)

def addUnique (D : Database) (name column : String) : Except Error Database := do
  let R ← D.relation name
  let c ← R.table.column column
  Constraint.checkDistinct R.table c ∅ R.list
  return D.update name (·.withTable fun t => t.withUnique c.name)

def addIndex (D : Database) (name column : String) : Except Error Database := do
  let R ← D.relation name
  let c ← R.table.column column
  if c.indexed then throw (.alreadyIndexed column R.table.name)
  return D.update name (·.withTable fun t => t.withIndex c.name)

/-- Every value of the column is one of the column it is to refer to. -/
def checkReferences (C : Relation) (own : Column) (P : Relation) (target : Column) :
    Except Error Unit :=
  (OrdSet.ofList (C.list.filterMap fun r => r.get? own.position)).keys.forM fun v =>
    if P.holds target v then .ok ()
    else .error (.missingParent v.text P.table.name target.name)

/-- Links the two tables, which may be the same. -/
def link (D : Database) (child : String) (own : Column) (parent : String) (target : Column) :
    Database :=
  (D.update child (·.withTable fun t =>
      Catalog.withForeignKey t ⟨own.keyRef, parent, target.keyRef⟩)).update parent
    (·.withTable fun t => Catalog.withChildReference t ⟨target.keyRef, child, own.keyRef⟩)

def addForeignKey (D : Database) (child column parent parentColumn : String) :
    Except Error Database := do
  let C ← D.relation child
  let P ← D.relation parent
  let own ← C.table.column column
  let target ← P.table.column parentColumn
  if own.foreignKey then throw (.alreadyForeignKey column)
  if own.type ≠ target.type then
    throw (.foreignKeyTypeMismatch column target.type.title own.type.title)
  checkReferences C own P target
  return D.link child own parent target

end Database

namespace Databases

def database (w : Databases) (db : String) : Except Error Database :=
  match w.find? db with
  | some D => .ok D
  | none => .error (.databaseNotFound db)

/-- Carries out a change in the selected database. -/
def change (w : Databases) (s : Session) (op : Database → Except Error Database) :
    Except Error (Response × Databases) := do
  let db ← s.selected
  let D ← op (← w.database db)
  return (.done, w.insert db D)

def run (w : Databases) (s : Session) : Command → Except Error (Response × Databases)
  | .createDatabase n => do
    if w.contains n then throw (.databaseAlreadyExists n)
    checkName n
    if !Catalog.nameFits n then throw (.io "File name too long")
    return (.done, w.insert n ∅)
  | .dropDatabase n => do
    checkName n
    let _ ← w.database n
    return (.done, w.erase n)
  | .useDatabase n => do
    let _ ← w.database n
    return (.done, w)
  | .createTable n columns => w.change s (·.createTable n columns)
  | .dropTable n => w.change s (·.dropTable n)
  | .insert t values => w.change s (·.insertRow t values)
  | .delete t id => w.change s (·.deleteRow t id)
  | .addPrimaryKey t c => w.change s (·.addPrimaryKey t c)
  | .addForeignKey t c p pc => w.change s (·.addForeignKey t c p pc)
  | .addUnique t c => w.change s (·.addUnique t c)
  | .addIndex t c => w.change s (·.addIndex t c)
  | .select t projection predicates => do
    let D ← w.database (← s.selected)
    let R ← D.relation t
    let (columns, rows) ← R.select projection predicates
    return (.table columns (rows.map fun row => row.map Value.text), w)

end Databases

end RelStore
