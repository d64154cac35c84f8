import RelStore.Catalog.Folder
import RelStore.Schema.Record
/-! Databases and table definitions in the catalog. A change reads the whole file of a table and
writes it anew, beside the old one first. -/
namespace RelStore.Catalog

def tableFile (table : String) : String := table ++ ".json"

def draftFile (table : String) : String := table ++ ".tmp"

def databaseExists (c : Catalog) (db : String) : Bool :=
  isValidName db && (c.entries? db).isSome

def createDatabase (db : String) : Step Catalog Unit := do
  checkName db
  if (← get).contains db then throw (.databaseAlreadyExists db)
  makeFolder db

def dropDatabase (db : String) : Step Catalog Unit := do
  checkName db
  if ((← get).entries? db).isNone then throw (.databaseNotFound db)
  modify fun c => c.erase db

def tableOfFile? (file : String) : Option String :=
  match (".json".toList.reverse).isPrefixOf? file.toList.reverse with
  | some [] => none
  | some stem => some (String.ofList stem.reverse)
  | none => none

def listTables (c : Catalog) (db : String) : Except Error (List String) := do
  checkName db
  match c.entries? db with
  | none => throw (.databaseNotFound db)
  | some es => return (OrdSet.ofList (es.keys.filterMap tableOfFile?)).keys

def tableExists (c : Catalog) (db table : String) : Bool :=
  isValidName table && isValidName db && (c.fileText? db (tableFile table)).isSome

def table (c : Catalog) (db name : String) : Except Error Table := do
  checkName name
  checkName db
  match c.fileText? db (tableFile name) with
  | none => throw (.tableNotFound name)
  | some text => Table.ofFileText name text

def writeTable (db : String) (t : Table) : Step Catalog Unit := do
  checkName t.name
  checkName db
  writeFile db (draftFile t.name) t.fileText
  renameFile db (draftFile t.name) (tableFile t.name)

def createTable (db name : String) (columns : List (String × ColumnType)) :
    Step Catalog Table := do
  let c ← get
  if !c.databaseExists db then throw (.databaseNotFound db)
  if c.tableExists db name then throw (.tableAlreadyExists name)
  let t ← Table.declare name columns
  writeTable db t
  return t

def dropTable (db name : String) : Step Catalog Table := do
  let t ← (← get).table db name
  removeFile db (tableFile name)
  return t

def updateTable (db name : String) (f : Table → Except Error Table) : Step Catalog Table := do
  let t ← f (← (← get).table db name)
  writeTable db t
  return t

/-- A primary key is unique and indexed, too. -/
def addPrimaryKey (db table column : String) : Step Catalog Table :=
  updateTable db table fun t => do
    let c ← t.column column
    if c.primaryKey then throw (.alreadyPrimaryKey column)
    let t := { t with primaryKeys := t.primaryKeys ++ [(column, c.position)] }
    return t.updateColumn column fun c =>
      { c with primaryKey := true, unique := true, indexed := true }

/-- A unique column is indexed, too. -/
def addUnique (db table column : String) : Step Catalog Table :=
  updateTable db table fun t => do
    let _ ← t.column column
    return t.updateColumn column fun c => { c with unique := true, indexed := true }

def addIndex (db table column : String) : Step Catalog Table :=
  updateTable db table fun t => do
    let c ← t.column column
    if c.indexed then throw (.alreadyIndexed column t.name)
    return t.updateColumn column fun c => { c with indexed := true }

def withForeignKey (t : Table) (fk : ForeignKey) : Table :=
  { t with foreignKeys := t.foreignKeys ++ [fk] }.updateColumn fk.key.column fun c =>
    { c with foreignKey := true }

def withChildReference (t : Table) (r : ForeignKey) : Table :=
  { t with childTables := t.childTables ++ [r] }.updateColumn r.key.column fun c =>
    { c with parentTable := true }

/-- Writes the reference on both tables, which may be the same. -/
def addForeignKey (db child column parent parentColumn : String) : Step Catalog ForeignKey := do
  let c ← get
  let childTable ← c.table db child
  let parentTable ← if parent = child then pure childTable else c.table db parent
  let source ← childTable.column column
  if source.foreignKey || childTable.foreignKeys.any fun fk => fk.key.column = column then
    throw (.alreadyForeignKey column)
  let target ← parentTable.column parentColumn
  if source.type ≠ target.type then
    throw (.foreignKeyTypeMismatch column target.type.title source.type.title)
  let fk : ForeignKey := ⟨source.keyRef, parentTable.name, target.keyRef⟩
  let reference : ForeignKey := ⟨fk.column, child, fk.key⟩
  if parent = child then
    writeTable db (withChildReference (withForeignKey childTable fk) reference)
  else
    writeTable db (withForeignKey childTable fk)
    writeTable db (withChildReference parentTable reference)
  return fk

/-- Forgets every reference of `child` to `parent`. -/
def removeChildReferences (db parent child : String) : Step Catalog Table :=
  updateTable db parent fun t =>
    let kept := t.childTables.filter fun r => r.table ≠ child
    let referenced := kept.map fun r => r.key.column
    return { t with childTables := kept }.mapColumns fun c =>
      { c with parentTable := c.name ∈ referenced }

end RelStore.Catalog
