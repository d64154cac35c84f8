import RelStore.Catalog.Basic
import RelStore.Index
/-! The checks before a row or a constraint is written: types, distinct values, and references in
both directions. -/
namespace RelStore.Constraint

/-- Whether some row holds the value, by the index of the column if it has one. -/
def valueExists (c : Content) (db : String) (t : Table) (column : Column) (v : Value) :
    Except Error Bool :=
  if column.indexed then .ok (Index.contains c db t column v)
  else (Row.scan c db t .all).map fun rows => rows.any fun r => r.get? column.position = some v

def readRow (t : Table) (literals : List String) : Except Error Row :=
  match literals with
  | id :: fields => do
    if literals.length ≠ t.width then throw (.arityMismatch t.name t.width literals.length)
    let id ← t.rowId.read id
    let fields ← (t.columns.tail.zip fields).mapM fun p => p.1.read p.2
    return ⟨id, fields⟩
  | [] => .error (.arityMismatch t.name t.width 0)

def checkUniqueColumns (c : Content) (db : String) (t : Table) (r : Row) :
    List Column → Except Error Unit
  | [] => .ok ()
  | column :: rest => do
    match r.get? column.position with
    | none => pure ()
    | some v =>
      if ← valueExists c db t column v then throw (.duplicateValue t.name column.name v.text)
    checkUniqueColumns c db t r rest

def checkUnique (c : Content) (db : String) (t : Table) (r : Row) : Except Error Unit := do
  if (c.findOne db t.name r.id).isSome then throw (.duplicatePrimaryKey t.name r.id.text)
  checkUniqueColumns c db t r (t.columns.filter fun column => column.unique && !column.isRowId)

/-- Whether the own value of a reference occurs on the other side; the error, if that is not as
`wanted`, names what was looked for. The values are those of a row, in column order; one that is not
there refers to nothing. -/
def checkReference (cat : Catalog) (c : Content) (db : String) (t : Table) (values : List Value)
    (wanted : Bool) (failure : String → String → String → Error) (fk : ForeignKey) :
    Except Error Unit := do
  let own ← t.column fk.key.column
  match values[own.position]? with
  | none => return
  | some v =>
    let other ← cat.table db fk.table
    let column ← other.column fk.column.column
    if (← valueExists c db other column v) ≠ wanted then
      throw (failure v.text other.name column.name)

def checkParents (cat : Catalog) (c : Content) (db : String) (t : Table) (values : List Value) :
    Except Error Unit :=
  t.foreignKeys.forM (checkReference cat c db t values true .missingParent)

def checkNoChildren (cat : Catalog) (c : Content) (db : String) (t : Table)
    (values : List Value) : Except Error Unit :=
  t.childTables.forM (checkReference cat c db t values false .dependentRows)

def checkDistinct (t : Table) (column : Column) (seen : OrdSet Value) :
    List Row → Except Error Unit
  | [] => .ok ()
  | r :: rest =>
    match r.get? column.position with
    | none => checkDistinct t column seen rest
    | some v =>
      if seen.contains v then .error (.duplicateValue t.name column.name v.text)
      else checkDistinct t column (seen.insert v ()) rest

def checkExistingUnique (c : Content) (db : String) (t : Table) (column : Column) :
    Except Error Unit := do
  checkDistinct t column ∅ (← Row.scan c db t .all)

def checkExistingReferences (c : Content) (db : String) (child : Table) (column : Column)
    (parent : Table) (parentColumn : Column) : Except Error Unit := do
  let rows ← Row.scan c db child .all
  (OrdSet.ofList (rows.filterMap fun r => r.get? column.position)).keys.forM fun v => do
    if !(← valueExists c db parent parentColumn v) then
      throw (.missingParent v.text parent.name parentColumn.name)

end RelStore.Constraint
