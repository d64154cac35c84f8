import RelStore.Catalog.Basic
import RelStore.Command
import RelStore.Row
/-! Plans of selections. Conditions are typed and grouped by column; those on indexed columns are
looked up, the others are checked row by row. -/
namespace RelStore

abbrev Conditions := List (Operator × Value)

structure ScanFilter where
  position : Nat
  conditions : Conditions
  deriving DecidableEq

def ScanFilter.admits (f : ScanFilter) (r : Row) : Bool :=
  match r.get? f.position with
  | some v => satisfies v f.conditions
  | none => false

structure SelectPlan where
  table : Table
  columns : List String
  projection : List Nat
  indexed : List (String × Conditions)
  filters : List ScanFilter
  deriving DecidableEq

namespace SelectPlan

def usesIndex (p : SelectPlan) : Bool := !p.indexed.isEmpty

/-- The columns of a selection come in the order of their declaration, each once. -/
def planProjection (t : Table) (projection : Projection) : Except Error (List Column) :=
  match projection with
  | .all => .ok t.columns
  | .columns names => do
    if names.isEmpty then throw (.protocol "SELECT needs at least one column")
    names.forM fun name => do
      let _ ← t.column name
    return t.columns.filter fun c => c.name ∈ names

/-- Adds a condition to those on its column, which stay where the column was first mentioned. -/
def addCondition (name : String) (condition : Operator × Value) :
    List (String × Conditions) → List (String × Conditions)
  | [] => [(name, [condition])]
  | (other, conditions) :: rest =>
    if other = name then (other, conditions ++ [condition]) :: rest
    else (other, conditions) :: addCondition name condition rest

def groupConditions (t : Table) (grouped : List (String × Conditions)) :
    List Predicate → Except Error (List (String × Conditions))
  | [] => .ok grouped
  | p :: rest => do
    let column ← t.column p.column
    let v ← column.read p.literal
    groupConditions t (addCondition column.name (p.op, v) grouped) rest

def split (t : Table) :
    List (String × Conditions) → Except Error (List (String × Conditions) × List ScanFilter)
  | [] => .ok ([], [])
  | (name, conditions) :: rest => do
    let column ← t.column name
    let (indexed, filters) ← split t rest
    if column.indexed then return ((name, conditions) :: indexed, filters)
    else return (indexed, ⟨column.position, conditions⟩ :: filters)

def ofTable (t : Table) (projection : Projection) (predicates : List Predicate) :
    Except Error SelectPlan := do
  let columns ← planProjection t projection
  let grouped ← groupConditions t [] predicates
  let (indexed, filters) ← split t grouped
  return ⟨t, columns.map (·.name), columns.map (·.position), indexed, filters⟩

def make (cat : Catalog) (db table : String) (projection : Projection)
    (predicates : List Predicate) : Except Error SelectPlan := do
  ofTable (← cat.table db table) projection predicates

end SelectPlan

end RelStore
