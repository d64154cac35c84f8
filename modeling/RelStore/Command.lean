import RelStore.Comparison
import RelStore.Value.Literal
/-! The commands that a request carries. Literals have no type before they meet their column. -/
namespace RelStore

structure Predicate where
  column : String
  op : Operator
  literal : String
  deriving DecidableEq

inductive Projection where
  | all
  | columns (names : List String)
  deriving DecidableEq

inductive Command where
  | createDatabase (name : String)
  | dropDatabase (name : String)
  | useDatabase (name : String)
  | createTable (name : String) (columns : List (String × ColumnType))
  | dropTable (name : String)
  | insert (table : String) (values : List String)
  | delete (table id : String)
  | addPrimaryKey (table column : String)
  | addForeignKey (table column parent parentColumn : String)
  | addUnique (table column : String)
  | addIndex (table column : String)
  | select (table : String) (projection : Projection) (predicates : List Predicate)
  deriving DecidableEq

end RelStore
