import RelStore.Binary64.Literal
import RelStore.Calendar.Format
import RelStore.Value.Basic
/-! Column types, the literals they accept and the text of a value. -/
namespace RelStore

inductive ColumnType where
  | int
  | float
  | bit
  | date
  | dateTime
  | string
  deriving DecidableEq

namespace ColumnType

def name : ColumnType → String
  | .int => "int"
  | .float => "float"
  | .bit => "bit"
  | .date => "date"
  | .dateTime => "datetime"
  | .string => "string"

def list : List ColumnType := [.int, .float, .bit, .date, .dateTime, .string]

def ofName? (name : String) : Option ColumnType := list.find? fun t => t.name = name

def title : ColumnType → String
  | .int => "INT"
  | .float => "FLOAT"
  | .bit => "BIT"
  | .date => "DATE"
  | .dateTime => "DATETIME"
  | .string => "STRING"

end ColumnType

def readInt64 (s : List Char) : Option Int64 :=
  (Text.readInt s).bind fun i =>
    if Int64.minValue.toInt ≤ i ∧ i ≤ Int64.maxValue.toInt then some (.ofInt i) else none

def ColumnType.read? (t : ColumnType) (literal : String) : Option Value :=
  let s := literal.toList
  match t with
  | .int => (readInt64 s).map .int
  | .float => (Binary64.ofLiteral? s).map .float
  | .bit =>
    if s = ['0'] then some (.bit false)
    else if s = ['1'] then some (.bit true)
    else none
  | .date => (CalendarFormat.literal.readDate s).map .date
  | .dateTime => (CalendarFormat.literal.readDateTime s).map .dateTime
  | .string => some (.string literal)

namespace Value

def chars : Value → List Char
  | .bit b => [if b then '1' else '0']
  | .int i => Text.intText i.toInt
  | .float x => x.text
  | .date d => CalendarFormat.dateText d
  | .dateTime t => CalendarFormat.literal.dateTimeText t
  | .string s => s.toList

/-- The value as a literal of its type. -/
def text (v : Value) : String := String.ofList v.chars

end Value

end RelStore
