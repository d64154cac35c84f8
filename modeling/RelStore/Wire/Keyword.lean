import RelStore.Command
import RelStore.Text.Numeral
/-! Keywords, operators and type names, with their wire codes, the words that spell them on a
command line, and the form in which messages show them. -/
namespace RelStore

inductive Keyword where
  | exit
  | create
  | drop
  | database
  | table
  | index
  | use
  | insert
  | delete
  | add
  | pk
  | fk
  | uq
  | into
  | values
  | fromWord
  | whereWord
  | all
  | select
  | columns
  | operator (op : Operator)
  | and
  | or
  | type (t : ColumnType)
  deriving DecidableEq

namespace Keyword

def code : Keyword → Nat
  | exit => 1
  | create => 2
  | drop => 3
  | database => 4
  | table => 5
  | index => 6
  | use => 7
  | insert => 8
  | delete => 9
  | add => 10
  | pk => 11
  | fk => 12
  | uq => 13
  | into => 14
  | values => 15
  | fromWord => 16
  | whereWord => 17
  | all => 18
  | select => 19
  | columns => 20
  | operator .eq => 21
  | operator .lt => 22
  | operator .gt => 23
  | operator .le => 24
  | operator .ge => 25
  | operator .ne => 26
  | and => 27
  | or => 28
  | type .int => 29
  | type .float => 30
  | type .bit => 31
  | type .date => 32
  | type .dateTime => 33
  | type .string => 34

def list : List Keyword :=
  [exit, create, drop, database, table, index, use, insert, delete, add, pk, fk, uq, into, values,
    fromWord, whereWord, all, select, columns] ++ Operator.all.map operator ++ [and, or] ++
    ColumnType.list.map type

def ofCode? (n : Nat) : Option Keyword := list.find? fun k => k.code = n

/-- A wire token is a keyword if it writes its code, with a plus sign or leading zeros or not. -/
def ofToken? (token : List Char) : Option Keyword :=
  (Text.readNat (match token with
    | '+' :: rest => rest
    | _ => token)).bind ofCode?

def token (k : Keyword) : List Char := Text.natDigits k.code

def title : Keyword → String
  | exit => "EXIT"
  | create => "CREATE"
  | drop => "DROP"
  | database => "DATABASE"
  | table => "TABLE"
  | index => "INDEX"
  | use => "USE"
  | insert => "INSERT"
  | delete => "DELETE"
  | add => "ADD"
  | pk => "PK"
  | fk => "FK"
  | uq => "UQ"
  | into => "INTO"
  | values => "VALUES"
  | fromWord => "FROM"
  | whereWord => "WHERE"
  | all => "*"
  | select => "SELECT"
  | columns => "COLUMNS"
  | operator .eq => "="
  | operator .lt => "<"
  | operator .gt => ">"
  | operator .le => "<="
  | operator .ge => ">="
  | operator .ne => "!="
  | and => "AND"
  | or => "OR"
  | type t => t.title

/-- The words of a keyword in lower case; `columns` has a code only. -/
def spellings : Keyword → List String
  | exit => ["exit", "stop", "quit"]
  | create => ["create"]
  | drop => ["drop"]
  | database => ["database"]
  | table => ["table"]
  | index => ["index"]
  | use => ["use"]
  | insert => ["insert"]
  | delete => ["delete"]
  | add => ["add"]
  | pk => ["pk"]
  | fk => ["fk"]
  | uq => ["uq"]
  | into => ["into"]
  | values => ["values"]
  | fromWord => ["from"]
  | whereWord => ["where"]
  | all => ["*"]
  | select => ["select"]
  | columns => []
  | operator .eq => ["=", "=="]
  | operator .lt => ["<"]
  | operator .gt => [">"]
  | operator .le => ["<="]
  | operator .ge => [">="]
  | operator .ne => ["!=", "<>"]
  | and => ["and"]
  | or => ["or"]
  | type .int => ["int"]
  | type .float => ["float"]
  | type .bit => ["bit"]
  | type .date => ["date"]
  | type .dateTime => ["datetime"]
  | type .string => ["string", "varchar"]

def ofWord? (word : String) : Option Keyword := list.find? fun k => word ∈ k.spellings

/-- Lower case as far as it can yield a letter of a keyword: ASCII letters and the Kelvin sign. -/
def lowerChar (c : Char) : Char := if c = '\u212A' then 'k' else c.toLower

def lower (word : List Char) : List Char := word.map lowerChar

def operator? : Keyword → Option Operator
  | operator op => some op
  | _ => none

def type? : Keyword → Option ColumnType
  | type t => some t
  | _ => none

end Keyword

/-- Joins are recognised in order to be refused. -/
def isJoin (word : List Char) : Bool := word.map Char.toLower = "join".toList

end RelStore
