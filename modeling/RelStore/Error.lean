/-! What can go wrong in a request, the class of each failure and its wording. -/
namespace RelStore

inductive ErrorClass where
  | schema
  | typeMismatch
  | uniqueness
  | referentialIntegrity
  | protocol
  | storage
  | internal
  deriving DecidableEq

namespace ErrorClass

def code : ErrorClass → UInt8
  | .schema => 1
  | .typeMismatch => 2
  | .uniqueness => 3
  | .referentialIntegrity => 4
  | .protocol => 5
  | .storage => 6
  | .internal => 7

def all : List ErrorClass :=
  [.schema, .typeMismatch, .uniqueness, .referentialIntegrity, .protocol, .storage, .internal]

def ofCode? (code : UInt8) : Option ErrorClass := all.find? fun c => c.code = code

def name : ErrorClass → String
  | .schema => "SchemaError"
  | .typeMismatch => "TypeMismatchError"
  | .uniqueness => "UniquenessViolation"
  | .referentialIntegrity => "ReferentialIntegrityError"
  | .protocol => "ProtocolError"
  | .storage => "StorageError"
  | .internal => "InternalError"

end ErrorClass

inductive Error where
  | invalidName (name : String)
  | databaseNotFound (name : String)
  | databaseAlreadyExists (name : String)
  | noDatabaseSelected
  | tableNotFound (name : String)
  | tableAlreadyExists (name : String)
  | emptyTable (name : String)
  | columnNotFound (column table : String)
  | duplicateColumn (column table : String)
  | alreadyPrimaryKey (column : String)
  | alreadyForeignKey (column : String)
  | alreadyIndexed (column table : String)
  | rowNotFound (table id : String)
  | typeMismatch (column expected value : String)
  | arityMismatch (table : String) (expected found : Nat)
  | foreignKeyTypeMismatch (column expected found : String)
  | duplicatePrimaryKey (table value : String)
  | duplicateValue (table column value : String)
  | missingParent (value table column : String)
  | dependentRows (value table column : String)
  | referencedTable (table child : String)
  | protocol (reason : String)
  | unknownOperation (token : String)
  | unexpectedEnd (expected : String)
  | unexpectedToken (expected found : String)
  | storage (reason : String)
  | duplicateKey (collection key : String)
  | io (reason : String)
  | serialization (reason : String)
  | internal (reason : String)
  deriving DecidableEq

namespace Error

def errorClass : Error → ErrorClass
  | invalidName _ | databaseNotFound _ | databaseAlreadyExists _ | noDatabaseSelected
  | tableNotFound _ | tableAlreadyExists _ | emptyTable _ | columnNotFound _ _
  | duplicateColumn _ _ | alreadyPrimaryKey _ | alreadyForeignKey _ | alreadyIndexed _ _
  | rowNotFound _ _ => .schema
  | typeMismatch _ _ _ | arityMismatch _ _ _ | foreignKeyTypeMismatch _ _ _ => .typeMismatch
  | duplicatePrimaryKey _ _ | duplicateValue _ _ _ => .uniqueness
  | missingParent _ _ _ | dependentRows _ _ _ | referencedTable _ _ => .referentialIntegrity
  | protocol _ | unknownOperation _ | unexpectedEnd _ | unexpectedToken _ _ => .protocol
  | storage _ | duplicateKey _ _ | io _ | serialization _ => .storage
  | internal _ => .internal

def quoted (s : String) : String := "'" ++ s ++ "'"

def message : Error → String
  | invalidName n =>
    "Schema error: invalid name " ++ quoted n ++ ", names use only letters, digits and '_'"
  | databaseNotFound n => "Schema error: database " ++ quoted n ++ " does not exist"
  | databaseAlreadyExists n => "Schema error: database " ++ quoted n ++ " already exists"
  | noDatabaseSelected => "Schema error: no database selected"
  | tableNotFound n => "Schema error: table " ++ quoted n ++ " does not exist"
  | tableAlreadyExists n => "Schema error: table " ++ quoted n ++ " already exists"
  | emptyTable n => "Schema error: table " ++ quoted n ++ " must declare at least one column"
  | columnNotFound c t =>
    "Schema error: column " ++ quoted c ++ " does not exist in table " ++ quoted t
  | duplicateColumn c t =>
    "Schema error: column " ++ quoted c ++ " is declared twice in table " ++ quoted t
  | alreadyPrimaryKey c => "Schema error: column " ++ quoted c ++ " is already a primary key"
  | alreadyForeignKey c => "Schema error: column " ++ quoted c ++ " is already a foreign key"
  | alreadyIndexed c t =>
    "Schema error: column " ++ quoted c ++ " of table " ++ quoted t ++ " is already indexed"
  | rowNotFound t id => "Schema error: row " ++ quoted id ++ " does not exist in table " ++ quoted t
  | typeMismatch c expected v =>
    "Type error: value " ++ quoted v ++ " is not a valid " ++ expected ++ " for column " ++ quoted c
  | arityMismatch t expected found =>
    "Type error: table " ++ quoted t ++ " has " ++ toString expected ++ " columns but " ++
      toString found ++ " values were given"
  | foreignKeyTypeMismatch c expected found =>
    "Type error: foreign key column " ++ quoted c ++ " is " ++ found ++
      " but the referenced column is " ++ expected
  | duplicatePrimaryKey t v =>
    "Uniqueness violation: primary key " ++ quoted v ++ " already exists in table " ++ quoted t
  | duplicateValue t c v =>
    "Uniqueness violation: value " ++ quoted v ++ " already exists in column " ++ quoted c ++
      " of table " ++ quoted t
  | missingParent v t c =>
    "Referential integrity error: " ++ quoted v ++ " does not exist in " ++ t ++ "." ++ c
  | dependentRows v t c =>
    "Referential integrity error: " ++ quoted v ++ " is still referenced by " ++ t ++ "." ++ c
  | referencedTable t child =>
    "Referential integrity error: table " ++ quoted t ++ " is referenced by table " ++ quoted child
  | protocol reason => "Protocol error: " ++ reason
  | unknownOperation token => "Protocol error: unknown operation code " ++ quoted token
  | unexpectedEnd expected => "Protocol error: unexpected end of request, expected " ++ expected
  | unexpectedToken expected found =>
    "Protocol error: unexpected token " ++ quoted found ++ ", expected " ++ expected
  | storage reason => "Storage error: " ++ reason
  | duplicateKey collection key =>
    "Storage error: duplicate key " ++ quoted key ++ " in collection " ++ quoted collection
  | io reason => "I/O error: " ++ reason
  | serialization reason => "Serialization error: " ++ reason
  | internal reason => "Internal error: " ++ reason

end Error

/-- An operation on a state; what it did before it failed stays done. -/
abbrev Step (σ : Type) (α : Type) := ExceptT Error (StateM σ) α

end RelStore
