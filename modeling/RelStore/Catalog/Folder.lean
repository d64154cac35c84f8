import RelStore.Error
import RelStore.OrdMap
/-! The folder that holds the catalog: a folder for each database, with files in it. Other folders
inside a database are only known to be there. -/
namespace RelStore

inductive Entry where
  | file (text : String)
  | folder
  deriving DecidableEq

inductive Node where
  | file (text : String)
  | folder (entries : OrdMap String Entry)
  deriving DecidableEq

abbrev Catalog := OrdMap String Node

namespace Catalog

def maxNameBytes : Nat := 255

def nameFits (name : String) : Bool := name.utf8ByteSize ≤ maxNameBytes

def entries? (c : Catalog) (db : String) : Option (OrdMap String Entry) :=
  match c.find? db with
  | some (.folder entries) => some entries
  | _ => none

def fileText? (c : Catalog) (db file : String) : Option String :=
  match (c.entries? db).bind fun es => es.find? file with
  | some (.file text) => some text
  | _ => none

def makeFolder (name : String) : Step Catalog Unit := do
  if nameFits name then modify fun c => c.insert name (.folder ∅)
  else throw (.io "File name too long")

def writeFile (db file text : String) : Step Catalog Unit := do
  match (← get).entries? db with
  | none => throw (.io "No such file or directory")
  | some es =>
    if !nameFits file then throw (.io "File name too long")
    if es.find? file = some .folder then throw (.io "Is a directory")
    modify fun c => c.insert db (.folder (es.insert file (.file text)))

/-- Moves a file onto another name, in place of a file that has it. -/
def renameFile (db source target : String) : Step Catalog Unit := do
  match (← get).entries? db with
  | none => throw (.io "No such file or directory")
  | some es =>
    if !nameFits target then throw (.io "File name too long")
    if es.find? target = some .folder then throw (.io "Is a directory")
    match es.find? source with
    | none => throw (.io "No such file or directory")
    | some e => modify fun c => c.insert db (.folder ((es.erase source).insert target e))

def removeFile (db file : String) : Step Catalog Unit := do
  match (← get).entries? db with
  | none => throw (.io "No such file or directory")
  | some es => modify fun c => c.insert db (.folder (es.erase file))

end Catalog

end RelStore
