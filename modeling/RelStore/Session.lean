import RelStore.Engine
import RelStore.Wire.Frame
import RelStore.Wire.Request
/-! Sessions. A request is decoded, carried out in the database that its session has selected, and
answered by one response. -/
namespace RelStore

structure Session where
  database : Option String
  deriving DecidableEq

namespace Session

def fresh : Session := ⟨none⟩

def selected (s : Session) : Except Error String :=
  match s.database with
  | some db => .ok db
  | none => .error .noDatabaseSelected

def after (s : Session) : Command → Session
  | .useDatabase n => ⟨some n⟩
  | .dropDatabase n => if s.database = some n then ⟨none⟩ else s
  | _ => s

def run (s : Session) : Command → Step Backend Outcome
  | .createDatabase n => Engine.createDatabase n
  | .dropDatabase n => Engine.dropDatabase n
  | .useDatabase n => Engine.useDatabase n
  | .createTable n columns => do Engine.createTable (← s.selected) n columns
  | .dropTable n => do Engine.dropTable (← s.selected) n
  | .insert t values => do Engine.insert (← s.selected) t values
  | .delete t id => do Engine.delete (← s.selected) t id
  | .addPrimaryKey t c => do Engine.addPrimaryKey (← s.selected) t c
  | .addForeignKey t c p pc => do Engine.addForeignKey (← s.selected) t c p pc
  | .addUnique t c => do Engine.addUnique (← s.selected) t c
  | .addIndex t c => do Engine.addIndex (← s.selected) t c
  | .select t projection predicates => do
    Engine.select (← s.selected) t projection predicates

end Session

def Outcome.response : Outcome → Response
  | .done _ _ => .done
  | .table columns rows => .table columns (rows.map fun row => row.map Value.text)

structure Service where
  backend : Backend
  session : Session
  deriving DecidableEq

namespace Service

/-- A command that fails leaves the selected database as it is. -/
def execute (s : Service) (c : Command) : Except Error Outcome × Service :=
  match s.session.run c s.backend with
  | (.ok outcome, b) => (.ok outcome, ⟨b, s.session.after c⟩)
  | (.error e, b) => (.error e, ⟨b, s.session⟩)

def handleRequest (s : Service) (request : String) : Response × Service :=
  match Command.decode request with
  | .error e => (.ofError e, s)
  | .ok c =>
    match s.execute c with
    | (.ok outcome, s) => (outcome.response, s)
    | (.error e, s) => (.ofError e, s)

end Service

end RelStore
