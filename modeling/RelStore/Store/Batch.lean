import RelStore.Error
import RelStore.Store.Basic
import RelStore.Value.Literal
/-! Batches of writes to one database. Each write is logged with what it replaced, so that a batch
which fails half-way can be taken back. -/
namespace RelStore

inductive WriteOp where
  | insert (collection : String) (doc : Document)
  | delete (collection : String) (id : Value)
  | push (collection : String) (id value : Value)
  | pull (collection : String) (id value : Value)
  deriving DecidableEq

namespace WriteOp

def collection : WriteOp → String
  | .insert c _ | .delete c _ | .push c _ _ | .pull c _ _ => c

def key : WriteOp → Value
  | .insert _ d => d.id
  | .delete _ id | .push _ id _ | .pull _ id _ => id

def editRowIds (c : Collection) (name : String) (id : Value) (f : List Value → List Value) :
    Except Error Collection :=
  match c.find? id with
  | some (.rowIds ids) => .ok (c.insert id (.rowIds (f ids)))
  | _ => .error (.storage
      ("no index entry " ++ Error.quoted id.text ++ " in collection " ++ Error.quoted name))

/-- The collection after a write; a write that fails leaves it alone. -/
def run (op : WriteOp) (c : Collection) : Except Error Collection :=
  match op with
  | .insert name d =>
    if c.contains d.id then .error (.duplicateKey name d.id.text) else .ok (c.insert d.id d.payload)
  | .delete _ id => .ok (c.erase id)
  | .push name id v => editRowIds c name id (· ++ [v])
  | .pull name id v => editRowIds c name id fun ids => ids.filter (· ≠ v)

end WriteOp

inductive Undo where
  | removeCollection (name : String)
  | restore (collection : String) (id : Value) (prior : Option Payload)

namespace Undo

def run (u : Undo) (d : Collections) : Collections :=
  match u with
  | .removeCollection name => d.erase name
  | .restore name id prior =>
    match d.find? name with
    | none => d
    | some c =>
      d.insert name (match prior with
        | some p => c.insert id p
        | none => c.erase id)

end Undo

namespace Batch

structure Progress where
  collections : Collections
  /-- The latest effect comes first. -/
  log : List Undo
  failure : Option Error

def openCollection (d : Collections) (log : List Undo) (name : String) : Collections × List Undo :=
  if d.contains name then (d, log) else (d.insert name ∅, .removeCollection name :: log)

def run (d : Collections) (log : List Undo) : List WriteOp → Progress
  | [] => ⟨d, log, none⟩
  | op :: ops =>
    let (d, log) := openCollection d log op.collection
    let c := (d.find? op.collection).getD ∅
    let log := .restore op.collection op.key (c.find? op.key) :: log
    match op.run c with
    | .ok c => run (d.insert op.collection c) log ops
    | .error e => ⟨d, log, some e⟩

def rollback (log : List Undo) (d : Collections) : Collections := log.foldl (fun d u => u.run d) d

end Batch

end RelStore
