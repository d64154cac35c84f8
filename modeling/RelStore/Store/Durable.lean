import RelStore.Store.Batch
import RelStore.Store.Snapshot
/-! The document store. With a snapshot path, the whole content is written there after each
successful change. Saving may fail; which of the coming saves do is part of the state. A failed
save leaves the snapshot as it was. -/
namespace RelStore

inductive Slot where
  | vacant
  | file (text : String)
  | folder
  deriving DecidableEq

structure Medium where
  slot : Slot
  /-- For each of the next saves, whether it fails; later ones do not. -/
  outages : List Bool
  deriving DecidableEq

structure Store where
  content : Content
  /-- None for a store that lives in memory only. -/
  medium : Option Medium
  deriving DecidableEq

/-- Writes go to a file beside the snapshot that then takes its place; a folder cannot be replaced
in this way. -/
def Medium.save (m : Medium) (text : String) : Except Error Unit × Medium :=
  match m.outages, m.slot with
  | true :: rest, _ => (.error (.io "snapshot not written"), { m with outages := rest })
  | outages, .folder => (.error (.io "Is a directory"), { m with outages := outages.drop 1 })
  | outages, _ => (.ok (), ⟨.file text, outages.drop 1⟩)

namespace Store

def inMemory : Store := ⟨∅, none⟩

def load (m : Medium) : Except Error Content :=
  match m.slot with
  | .vacant => .ok ∅
  | .folder => .error (.io "Is a directory")
  | .file text =>
    match Snapshot.read? text with
    | some c => .ok c
    | none => .error (.serialization "snapshot is not valid")

def openAt (m : Medium) : Except Error Store := (load m).map fun c => ⟨c, some m⟩

def save : Step Store Unit := fun s =>
  match s.medium with
  | none => (.ok (), s)
  | some m =>
    let (result, m) := m.save (Snapshot.write s.content)
    (result, { s with medium := some m })

def setContent (f : Content → Content) : Step Store Unit :=
  modify fun s => { s with content := f s.content }

def getContent : Step Store Content := return (← get).content

def createCollection (db name : String) : Step Store Unit := do
  let d := ((← getContent).find? db).getD ∅
  if d.contains name then return
  setContent (·.insert db (d.insert name ∅))
  save

/-- A database without collections is removed as well. Returns whether the collection was there. -/
def dropCollection (db name : String) : Step Store Bool := do
  match (← getContent).find? db with
  | none => return false
  | some d =>
    let rest := d.erase name
    setContent fun c => if rest.isEmpty then c.erase db else c.insert db rest
    if d.contains name then
      save
      return true
    else return false

def dropDatabase (db : String) : Step Store Unit := do
  if (← getContent).contains db then
    setContent (·.erase db)
    save

def apply (db : String) (ops : List WriteOp) : Step Store Unit := do
  if ops.isEmpty then return
  let existing := (← getContent).find? db
  let batch := Batch.run (existing.getD ∅) [] ops
  setContent (·.insert db batch.collections)
  tryCatch
    (match batch.failure with
      | none => save
      | some e => throw e)
    fun e => do
      setContent fun c =>
        if existing.isSome then c.insert db (Batch.rollback batch.log batch.collections)
        else c.erase db
      throw e

end Store

end RelStore
