import RelStore.Json.Decode
import RelStore.Json.Print
import RelStore.Json.Read
import RelStore.Store.Basic
import RelStore.Value.Literal
/-! The store as one JSON text. Keys are typed, so a collection is written as a list of documents. -/
namespace RelStore.Snapshot

def valueJson : Value → Json
  | .int i => .ofFields [("Int", .number (.ofInt i.toInt))]
  | .float x => .ofFields [("Float", .ofBinary64 x)]
  | .bit b => .ofFields [("Bit", .bool b)]
  | .date d => .ofFields [("Date", .ofText (String.ofList (CalendarFormat.dateText d)))]
  | .dateTime t =>
    .ofFields [("DateTime", .ofText (String.ofList (CalendarFormat.iso.dateTimeText t)))]
  | .string s => .ofFields [("String", .ofText s)]

def payloadJson : Payload → Json
  | .blob s => .ofFields [("Blob", .ofText s)]
  | .rowIds ids => .ofFields [("RowIds", .array (ids.map valueJson))]

def documentJson (id : Value) (p : Payload) : Json :=
  .ofFields [("id", valueJson id), ("payload", payloadJson p)]

def collectionJson (c : Collection) : Json := .array (c.bindings.map fun b => documentJson b.1 b.2)

def contentJson (c : Content) : Json :=
  .ofFields [("databases", .ofFields (c.bindings.map fun b =>
    (b.1, .ofFields (b.2.bindings.map fun b => (b.1, collectionJson b.2)))))]

def value? (j : Json) : Option Value := do
  let (type, j) ← j.variant?
  match type with
  | "Int" =>
    let i ← j.int?
    if Int64.minValue.toInt ≤ i ∧ i ≤ Int64.maxValue.toInt then some (.int (.ofInt i)) else none
  | "Float" => j.float?.map .float
  | "Bit" => j.bool?.map .bit
  | "Date" => (← j.text?.map fun s => CalendarFormat.iso.readDate s.toList).map .date
  | "DateTime" => (← j.text?.map fun s => CalendarFormat.iso.readDateTime s.toList).map .dateTime
  | "String" => j.text?.map .string
  | _ => none

def payload? (j : Json) : Option Payload := do
  let (kind, j) ← j.variant?
  match kind with
  | "Blob" => j.text?.map .blob
  | "RowIds" => ((← j.items?).mapM value?).map .rowIds
  | _ => none

def document? (j : Json) : Option (Value × Payload) := do
  match ← j.record? ["id", "payload"] with
  | [id, payload] => return (← value? id, ← payload? payload)
  | _ => none

/-- Of several documents with one id the last one stays. -/
def collection? (j : Json) : Option Collection :=
  (j.items?.bind fun items => items.mapM document?).map OrdMap.ofList

def collections? (j : Json) : Option Collections := do
  let fields ← j.named?
  return OrdMap.ofList (← fields.mapM fun f => (collection? f.2).map fun c => (f.1, c))

def content? (j : Json) : Option Content := do
  match ← j.record? ["databases"] with
  | [databases] =>
    let fields ← databases.named?
    return OrdMap.ofList (← fields.mapM fun f => (collections? f.2).map fun d => (f.1, d))
  | _ => none

def write (c : Content) : String := String.ofList (contentJson c).compact

def read? (s : String) : Option Content := (Json.read? s.toList).bind content?

end RelStore.Snapshot
