import RelStore.Comparison
import RelStore.OrdMap
/-! Collections of keyed documents. A document holds the text of a table row or, in an index, the
ids of the rows that share a value. -/
namespace RelStore

inductive Payload where
  | blob (text : String)
  | rowIds (ids : List Value)
  deriving DecidableEq

namespace Payload

def rowIds? : Payload → Option (List Value)
  | .rowIds ids => some ids
  | .blob _ => none

end Payload

structure Document where
  id : Value
  payload : Payload
  deriving DecidableEq

abbrev Collection := OrdMap Value Payload

abbrev Collections := OrdMap String Collection

abbrev Content := OrdMap String Collections

inductive KeyFilter where
  | all
  | compared (op : Operator) (v : Value)
  | among (vs : List Value)
  deriving DecidableEq

namespace KeyFilter

def admits (key : Value) : KeyFilter → Bool
  | .all => true
  | .compared op v => op.holds key v
  | .among vs => decide (key ∈ vs)

/-- The range of keys that a filter admits, if they make up a single one. -/
def bounds : KeyFilter → Option (OrdMap.Bound Value × OrdMap.Bound Value)
  | .all => some (.unbounded, .unbounded)
  | .compared .eq v => some (.included v, .included v)
  | .compared .lt v => some (.unbounded, .excluded v)
  | .compared .gt v => some (.excluded v, .unbounded)
  | .compared .le v => some (.unbounded, .included v)
  | .compared .ge v => some (.included v, .unbounded)
  | .compared .ne _ => none
  | .among _ => none

end KeyFilter

def Collection.documents (bindings : List (Value × Payload)) : List Document :=
  bindings.map fun b => ⟨b.1, b.2⟩

/-- The documents whose key a filter admits, in key order: by ranges of keys, or key by key. -/
def Collection.scan (c : Collection) (f : KeyFilter) : List Document :=
  Collection.documents <|
    match f with
    | .among ks =>
      (OrdSet.ofList ks).keys.filterMap fun k => (c.find? k).map fun p => (k, p)
    | .compared .ne v => c.range .unbounded (.excluded v) ++ c.range (.excluded v) .unbounded
    | f =>
      match f.bounds with
      | some (lower, upper) => c.range lower upper
      | none => []

namespace Content

def collection? (c : Content) (db name : String) : Option Collection :=
  (c.find? db).bind fun d => d.find? name

def databases (c : Content) : List String :=
  (c.bindings.filter fun b => !b.2.isEmpty).map (·.1)

def collections (c : Content) (db : String) : List String :=
  match c.find? db with
  | some d => d.keys
  | none => []

/-- A missing collection has no documents. -/
def find (c : Content) (db name : String) (f : KeyFilter) : List Document :=
  match c.collection? db name with
  | some coll => coll.scan f
  | none => []

def findOne (c : Content) (db name : String) (id : Value) : Option Document :=
  (c.collection? db name).bind fun coll => (coll.find? id).map fun p => ⟨id, p⟩

def count (c : Content) (db name : String) : Nat :=
  match c.collection? db name with
  | some coll => coll.size
  | none => 0

end Content

end RelStore
