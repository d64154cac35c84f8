import RelStore.Json.Number
/-! Taking JSON values apart. -/
namespace RelStore.Json

def text? : Json → Option String
  | .string s => s
  | _ => none

def bool? : Json → Option Bool
  | .bool b => some b
  | _ => none

def items? : Json → Option (List Json)
  | .array items => some items
  | _ => none

def numeric? : Json → Option Numeric
  | .number n => n.value?
  | _ => none

def int? (j : Json) : Option Int :=
  match j.numeric? with
  | some (.int i) => some i
  | _ => none

def nat? (j : Json) : Option Nat := j.int?.bind fun i => if 0 ≤ i then some i.toNat else none

/-- An integer is a float, too. -/
def float? (j : Json) : Option Binary64 :=
  match j.numeric? with
  | some (.int i) => some (.ofMagnitude (i < 0) (Binary64.nearest i.natAbs 1))
  | some (.float x) => some x
  | none => none

/-- The fields of an object, all of whose names are text. -/
def named? : Json → Option (List (String × Json))
  | .object fields => fields.mapM fun f => f.1.map fun key => (key, f.2)
  | _ => none

/-- The values of a record with the given field names: an array of just these, or an object with
each of them once, whatever else it holds. -/
def record? (names : List String) : Json → Option (List Json)
  | .array items => if items.length = names.length then some items else none
  | j => do
    let fields ← j.named?
    names.mapM fun name =>
      match fields.filter fun f => f.1 = name with
      | [(_, v)] => some v
      | _ => none

def variant? (j : Json) : Option (String × Json) := do
  match ← j.named? with
  | [field] => some field
  | _ => none

def ofText (s : String) : Json := .string (some s)

def ofNat (n : Nat) : Json := .number (.ofInt n)

def ofFields (fields : List (String × Json)) : Json :=
  .object (fields.map fun f => (some f.1, f.2))

mutual

/-- Numbers are in range, strings are text and values nest to no more than `depth` levels. -/
def sound (depth : Nat) : Json → Bool
  | .null => true
  | .bool _ => true
  | .number n => n.value?.isSome
  | .string s => s.isSome
  | .array items => 0 < depth && soundItems (depth - 1) items
  | .object fields => 0 < depth && soundFields (depth - 1) fields

def soundItems (depth : Nat) : List Json → Bool
  | [] => true
  | item :: items => sound depth item && soundItems depth items

def soundFields (depth : Nat) : List (Option String × Json) → Bool
  | [] => true
  | (key, value) :: fields => key.isSome && sound depth value && soundFields depth fields

end

end RelStore.Json
