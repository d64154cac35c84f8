import RelStore.Binary64.Decimal
/-! JSON values as their text gives them. A number keeps its digits, so that it can be read as an
integer or as a binary64 number, and a string whose escapes leave a surrogate unpaired has no
text. -/
namespace RelStore

namespace Json

structure Number where
  negative : Bool
  whole : List Char
  fraction : Option (List Char)
  /-- Whether the exponent is negative, and its digits. -/
  exponent : Option (Bool × List Char)
  deriving DecidableEq

end Json

inductive Json where
  | null
  | bool (b : Bool)
  | number (n : Json.Number)
  | string (text : Option String)
  | array (items : List Json)
  | object (fields : List (Option String × Json))

end RelStore
