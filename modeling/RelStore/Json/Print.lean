import RelStore.Json.Number
/-! JSON text, compact or with one item a line. -/
namespace RelStore.Json

def hexDigit (n : Nat) : Char := Nat.digitChar n

def escape (c : Char) : List Char :=
  match c with
  | '"' => ['\\', '"']
  | '\\' => ['\\', '\\']
  | '\n' => ['\\', 'n']
  | '\t' => ['\\', 't']
  | '\r' => ['\\', 'r']
  | '\x08' => ['\\', 'b']
  | '\x0c' => ['\\', 'f']
  | c =>
    if c.toNat < 0x20 then
      ['\\', 'u', '0', '0', hexDigit (c.toNat / 16), hexDigit (c.toNat % 16)]
    else [c]

def quote (s : String) : List Char := '"' :: s.toList.flatMap escape ++ ['"']

/-- A string without text is written as an empty one. -/
def stringText (s : Option String) : List Char := quote (s.getD "")

mutual

def compact : Json → List Char
  | .null => "null".toList
  | .bool true => "true".toList
  | .bool false => "false".toList
  | .number n => n.text
  | .string s => stringText s
  | .array items => '[' :: compactItems items ++ [']']
  | .object fields => '{' :: compactFields fields ++ ['}']

def compactItems : List Json → List Char
  | [] => []
  | [item] => compact item
  | item :: items => compact item ++ ',' :: compactItems items

def compactFields : List (Option String × Json) → List Char
  | [] => []
  | [(key, value)] => stringText key ++ ':' :: compact value
  | (key, value) :: fields => stringText key ++ ':' :: compact value ++ ',' :: compactFields fields

end

def newline (level : Nat) : List Char := '\n' :: List.replicate (2 * level) ' '

mutual

def pretty (level : Nat) : Json → List Char
  | .array [] => ['[', ']']
  | .array items =>
    '[' :: newline (level + 1) ++ prettyItems (level + 1) items ++ newline level ++ [']']
  | .object [] => ['{', '}']
  | .object fields =>
    '{' :: newline (level + 1) ++ prettyFields (level + 1) fields ++ newline level ++ ['}']
  | .null => "null".toList
  | .bool true => "true".toList
  | .bool false => "false".toList
  | .number n => n.text
  | .string s => stringText s

def prettyItems (level : Nat) : List Json → List Char
  | [] => []
  | [item] => pretty level item
  | item :: items => pretty level item ++ ',' :: newline level ++ prettyItems level items

def prettyFields (level : Nat) : List (Option String × Json) → List Char
  | [] => []
  | [(key, value)] => stringText key ++ ':' :: ' ' :: pretty level value
  | (key, value) :: fields =>
    stringText key ++ ':' :: ' ' :: pretty level value ++ ',' :: newline level ++
      prettyFields level fields

end

end RelStore.Json
