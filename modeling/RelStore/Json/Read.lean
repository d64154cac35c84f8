import RelStore.Json.Basic
/-! Reading JSON text, in two steps: the tokens of the text, then the one value they make up. -/
namespace RelStore.Json

inductive Token where
  | openArray
  | closeArray
  | openObject
  | closeObject
  | comma
  | colon
  | null
  | bool (b : Bool)
  | number (n : Number)
  | string (text : Option String)

inductive StringUnit where
  | char (c : Char)
  | escaped (n : Nat)

def isHighSurrogate (n : Nat) : Bool := 0xD800 ≤ n && n < 0xDC00

def isLowSurrogate (n : Nat) : Bool := 0xDC00 ≤ n && n < 0xE000

/-- Joins surrogate pairs; none if a surrogate stays alone. -/
def StringUnit.chars : List StringUnit → Option (List Char)
  | [] => some []
  | .char c :: rest => (chars rest).map (c :: ·)
  | .escaped hi :: .escaped lo :: rest =>
    if isHighSurrogate hi then
      if isLowSurrogate lo then
        (chars rest).map (Char.ofNat (0x10000 + (hi - 0xD800) * 0x400 + (lo - 0xDC00)) :: ·)
      else none
    else if isLowSurrogate hi then none
    else (chars (.escaped lo :: rest)).map (Char.ofNat hi :: ·)
  | .escaped n :: rest =>
    if isHighSurrogate n || isLowSurrogate n then none
    else (chars rest).map (Char.ofNat n :: ·)

def hexValue (c : Char) : Option Nat :=
  if '0' ≤ c && c ≤ '9' then some (c.toNat - '0'.toNat)
  else if 'a' ≤ c && c ≤ 'f' then some (c.toNat - 'a'.toNat + 10)
  else if 'A' ≤ c && c ≤ 'F' then some (c.toNat - 'A'.toNat + 10)
  else none

def simpleEscape (c : Char) : Option Char :=
  match c with
  | '"' => some '"'
  | '\\' => some '\\'
  | '/' => some '/'
  | 'b' => some '\x08'
  | 'f' => some '\x0c'
  | 'n' => some '\n'
  | 'r' => some '\r'
  | 't' => some '\t'
  | _ => none

/-- The units of a string up to its closing quote, and what follows the quote. -/
def stringBody : List Char → Option (List StringUnit × List Char)
  | [] => none
  | '"' :: rest => some ([], rest)
  | '\\' :: 'u' :: a :: b :: c :: d :: rest => do
    let n := (← hexValue a) * 0x1000 + (← hexValue b) * 0x100 + (← hexValue c) * 0x10 +
      (← hexValue d)
    let (units, rest) ← stringBody rest
    return (.escaped n :: units, rest)
  | '\\' :: c :: rest => do
    let c ← simpleEscape c
    let (units, rest) ← stringBody rest
    return (.char c :: units, rest)
  | c :: rest =>
    if c.toNat < 0x20 || c = '\\' then none
    else (stringBody rest).map fun (units, rest) => (.char c :: units, rest)

def takeDigits (s : List Char) : List Char × List Char :=
  (s.takeWhile Text.isDigit, s.dropWhile Text.isDigit)

def Number.takeFraction (s : List Char) : Option (Option (List Char) × List Char) :=
  match s with
  | '.' :: rest =>
    match takeDigits rest with
    | ([], _) => none
    | (ds, rest) => some (some ds, rest)
  | _ => some (none, s)

def Number.takeExponent (s : List Char) : Option (Option (Bool × List Char) × List Char) :=
  match s with
  | c :: rest =>
    if c = 'e' || c = 'E' then
      let (down, rest) := Text.splitSign rest
      match takeDigits rest with
      | ([], _) => none
      | (ds, rest) => some (some (down, ds), rest)
    else some (none, s)
  | [] => some (none, s)

/-- A numeral at the front; its integer part has no needless zero. -/
def Number.take (s : List Char) : Option (Number × List Char) := do
  let (negative, s) :=
    match s with
    | '-' :: rest => (true, rest)
    | _ => (false, s)
  let (whole, s) := takeDigits s
  if whole = [] || (whole.head? = some '0' && 1 < whole.length) then none
  let (fraction, s) ← takeFraction s
  let (exponent, s) ← takeExponent s
  return (⟨negative, whole, fraction, exponent⟩, s)

def isSpace (c : Char) : Bool := c = ' ' || c = '\n' || c = '\t' || c = '\r'

def takeWord (word : List Char) (token : Token) (s : List Char) : Option (Token × List Char) :=
  if word.isPrefixOf s then some (token, s.drop word.length) else none

def takeToken (c : Char) (rest : List Char) : Option (Token × List Char) :=
  match c with
  | '[' => some (.openArray, rest)
  | ']' => some (.closeArray, rest)
  | '\x7b' => some (.openObject, rest)
  | '\x7d' => some (.closeObject, rest)
  | ',' => some (.comma, rest)
  | ':' => some (.colon, rest)
  | 'n' => takeWord "ull".toList .null rest
  | 't' => takeWord "rue".toList (.bool true) rest
  | 'f' => takeWord "alse".toList (.bool false) rest
  | '"' =>
    (stringBody rest).map fun (units, rest) =>
      (.string ((StringUnit.chars units).map String.ofList), rest)
  | c => (Number.take (c :: rest)).map fun (n, rest) => (.number n, rest)

/-- The tokens of a text; each takes a character at least, so its length bounds their number. -/
def tokens : Nat → List Char → Option (List Token)
  | _, [] => some []
  | 0, _ :: _ => none
  | fuel + 1, c :: rest =>
    if isSpace c then tokens fuel rest
    else do
      let (token, rest) ← takeToken c rest
      let more ← tokens fuel rest
      return token :: more

mutual

def value : Nat → List Token → Option (Json × List Token)
  | 0, _ => none
  | _ + 1, .null :: rest => some (.null, rest)
  | _ + 1, .bool b :: rest => some (.bool b, rest)
  | _ + 1, .number n :: rest => some (.number n, rest)
  | _ + 1, .string s :: rest => some (.string s, rest)
  | _ + 1, .openArray :: .closeArray :: rest => some (.array [], rest)
  | fuel + 1, .openArray :: rest =>
    (items fuel rest).map fun (vs, rest) => (.array vs, rest)
  | _ + 1, .openObject :: .closeObject :: rest => some (.object [], rest)
  | fuel + 1, .openObject :: rest =>
    (fields fuel rest).map fun (fs, rest) => (.object fs, rest)
  | _ + 1, _ => none

def items : Nat → List Token → Option (List Json × List Token)
  | 0, _ => none
  | fuel + 1, ts =>
    match value fuel ts with
    | some (v, .closeArray :: rest) => some ([v], rest)
    | some (v, .comma :: rest) => (items fuel rest).map fun (vs, rest) => (v :: vs, rest)
    | _ => none

def fields : Nat → List Token → Option (List (Option String × Json) × List Token)
  | 0, _ => none
  | fuel + 1, .string key :: .colon :: ts =>
    match value fuel ts with
    | some (v, .closeObject :: rest) => some ([(key, v)], rest)
    | some (v, .comma :: rest) => (fields fuel rest).map fun (fs, rest) => ((key, v) :: fs, rest)
    | _ => none
  | _ + 1, _ => none

end

def read? (s : List Char) : Option Json := do
  let ts ← tokens s.length s
  match value ts.length ts with
  | some (v, []) => some v
  | _ => none

end RelStore.Json
