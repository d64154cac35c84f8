/-! Decimal numerals: digit runs, signed integers and their text. -/

-- Powers of naturals and integers are the core library's, whatever else is imported.
attribute [instance (high), default_instance 20000] instPowNat

namespace RelStore.Text

def isDigit (c : Char) : Bool := '0' ≤ c && c ≤ '9'

def digitValue (c : Char) : Nat := c.toNat - '0'.toNat

/-- The number that a run of digits writes, appended to the digits of `start`. -/
def digitsValue (start : Nat) (ds : List Char) : Nat :=
  ds.foldl (fun n c => 10 * n + digitValue c) start

def readNat (s : List Char) : Option Nat :=
  if s ≠ [] && s.all isDigit then some (digitsValue 0 s) else none

/-- The sign in front of a numeral, `true` for minus, and the rest. -/
def splitSign : List Char → Bool × List Char
  | '-' :: rest => (true, rest)
  | '+' :: rest => (false, rest)
  | s => (false, s)

def readInt (s : List Char) : Option Int :=
  let (negative, ds) := splitSign s
  (readNat ds).map fun n => if negative then -(n : Int) else n

def natDigits (n : Nat) : List Char := Nat.toDigits 10 n

def intText : Int → List Char
  | .ofNat n => natDigits n
  | .negSucc n => '-' :: natDigits (n + 1)

def paddedDigits (width n : Nat) : List Char :=
  let ds := natDigits n
  List.replicate (width - ds.length) '0' ++ ds

end RelStore.Text
