import RelStore.Binary64.Decimal
/-! Binary64 numbers as literals: digits with an optional sign, point and exponent. The written
form never has an exponent. Words such as `inf` are text of a number but no literal. -/
namespace RelStore

namespace Decimal

/-- From here on the digits of an exponent are no longer counted. -/
def exponentLimit : Nat := 0x10000

/-- What the digits of an exponent are taken for, appended to those of `start`: the number they write,
if it is less than ten times the limit, and otherwise one from the limit on. -/
def exponentValue (start : Nat) (ds : List Char) : Nat :=
  ds.foldl (fun n c => if n < exponentLimit then 10 * n + Text.digitValue c else n) start

def readExponent : List Char → Option Int
  | [] => some 0
  | c :: rest =>
    if c = 'e' || c = 'E' then
      let (negative, ds) := Text.splitSign rest
      if ds ≠ [] && ds.all Text.isDigit then
        let n := exponentValue 0 ds
        some (if negative then -(n : Int) else n)
      else none
    else none

def splitFraction : List Char → List Char × List Char
  | '.' :: rest => (rest.takeWhile Text.isDigit, rest.dropWhile Text.isDigit)
  | s => ([], s)

def read? (s : List Char) : Option Decimal :=
  let whole := s.takeWhile Text.isDigit
  let (fraction, rest) := splitFraction (s.dropWhile Text.isDigit)
  if whole.isEmpty && fraction.isEmpty then none
  else (readExponent rest).map fun e => ⟨Text.digitsValue 0 (whole ++ fraction), e - fraction.length⟩

end Decimal

namespace Binary64

/-- The two zeros are one number: the negative one is read as the other. -/
def unsignZero (x : Binary64) : Binary64 := if x.magnitude = 0 then zero else x

/-- Reads a literal; numbers too large to be finite have none. -/
def ofLiteral? (s : List Char) : Option Binary64 :=
  let (negative, s) := Text.splitSign s
  (Decimal.read? s).bind fun d =>
    let m := d.magnitude
    if m < infinity then some (ofMagnitude negative m).unsignZero else none

def text (x : Binary64) : List Char :=
  if x.isNaN then "NaN".toList
  else
    let sign := if x.negative then ['-'] else []
    if x.isFinite then sign ++ (Decimal.shortest .up x.magnitude).positional
    else sign ++ "inf".toList

end Binary64

end RelStore
