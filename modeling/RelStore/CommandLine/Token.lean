import RelStore.Error
import RelStore.Text.Blank
import RelStore.Text.Scanner
import RelStore.Wire.Keyword
/-! The tokens of a command line: its pieces between separators without the quotes around them, and
one token for the end. A keyword keeps the text it was typed as, so that it can stand for a value. -/
namespace RelStore.CommandLine

inductive Token where
  | keyword (k : Keyword) (text : String)
  | word (text : String)
  | ending
  deriving DecidableEq

def isSeparator (c : Char) : Bool :=
  Text.isBlank c || c = ',' || c = '(' || c = ')' || c = ';'

def isQuote (c : Char) : Bool := c = '\'' || c = '"'

namespace Token

/-- Nothing but quotes is an empty word. -/
def ofPiece (piece : List Char) : Token :=
  let s := Text.trimWhile isQuote piece
  let text := String.ofList s
  match Keyword.ofWord? (String.ofList (Keyword.lower s)) with
  | some k => .keyword k text
  | none => .word text

def text : Token → String
  | .keyword _ text => text
  | .word text => text
  | .ending => ""

def shown : Token → String
  | .keyword k _ => k.title
  | .word text => text
  | .ending => "end of input"

def keyword? : Token → Option Keyword
  | .keyword k _ => some k
  | _ => none

end Token

/-- The tokens of a line as its pieces tell them. -/
def tokenize (line : String) : List Token :=
  (Text.pieces isSeparator line.toList).map Token.ofPiece ++ [.ending]

section Scanning

open Text (Scanner)

def separators : Scanner (List Char) := .takeWhile1 isSeparator

def piece : Scanner (List Char) := .takeTill1 isSeparator

def scan : Scanner (List (List Char)) := fun s => do
  let (found, rest) ← Scanner.many (Scanner.preceded (Scanner.opt separators) piece) s
  let (_, rest) ← Scanner.opt separators rest
  return (found, rest)

/-- The same tokens as scanners find them, one piece after another; a scanner may fail, or leave some
of the line unread. -/
def readTokens (line : String) : Except Error (List Token) :=
  match scan line.toList with
  | .error fault => .error (.protocol ("cannot tokenize input: " ++ fault.shown))
  | .ok (found, []) => .ok (found.map Token.ofPiece ++ [.ending])
  | .ok (_, rest) =>
    .error (.protocol ("unexpected input near " ++ Error.quoted (String.ofList rest)))

end Scanning

end RelStore.CommandLine
