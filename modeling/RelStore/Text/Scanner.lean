/-! Scanners take something off the front of a text or say what they did not find there. -/
namespace RelStore.Text

inductive FaultKind where
  | takeWhile1
  | takeTill1
  | many0
  deriving DecidableEq

def FaultKind.code : FaultKind → String
  | .takeWhile1 => "TakeWhile1"
  | .takeTill1 => "TakeTill1"
  | .many0 => "Many0"

/-- Which scanner stopped, and the text in front of it. -/
structure Fault where
  rest : List Char
  kind : FaultKind
  deriving DecidableEq

def escaped : Char → String
  | '\x00' => "\\0"
  | '\t' => "\\t"
  | '\n' => "\\n"
  | '\r' => "\\r"
  | '"' => "\\\""
  | '\\' => "\\\\"
  | c => c.toString

def Fault.shown (f : Fault) : String :=
  "Parsing Error: Error \x7b input: \"" ++ String.join (f.rest.map escaped) ++ "\", code: " ++
    f.kind.code ++ " \x7d"

abbrev Scanner (α : Type) := List Char → Except Fault (α × List Char)

namespace Scanner

variable {α β : Type}

/-- The longest run that `p` accepts, unless that is empty. -/
def run (kind : FaultKind) (p : Char → Bool) : Scanner (List Char) := fun s =>
  if s.takeWhile p = [] then .error ⟨s, kind⟩ else .ok (s.takeWhile p, s.dropWhile p)

def takeWhile1 (p : Char → Bool) : Scanner (List Char) := run .takeWhile1 p

def takeTill1 (p : Char → Bool) : Scanner (List Char) := run .takeTill1 fun c => !p c

def opt (x : Scanner α) : Scanner (Option α) := fun s =>
  match x s with
  | .ok (a, rest) => .ok (some a, rest)
  | .error _ => .ok (none, s)

def preceded (x : Scanner α) (y : Scanner β) : Scanner β := fun s => do
  let (_, rest) ← x s
  y rest

/-- As often as `x` succeeds. A scanner that takes nothing off would succeed forever. -/
def many (x : Scanner α) (s : List Char) : Except Fault (List α × List Char) :=
  match x s with
  | .error _ => .ok ([], s)
  | .ok (a, rest) =>
    if rest.length < s.length then do
      let (as, rest) ← many x rest
      return (a :: as, rest)
    else .error ⟨s, .many0⟩
termination_by s.length

end Scanner

end RelStore.Text
