import RelStore.Client
import RelStore.CommandLine.Statement
import RelStore.Text.Erase
/-! The command line client: it checks each line, sends the command and shows the answer. -/
namespace RelStore

/-- The text of a result table. Columns are as wide as their widest cell in bytes, while cells are
filled up by characters. -/
structure TableText where
  columns : List String
  rows : List (List String)

namespace TableText

def widths (t : TableText) : List Nat :=
  t.rows.foldl
    (fun ws row => ws.mapIdx fun i w =>
      match row[i]? with
      | some cell => max w cell.utf8ByteSize
      | none => w)
    (t.columns.map fun c => c.utf8ByteSize)

def blanks (n : Nat) : String := String.ofList (List.replicate n ' ')

def dashes (n : Nat) : String := String.ofList (List.replicate n '-')

def centre (width : Nat) (s : String) : String :=
  let free := width - s.length
  blanks (free / 2) ++ s ++ blanks (free - free / 2)

def alignLeft (width : Nat) (s : String) : String := s ++ blanks (width - s.length)

def rule (ws : List Nat) : String :=
  "+" ++ String.intercalate "+" (ws.map fun w => dashes (w + 2)) ++ "+\n"

def line (align : Nat → String → String) (cells : List String) (ws : List Nat) : String :=
  "|" ++ String.intercalate "|" ((cells.zip ws).map fun p => " " ++ align p.2 p.1 ++ " ") ++ "|\n"

def render (t : TableText) : String :=
  let ws := t.widths
  rule ws ++ line centre t.columns ws ++ rule ws ++
    String.join (t.rows.map fun row => line alignLeft row ws) ++
    (if t.rows.isEmpty then "" else rule ws) ++
    toString t.rows.length ++ " row(s) returned\n"

end TableText

/-- The selected database as the client knows it, and what was printed so far. -/
structure Console where
  current : Option String
  out : String
  err : String

namespace Console

variable {σ : Type}

def fresh : Console := ⟨none, "", ""⟩

def prompt (c : Console) : String := c.current.getD "none" ++ "> "

def print (c : Console) (s : String) : Console := { c with out := c.out ++ s }

def report (c : Console) (s : String) : Console := { c with err := c.err ++ s ++ "\n" }

def follow (c : Console) : Command → Console
  | .useDatabase n => { c with current := some n }
  | .dropDatabase n => if c.current = some n then { c with current := none } else c
  | _ => c

def showAnswer (c : Console) (command : Command) : Except Error Response → Console
  | .ok .done => c.follow command
  | .ok (.table columns rows) => c.print (TableText.mk columns rows).render
  | .ok (.error errorClass message) => c.report ("Error. " ++ errorClass.name ++ ": " ++ message)
  | .error e => c.report ("Error. " ++ e.message)

def runLine (net : Network) (peer : Peer σ) (c : Console) (s : σ) (line : String) :
    Option (Console × σ) :=
  match CommandLine.parseLine line with
  | .error e => some (c.report ("Error. Wrong input: " ++ e.message), s)
  | .ok none => some (c, s)
  | .ok (some .exit) => none
  | .ok (some (.command command)) =>
    let (answer, s) := Client.send net peer command s
    some (c.showAnswer command answer, s)

/-- Prompts for each line, and once more at the end of the input. -/
def run (net : Network) (peer : Peer σ) (c : Console) (s : σ) : List String → Console × σ
  | [] => (c.print c.prompt, s)
  | line :: rest =>
    let c := c.print c.prompt
    match runLine net peer c s line with
    | none => (c, s)
    | some (c, s) => run net peer c s rest

/-- The lines of an input without their ends, a line feed with or without a carriage return, and
after their backspaces. Text after the last line feed is a line of its own. -/
def inputLines (input : String) : List String :=
  let pieces := Text.splitFields '\n' input.toList
  let last := pieces.getLast?.getD []
  let ended := pieces.dropLast.map fun l => if l.getLast? = some '\r' then l.dropLast else l
  (if last = [] then ended else ended ++ [last]).map fun l => String.ofList (Text.applyBackspaces l)

end Console

end RelStore
