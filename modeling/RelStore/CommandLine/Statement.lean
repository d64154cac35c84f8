import RelStore.CommandLine.Token
import RelStore.Error
import RelStore.Row
/-! Statements on a command line. A line that has none of the known forms is refused, and so is a
value that could not be told apart in a request. -/
namespace RelStore.CommandLine

inductive Statement where
  | exit
  | command (c : Command)
  deriving DecidableEq

def current : List Token → Token
  | [] => .ending
  | t :: _ => t

def atEnd (ts : List Token) : Bool := current ts = .ending

def starts (k : Keyword) (ts : List Token) : Bool := (current ts).keyword? = some k

def unexpected (expected : String) (t : Token) : Error := .unexpectedToken expected t.shown

def expect (k : Keyword) (ts : List Token) : Except Error (List Token) :=
  if starts k ts then .ok ts.tail else .error (unexpected k.title (current ts))

def nameOf : Token → Except Error String
  | .word name => (checkName name).map fun _ => name
  | .ending => .error (.unexpectedEnd "a name")
  | t => .error (unexpected "a name" t)

def name (ts : List Token) : Except Error (String × List Token) :=
  (nameOf (current ts)).map fun n => (n, ts.tail)

/-- Any token but the end is a value, also one that spells a keyword. -/
def literal (ts : List Token) : Except Error (String × List Token) :=
  if atEnd ts then .error (.unexpectedEnd "a value") else .ok ((current ts).text, ts.tail)

def emptyValue : Error :=
  .protocol "an empty value is only allowed among several INSERT values"

def rejectJoin (ts : List Token) : Except Error Unit :=
  match current ts with
  | .word w => if isJoin w.toList then .error (.protocol "joins are not supported") else .ok ()
  | _ => .ok ()

def columnList (table : String) (seen : List String) :
    List Token → Except Error (List (String × ColumnType))
  | [] => .ok []
  | .ending :: _ => .ok []
  | t :: rest =>
    match t.keyword?.bind Keyword.type?, rest with
    | none, _ => .error (unexpected "column type" t)
    | some _, [] => .error (.unexpectedEnd "a name")
    | some type, t :: rest => do
      let column ← nameOf t
      if column ∈ seen then throw (.duplicateColumn column table)
      let columns ← columnList table (seen ++ [column]) rest
      return (column, type) :: columns

def nameList : List Token → Except Error (List String × List Token)
  | [] => .ok ([], [])
  | t :: rest =>
    if t = .ending || t.keyword? = some .fromWord then .ok ([], t :: rest)
    else do
      let n ← nameOf t
      let (names, rest) ← nameList rest
      return (n :: names, rest)

def valueList : List Token → Except Error (List String)
  | [] => .ok []
  | .ending :: _ => .ok []
  | t :: rest => do
    if fieldDelimiter ∈ t.text.toList then throw (.protocol "values may not contain '#'")
    let values ← valueList rest
    return t.text :: values

def predicate (ts : List Token) : Except Error (Predicate × List Token) := do
  let (column, ts) ← name ts
  match (current ts).keyword?.bind Keyword.operator? with
  | none => throw (unexpected "comparison operator" (current ts))
  | some op =>
    let (value, ts) ← literal ts.tail
    if value = "" then throw emptyValue
    return (⟨column, op, value⟩, ts)

/-- One predicate and those that AND adds to it; each takes a token at least. -/
def predicateList : Nat → List Token → Except Error (List Predicate × List Token)
  | 0, ts => .ok ([], ts)
  | fuel + 1, ts => do
    let (p, ts) ← predicate ts
    if starts .or ts then throw (.protocol "OR conditions are not supported")
    rejectJoin ts
    if starts .and ts then
      let (more, ts) ← predicateList fuel ts.tail
      return (p :: more, ts)
    else return ([p], ts)

def createStatement (ts : List Token) : Except Error (Command × List Token) := do
  if starts .database ts then
    let (n, ts) ← name ts.tail
    return (.createDatabase n, ts)
  else
    let ts ← expect .table ts
    let (n, ts) ← name ts
    match ← columnList n [] ts with
    | [] => throw (.emptyTable n)
    | columns => return (.createTable n columns, [])

def dropStatement (ts : List Token) : Except Error (Command × List Token) := do
  if starts .database ts then
    let (n, ts) ← name ts.tail
    return (.dropDatabase n, ts)
  else
    let ts ← expect .table ts
    let (n, ts) ← name ts
    return (.dropTable n, ts)

def addStatement (ts : List Token) : Except Error (Command × List Token) := do
  let kind := (current ts).keyword?
  let (t, ts) ← name ts.tail
  let (c, ts) ← name ts
  match kind with
  | some .pk => return (.addPrimaryKey t c, ts)
  | some .uq => return (.addUnique t c, ts)
  | some .index => return (.addIndex t c, ts)
  | some .fk =>
    let (p, ts) ← name ts
    let (pc, ts) ← name ts
    return (.addForeignKey t c p pc, ts)
  | some k => throw (.unexpectedToken "PK, FK, UQ or INDEX" k.title)
  | none => throw (.unexpectedToken "PK, FK, UQ or INDEX" "a name")

def insertStatement (ts : List Token) : Except Error (Command × List Token) := do
  let ts ← expect .into ts
  let (t, ts) ← name ts
  let ts ← expect .values ts
  match ← valueList ts with
  | [] => throw (.unexpectedEnd "at least one value")
  | [""] => throw emptyValue
  | values => return (.insert t values, [])

def deleteStatement (ts : List Token) : Except Error (Command × List Token) := do
  let ts ← expect .fromWord ts
  let (t, ts) ← name ts
  let ts ← expect .whereWord ts
  let (id, ts) ← literal ts
  if id = "" then throw emptyValue
  return (.delete t id, ts)

def projection (ts : List Token) : Except Error (Projection × List Token) :=
  if starts .all ts then .ok (.all, ts.tail)
  else do
    match ← nameList ts with
    | ([], ts) => throw (unexpected "* or column names" (current ts))
    | (names, ts) => return (.columns names, ts)

def selectStatement (ts : List Token) : Except Error (Command × List Token) := do
  let (columns, ts) ← projection ts
  let ts ← expect .fromWord ts
  let (t, ts) ← name ts
  rejectJoin ts
  if starts .whereWord ts then
    let (predicates, ts) ← predicateList ts.length ts.tail
    return (.select t columns predicates, ts)
  else return (.select t columns [], ts)

def statement (ts : List Token) : Except Error (Statement × List Token) :=
  let command (form : List Token → Except Error (Command × List Token)) :=
    (form ts.tail).map fun (c, rest) => (Statement.command c, rest)
  match (current ts).keyword? with
  | some .exit => .ok (.exit, ts.tail)
  | some .use => command fun ts => (name ts).map fun (n, ts) => (.useDatabase n, ts)
  | some .create => command createStatement
  | some .drop => command dropStatement
  | some .add => command addStatement
  | some .insert => command insertStatement
  | some .delete => command deleteStatement
  | some .select => command selectStatement
  | _ =>
    .error (unexpected "EXIT, USE, CREATE, DROP, ADD, INSERT, DELETE or SELECT" (current ts))

def parseLine (line : String) : Except Error (Option Statement) := do
  let ts ← readTokens line
  if atEnd ts then return none
  let (s, rest) ← statement ts
  if !atEnd rest then throw (unexpected "end of command" (current rest))
  return some s

end RelStore.CommandLine
