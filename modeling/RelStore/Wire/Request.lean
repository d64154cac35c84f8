import RelStore.Error
import RelStore.Row
import RelStore.Text.Blank
import RelStore.Wire.Keyword
/-! Requests as text: words in a row, keywords by their codes. Position alone tells whether a word
is a keyword; only in a column list the code of FROM ends the list. -/
namespace RelStore

abbrev Word := List Char

namespace Command

def kw (k : Keyword) : Word := k.token

def predicateWords (lead : Keyword) : List Predicate → List Word
  | [] => []
  | p :: rest =>
    [lead.token, p.column.toList, (Keyword.operator p.op).token, p.literal.toList] ++
      predicateWords .and rest

/-- The words of a request; a row is a single word. -/
def words : Command → List Word
  | createDatabase n => [kw .create, kw .database, n.toList]
  | dropDatabase n => [kw .drop, kw .database, n.toList]
  | useDatabase n => [kw .use, n.toList]
  | createTable n columns =>
    [kw .create, kw .table, n.toList] ++
      columns.flatMap fun c => [kw (.type c.2), c.1.toList]
  | dropTable n => [kw .drop, kw .table, n.toList]
  | insert t values =>
    [kw .insert, t.toList, Text.joinFields fieldDelimiter (values.map String.toList)]
  | delete t id => [kw .delete, kw .fromWord, t.toList, kw .whereWord, id.toList]
  | addPrimaryKey t c => [kw .add, kw .pk, t.toList, c.toList]
  | addForeignKey t c p pc => [kw .add, kw .fk, t.toList, c.toList, p.toList, pc.toList]
  | addUnique t c => [kw .add, kw .uq, t.toList, c.toList]
  | addIndex t c => [kw .add, kw .index, t.toList, c.toList]
  | select t projection predicates =>
    kw .select ::
      (match projection with
        | .all => [kw .all]
        | .columns names => kw .columns :: names.map String.toList) ++
      [kw .fromWord, t.toList] ++ predicateWords .whereWord predicates

def encode (c : Command) : String := String.ofList (Text.joinFields ' ' c.words)

end Command

namespace Request

def shown (w : Word) : String := String.ofList w

def takeWord (expected : String) : List Word → Except Error (String × List Word)
  | [] => .error (.unexpectedEnd expected)
  | w :: rest => .ok (shown w, rest)

def takeKeyword (expected : String) : List Word → Except Error (Keyword × List Word)
  | [] => .error (.unexpectedEnd expected)
  | w :: rest =>
    match Keyword.ofToken? w with
    | some k => .ok (k, rest)
    | none => .error (.unexpectedToken expected (shown w))

def expect (k : Keyword) : List Word → Except Error (List Word)
  | [] => .error (.unexpectedEnd k.title)
  | w :: rest =>
    if Keyword.ofToken? w = some k then .ok rest
    else .error (.unexpectedToken k.title (shown w))

def rejectJoin : List Word → Except Error Unit
  | w :: _ => if isJoin w then .error (.protocol "joins are not supported") else .ok ()
  | [] => .ok ()

def columnList : List Word → Except Error (List (String × ColumnType))
  | [] => .ok []
  | w :: rest =>
    match Keyword.ofToken? w with
    | none => .error (.unexpectedToken "column type" (shown w))
    | some k =>
      match k.type?, rest with
      | none, _ => .error (.unexpectedToken "column type" k.title)
      | some _, [] => .error (.unexpectedEnd "column name")
      | some t, name :: rest => do
        let columns ← columnList rest
        return (shown name, t) :: columns

def nameList : List Word → List String × List Word
  | [] => ([], [])
  | w :: rest =>
    if Keyword.ofToken? w = some .fromWord then ([], w :: rest)
    else
      let (names, rest) := nameList rest
      (shown w :: names, rest)

/-- The predicates up to the end of the request; a keyword leads each of them. -/
def predicateList (lead : Keyword) : List Word → Except Error (List Predicate)
  | [] => .ok []
  | w :: rest => do
    if lead = .and then
      if Keyword.ofToken? w = some .or then throw (.protocol "OR conditions are not supported")
      rejectJoin (w :: rest)
    if Keyword.ofToken? w ≠ some lead then throw (.unexpectedToken lead.title (shown w))
    match rest with
    | [] => throw (.unexpectedEnd "column name")
    | [_] => throw (.unexpectedEnd "comparison operator")
    | column :: op :: rest =>
      match Keyword.ofToken? op with
      | none => throw (.unexpectedToken "comparison operator" (shown op))
      | some k =>
        match k.operator?, rest with
        | none, _ => throw (.unexpectedToken "comparison operator" k.title)
        | some _, [] => throw (.unexpectedEnd "literal")
        | some o, literal :: rest => do
          let predicates ← predicateList .and rest
          return ⟨shown column, o, shown literal⟩ :: predicates

def createCommand (ws : List Word) : Except Error (Command × List Word) := do
  let (k, ws) ← takeKeyword "DATABASE or TABLE" ws
  match k with
  | .database =>
    let (n, ws) ← takeWord "database name" ws
    return (.createDatabase n, ws)
  | .table =>
    let (n, ws) ← takeWord "table name" ws
    match ← columnList ws with
    | [] => throw (.unexpectedEnd "column type")
    | columns => return (.createTable n columns, [])
  | other => throw (.unexpectedToken "DATABASE or TABLE" other.title)

def dropCommand (ws : List Word) : Except Error (Command × List Word) := do
  let (k, ws) ← takeKeyword "DATABASE or TABLE" ws
  match k with
  | .database =>
    let (n, ws) ← takeWord "database name" ws
    return (.dropDatabase n, ws)
  | .table =>
    let (n, ws) ← takeWord "table name" ws
    return (.dropTable n, ws)
  | other => throw (.unexpectedToken "DATABASE or TABLE" other.title)

def insertCommand (ws : List Word) : Except Error (Command × List Word) := do
  let (t, ws) ← takeWord "table name" ws
  let (packed, ws) ← takeWord "row values" ws
  return (.insert t ((Text.splitFields fieldDelimiter packed.toList).map String.ofList), ws)

def deleteCommand (ws : List Word) : Except Error (Command × List Word) := do
  let ws ← expect .fromWord ws
  let (t, ws) ← takeWord "table name" ws
  let ws ← expect .whereWord ws
  let (id, ws) ← takeWord "row id" ws
  return (.delete t id, ws)

def addCommand (ws : List Word) : Except Error (Command × List Word) := do
  let (kind, ws) ← takeKeyword "PK, FK, UQ or INDEX" ws
  let (t, ws) ← takeWord "table name" ws
  let (c, ws) ← takeWord "column name" ws
  match kind with
  | .pk => return (.addPrimaryKey t c, ws)
  | .uq => return (.addUnique t c, ws)
  | .index => return (.addIndex t c, ws)
  | .fk =>
    let (p, ws) ← takeWord "referenced table name" ws
    let (pc, ws) ← takeWord "referenced column name" ws
    return (.addForeignKey t c p pc, ws)
  | other => throw (.unexpectedToken "PK, FK, UQ or INDEX" other.title)

def projection (ws : List Word) : Except Error (Projection × List Word) := do
  let (k, ws) ← takeKeyword "* or a column list" ws
  match k with
  | .all => return (.all, ws)
  | .columns =>
    match nameList ws with
    | ([], _) => throw (.protocol "SELECT needs at least one column")
    | (names, ws) => return (.columns names, ws)
  | other => throw (.unexpectedToken "* or a column list" other.title)

def selectCommand (ws : List Word) : Except Error (Command × List Word) := do
  let (columns, ws) ← projection ws
  let ws ← expect .fromWord ws
  let (t, ws) ← takeWord "table name" ws
  rejectJoin ws
  let predicates ← predicateList .whereWord ws
  return (.select t columns predicates, [])

def command (k : Keyword) (first : Word) (ws : List Word) : Except Error (Command × List Word) :=
  match k with
  | .create => createCommand ws
  | .drop => dropCommand ws
  | .use => do
    let (n, ws) ← takeWord "database name" ws
    return (.useDatabase n, ws)
  | .insert => insertCommand ws
  | .delete => deleteCommand ws
  | .add => addCommand ws
  | .select => selectCommand ws
  | _ => .error (.unknownOperation (shown first))

def ofWords : List Word → Except Error Command
  | [] => .error (.unexpectedEnd "an operation code")
  | first :: ws =>
    match Keyword.ofToken? first with
    | none => .error (.unknownOperation (shown first))
    | some k => do
      match ← command k first ws with
      | (c, []) => return c
      | (_, w :: _) => throw (.unexpectedToken "end of request" (shown w))

end Request

def Command.decode (request : String) : Except Error Command :=
  Request.ofWords (Text.words request.toList)

end RelStore
