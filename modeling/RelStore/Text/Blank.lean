/-! White space, the pieces of a text between separators, and the fields that delimiters join. -/
namespace RelStore.Text

/-- The code points with the property White_Space, as inclusive ranges. -/
def blankRanges : List (Nat × Nat) :=
  [(0x9, 0xD), (0x20, 0x20), (0x85, 0x85), (0xA0, 0xA0), (0x1680, 0x1680), (0x2000, 0x200A),
    (0x2028, 0x2029), (0x202F, 0x202F), (0x205F, 0x205F), (0x3000, 0x3000)]

def isBlank (c : Char) : Bool := blankRanges.any fun r => r.1 ≤ c.toNat && c.toNat ≤ r.2

/-- The pieces still to come, when `run` is what the current piece holds so far, last character
first. -/
def piecesFrom (sep : Char → Bool) : List Char → List Char → List (List Char)
  | [], [] => []
  | run, [] => [run.reverse]
  | run, c :: rest =>
    if sep c then
      match run with
      | [] => piecesFrom sep [] rest
      | _ => run.reverse :: piecesFrom sep [] rest
    else piecesFrom sep (c :: run) rest

/-- The maximal non-empty runs of characters that `sep` rejects. -/
def pieces (sep : Char → Bool) (s : List Char) : List (List Char) := piecesFrom sep [] s

def words (s : List Char) : List (List Char) := pieces isBlank s

def trimWhile (p : Char → Bool) (s : List Char) : List Char :=
  ((s.dropWhile p).reverse.dropWhile p).reverse

def trim (s : List Char) : List Char := trimWhile isBlank s

def splitFields (delimiter : Char) (s : List Char) : List (List Char) := s.splitOn delimiter

/-- An empty text is one empty field, so no list of fields but the empty one is lost. -/
def joinFields (delimiter : Char) (fields : List (List Char)) : List Char :=
  [delimiter].intercalate fields

end RelStore.Text
