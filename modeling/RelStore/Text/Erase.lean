import RelStore.Text.Cluster
/-! Typed text in which a backspace takes back the cluster before it. -/
namespace RelStore.Text

structure Typed where
  /-- What is left of the text, last character first. -/
  text : List Char
  /-- The bytes that each cluster takes up, the latest first. A size is kept in one byte, so a
  backspace takes less than all of a cluster of 256 bytes or more. -/
  sizes : List UInt8

def utf8Length (s : List Char) : Nat := s.foldr (fun c n => c.utf8Size + n) 0

/-- Leaves out characters in front until they make up so many bytes. -/
def dropBytes (n : Nat) : List Char → List Char
  | [] => []
  | c :: rest => if n = 0 then c :: rest else dropBytes (n - c.utf8Size) rest

namespace Typed

def add (t : Typed) (cluster : List Char) : Typed :=
  ⟨cluster.reverse ++ t.text, .ofNat (utf8Length cluster) :: t.sizes⟩

def erase (t : Typed) : Typed :=
  match t.sizes with
  | [] => t
  | n :: sizes => ⟨dropBytes n.toNat t.text, sizes⟩

def type (t : Typed) (cluster : List Char) : Typed :=
  if cluster = ['\x08'] then t.erase else t.add cluster

end Typed

/-- The text after its backspaces; one with nothing before it is ignored. -/
def applyBackspaces (s : List Char) : List Char :=
  ((clusters s).foldl Typed.type ⟨[], []⟩).text.reverse

end RelStore.Text
