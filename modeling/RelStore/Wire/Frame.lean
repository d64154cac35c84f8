import RelStore.Error
import RelStore.Text.Numeral
import RelStore.Text.Utf8
/-! Responses and their frames. A frame is the length of its body and the body; lengths and counts
are 32-bit numbers, the most significant byte first. -/
namespace RelStore

inductive Response where
  | done
  | error (errorClass : ErrorClass) (message : String)
  | table (columns : List String) (rows : List (List String))
  deriving DecidableEq

namespace Response

def ofError (e : Error) : Response := .error e.errorClass e.message

def isError : Response → Bool
  | .error _ _ => true
  | _ => false

end Response

namespace Frame

def maxBodyBytes : Nat := 64 * 1024 * 1024

def u32Bytes (n : Nat) : List UInt8 :=
  [.ofNat (n / 2 ^ 24), .ofNat (n / 2 ^ 16), .ofNat (n / 2 ^ 8), .ofNat n]

def textBytes (s : String) : List UInt8 :=
  let bytes := Text.utf8Bytes s
  u32Bytes bytes.length ++ bytes

def body : Response → List UInt8
  | .done => [0]
  | .error c message => 1 :: c.code :: textBytes message
  | .table columns rows =>
    2 :: u32Bytes columns.length ++ columns.flatMap textBytes ++ u32Bytes rows.length ++
      rows.flatMap fun row => row.flatMap textBytes

def encode (r : Response) : List UInt8 :=
  let bytes := body r
  u32Bytes bytes.length ++ bytes

def truncated : Error := .protocol "truncated response frame"

def takeByte : List UInt8 → Except Error (UInt8 × List UInt8)
  | [] => .error truncated
  | b :: rest => .ok (b, rest)

def takeU32 : List UInt8 → Except Error (Nat × List UInt8)
  | a :: b :: c :: d :: rest =>
    .ok (a.toNat * 2 ^ 24 + b.toNat * 2 ^ 16 + c.toNat * 2 ^ 8 + d.toNat, rest)
  | _ => .error truncated

def takeText (bytes : List UInt8) : Except Error (String × List UInt8) := do
  let (n, bytes) ← takeU32 bytes
  if bytes.length < n then throw truncated
  match Text.ofUtf8 (bytes.take n) with
  | .ok s => return (s, bytes.drop n)
  | .error fault => throw (.protocol ("invalid UTF-8 in response: " ++ fault.message))

def takeTexts : Nat → List UInt8 → Except Error (List String × List UInt8)
  | 0, bytes => .ok ([], bytes)
  | n + 1, bytes => do
    let (s, bytes) ← takeText bytes
    let (rest, bytes) ← takeTexts n bytes
    return (s :: rest, bytes)

def takeRows (width : Nat) : Nat → List UInt8 → Except Error (List (List String) × List UInt8)
  | 0, bytes => .ok ([], bytes)
  | n + 1, bytes => do
    let (row, bytes) ← takeTexts width bytes
    let (rest, bytes) ← takeRows width n bytes
    return (row :: rest, bytes)

def takeResponse (bytes : List UInt8) : Except Error (Response × List UInt8) := do
  let (tag, bytes) ← takeByte bytes
  match tag with
  | 0 => return (.done, bytes)
  | 1 =>
    let (code, bytes) ← takeByte bytes
    match ErrorClass.ofCode? code with
    | none => throw (.protocol ("unknown error code " ++ toString code.toNat))
    | some c =>
      let (message, bytes) ← takeText bytes
      return (.error c message, bytes)
  | 2 =>
    let (width, bytes) ← takeU32 bytes
    let (columns, bytes) ← takeTexts width bytes
    let (height, bytes) ← takeU32 bytes
    let (rows, bytes) ← takeRows width height bytes
    return (.table columns rows, bytes)
  | other => throw (.protocol ("unknown response tag " ++ toString other.toNat))

def decode (bytes : List UInt8) : Except Error Response := do
  match ← takeResponse bytes with
  | (r, []) => return r
  | (_, rest) =>
    throw (.protocol (toString rest.length ++ " trailing bytes after response"))

/-- Reads a frame; what comes after it is left alone. -/
def read (bytes : List UInt8) : Except Error Response :=
  match takeU32 bytes with
  | .error _ => .error (.io "failed to fill whole buffer")
  | .ok (n, bytes) =>
    if maxBodyBytes < n then
      .error (.protocol ("response frame of " ++ toString n ++ " bytes exceeds limit"))
    else if bytes.length < n then .error (.io "failed to fill whole buffer")
    else decode (bytes.take n)

end Frame

end RelStore
