/-! UTF-8 text. Bytes that are no text are reported with the place of the first fault: how many
bytes precede it and how many bytes it takes up before reading could go on, or that the bytes end
inside a character. -/
namespace RelStore.Text

structure Utf8Fault where
  /-- Bytes before the fault, all of them text. -/
  index : Nat
  /-- Bytes to skip; none when the text ends inside a character. -/
  length : Option Nat
  deriving DecidableEq

def Utf8Fault.message (f : Utf8Fault) : String :=
  match f.length with
  | some n => "invalid utf-8 sequence of " ++ toString n ++ " bytes from index " ++ toString f.index
  | none => "incomplete utf-8 byte sequence from index " ++ toString f.index

def isContinuation (b : UInt8) : Bool := 0x80 ≤ b && b ≤ 0xBF

/-- The second bytes that may follow a lead byte, leaving out overlong forms, surrogates and
code points above U+10FFFF; none for a byte that leads no longer sequence. -/
def secondByteRange (lead : UInt8) : Option (UInt8 × UInt8) :=
  if 0xC2 ≤ lead && lead ≤ 0xDF then some (0x80, 0xBF)
  else if lead = 0xE0 then some (0xA0, 0xBF)
  else if lead = 0xED then some (0x80, 0x9F)
  else if 0xE1 ≤ lead && lead ≤ 0xEF then some (0x80, 0xBF)
  else if lead = 0xF0 then some (0x90, 0xBF)
  else if 0xF1 ≤ lead && lead ≤ 0xF3 then some (0x80, 0xBF)
  else if lead = 0xF4 then some (0x80, 0x8F)
  else none

def furtherBytes (lead : UInt8) : Nat :=
  if lead < 0xE0 then 0 else if lead < 0xF0 then 1 else 2

/-- The number of bytes of the fault at the front of the bytes, if there is one: `none` for a
well-formed character, `some none` when the bytes end too early. -/
def faultAhead : List UInt8 → Option (Option Nat)
  | [] => none
  | lead :: rest =>
    if lead < 0x80 then none
    else
      match secondByteRange lead, rest with
      | none, _ => some (some 1)
      | some _, [] => some none
      | some (lo, hi), second :: rest =>
        if second < lo || hi < second then some (some 1)
        else tailFault 2 (furtherBytes lead) rest
where
  tailFault (seen : Nat) : Nat → List UInt8 → Option (Option Nat)
    | 0, _ => none
    | _ + 1, [] => some none
    | n + 1, b :: rest => if isContinuation b then tailFault (seen + 1) n rest else some (some seen)

def sequenceLength (lead : UInt8) : Nat := if lead < 0x80 then 1 else 2 + furtherBytes lead

/-- The first fault at or after `index`; `skip` bytes belong to a character already checked. -/
def firstFault (index : Nat) (skip : Nat) : List UInt8 → Option Utf8Fault
  | [] => none
  | b :: rest =>
    match skip with
    | k + 1 => firstFault (index + 1) k rest
    | 0 =>
      match faultAhead (b :: rest) with
      | some length => some ⟨index, length⟩
      | none => firstFault (index + 1) (sequenceLength b - 1) rest

def utf8Bytes (s : String) : List UInt8 := s.toByteArray.data.toList

def ofUtf8 (bytes : List UInt8) : Except Utf8Fault String :=
  match String.fromUTF8? ⟨bytes.toArray⟩ with
  | some s => .ok s
  | none => .error ((firstFault 0 0 bytes).getD ⟨0, none⟩)

end RelStore.Text
