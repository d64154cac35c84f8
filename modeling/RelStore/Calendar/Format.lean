import RelStore.Calendar.Basic
import RelStore.Text.Blank
import RelStore.Text.Numeral
/-! Written dates and times, `year-month-day` and `hour:minute:second`. A year of four digits has
no sign, any other year has one. White space may stand in front of each number. -/
namespace RelStore

structure CalendarFormat where
  joint : Char
  /-- Whether white space may also follow a number. -/
  spaced : Bool
  /-- Whether seconds may have decimals. -/
  fractions : Bool

/-- A literal stays a single word, so an underscore joins date and time. -/
def CalendarFormat.literal : CalendarFormat := ⟨'_', false, false⟩

def CalendarFormat.iso : CalendarFormat := ⟨'T', true, true⟩

namespace CalendarFormat

def gap (f : CalendarFormat) (s : List Char) : List Char :=
  if f.spaced then s.dropWhile Text.isBlank else s

def expect (f : CalendarFormat) (c : Char) (s : List Char) : Option (List Char) :=
  match f.gap s with
  | d :: rest => if d = c then some rest else none
  | [] => none

/-- Nothing but white space, where that may follow a number. -/
def atEnd (f : CalendarFormat) (s : List Char) : Bool := (f.gap s).isEmpty

def takeDigits : Nat → List Char → List Char × List Char
  | width + 1, c :: rest =>
    if Text.isDigit c then
      let (ds, rest) := takeDigits width rest
      (c :: ds, rest)
    else ([], c :: rest)
  | _, s => ([], s)

def number (width : Nat) (s : List Char) : Option (Nat × List Char) :=
  match takeDigits width s with
  | ([], _) => none
  | (ds, rest) => some (Text.digitsValue 0 ds, rest)

def field (s : List Char) : Option (Nat × List Char) := number 2 (s.dropWhile Text.isBlank)

def year (s : List Char) : Option (Int × List Char) :=
  match s.dropWhile Text.isBlank with
  | '-' :: rest => (number rest.length rest).map fun (n, rest) => (-(n : Int), rest)
  | '+' :: rest => (number rest.length rest).map fun (n, rest) => ((n : Int), rest)
  | s => (number 4 s).map fun (n, rest) => ((n : Int), rest)

def date (f : CalendarFormat) (s : List Char) : Option (Date × List Char) := do
  let (y, s) ← year s
  let s ← f.expect '-' s
  let (m, s) ← field s
  let s ← f.expect '-' s
  let (d, s) ← field s
  let date ← Date.of? y m d
  return (date, s)

/-- Decimals of a second in nanoseconds; digits beyond the ninth are dropped. -/
def fraction (f : CalendarFormat) (s : List Char) : Option (Nat × List Char) :=
  match f.fractions, s with
  | true, '.' :: rest =>
    match takeDigits 9 rest with
    | ([], _) => none
    | (ds, rest) =>
      some (Text.digitsValue 0 ds * 10 ^ (9 - ds.length), rest.dropWhile Text.isDigit)
  | _, s => some (0, s)

def time (f : CalendarFormat) (s : List Char) : Option (TimeOfDay × List Char) := do
  let (h, s) ← field s
  let s ← f.expect ':' s
  let (m, s) ← field s
  let s ← f.expect ':' s
  let (sec, s) ← field s
  let (n, s) ← f.fraction s
  let time ← TimeOfDay.of? h m sec n
  return (time, s)

def readDate (f : CalendarFormat) (s : List Char) : Option Date := do
  let (date, s) ← f.date s
  if f.atEnd s then some date else none

def readDateTime (f : CalendarFormat) (s : List Char) : Option DateTime := do
  let (date, s) ← f.date s
  let s ← f.expect f.joint s
  let (time, s) ← f.time s
  if f.atEnd s then some ⟨date, time⟩ else none

def yearText (y : Int) : List Char :=
  if 0 ≤ y ∧ y ≤ 9999 then Text.paddedDigits 4 y.toNat
  else (if y < 0 then '-' else '+') :: Text.paddedDigits 4 y.natAbs

def dateText (d : Date) : List Char :=
  yearText d.year ++ '-' :: Text.paddedDigits 2 d.month ++ '-' :: Text.paddedDigits 2 d.day

/-- As many groups of three decimals as are needed. -/
def fractionText (n : Nat) : List Char :=
  if n = 0 then []
  else if n % 1000000 = 0 then '.' :: Text.paddedDigits 3 (n / 1000000)
  else if n % 1000 = 0 then '.' :: Text.paddedDigits 6 (n / 1000)
  else '.' :: Text.paddedDigits 9 n

def timeText (f : CalendarFormat) (t : TimeOfDay) : List Char :=
  Text.paddedDigits 2 t.hour ++ ':' :: Text.paddedDigits 2 t.minute ++
    ':' :: Text.paddedDigits 2 (t.second + t.nanos / nanosPerSecond) ++
    if f.fractions then fractionText (t.nanos % nanosPerSecond) else []

def dateTimeText (f : CalendarFormat) (t : DateTime) : List Char :=
  dateText t.date ++ f.joint :: f.timeText t.time

end CalendarFormat

end RelStore
