import RelStore.Json.Basic
/-! The numbers that JSON numerals stand for. An integer within 64 bits is exact. Anything else is
a binary64 number, made from the leading digits that fit 64 bits and one multiplication or
division by a power of ten for each 308 places, so its last digit may be off. -/
namespace RelStore.Json

inductive Numeric where
  | int (n : Int)
  | float (x : Binary64)
  deriving DecidableEq

namespace Number

def significandRange : Nat := 2 ^ 64

/-- Takes digits while the significand stays within 64 bits; the rest is left. -/
def gather (significand : Nat) : List Char → Nat × List Char
  | [] => (significand, [])
  | c :: rest =>
    let next := 10 * significand + Text.digitValue c
    if next < significandRange then gather next rest else (significand, c :: rest)

def powerOfTen (n : Nat) : Nat := Binary64.nearest (10 ^ n) 1

/-- The magnitude of `m * 10 ^ exponent`, none when it is too large. -/
def scale (m : Nat) (exponent : Int) : Option Nat :=
  if 0 ≤ exponent then
    if exponent ≤ 308 then
      let product := Binary64.nearestProduct m (powerOfTen exponent.toNat)
      if product < Binary64.infinity then some product else none
    else if m = 0 then some 0 else none
  else if -308 ≤ exponent then some (Binary64.nearestQuotient m (powerOfTen (-exponent).toNat))
  else if m = 0 then some 0
  else scale (Binary64.nearestQuotient m (powerOfTen 308)) (exponent + 308)
termination_by (-exponent).toNat
decreasing_by omega

def exponentRange : Nat := 2 ^ 31

/-- The value as a binary64 number; an exponent beyond 32 bits makes it zero or out of range
before anything else is looked at. -/
def float? (n : Number) : Option Binary64 :=
  let (significand, unused) := gather 0 n.whole
  let (significand, used) :=
    match n.fraction with
    | none => (significand, 0)
    | some ds =>
      let (s, left) := gather significand ds
      (s, ds.length - left.length)
  let start : Int := (unused.length : Int) - used
  let magnitude :=
    match n.exponent with
    | none => scale (Binary64.nearest significand 1) start
    | some (down, ds) =>
      let e := Text.digitsValue 0 ds
      if exponentRange ≤ e then if significand = 0 || down then some 0 else none
      else scale (Binary64.nearest significand 1) (if down then start - e else start + e)
  magnitude.map (Binary64.ofMagnitude n.negative)

/-- A negative zero and integers beyond 64 bits are no integers. -/
def value? (n : Number) : Option Numeric :=
  match n.fraction, n.exponent with
  | none, none =>
    let v := Text.digitsValue 0 n.whole
    if n.negative then
      if 0 < v ∧ v ≤ 2 ^ 63 then some (.int (-v)) else n.float?.map .float
    else if v < significandRange then some (.int v) else n.float?.map .float
  | _, _ => n.float?.map .float

def ofInt (i : Int) : Number := ⟨i < 0, Text.natDigits i.natAbs, none, none⟩

/-- Numbers from 10^-5 to below 10^16 are written positionally, with one decimal at least, and
others with an exponent. -/
def ofBinary64 (x : Binary64) : Number :=
  let d := Decimal.shortest .toEven x.magnitude
  let (ds, first) := d.scientific
  if x.magnitude = 0 then ⟨x.negative, ['0'], some ['0'], none⟩
  else if -5 ≤ first ∧ first < 0 then
    ⟨x.negative, ['0'], some (List.replicate (-first - 1).toNat '0' ++ ds), none⟩
  else if 0 ≤ first ∧ first ≤ 15 then
    let whole := first.toNat + 1
    if ds.length ≤ whole then
      ⟨x.negative, ds ++ List.replicate (whole - ds.length) '0', some ['0'], none⟩
    else ⟨x.negative, ds.take whole, some (ds.drop whole), none⟩
  else
    let (whole, fraction) := (ds.take 1, ds.drop 1)
    ⟨x.negative, whole, if fraction = [] then none else some fraction,
      some (first < 0, Text.natDigits first.natAbs)⟩

def text (n : Number) : List Char :=
  (if n.negative then ['-'] else []) ++ n.whole ++
    (match n.fraction with
      | none => []
      | some ds => '.' :: ds) ++
    match n.exponent with
    | none => []
    | some (down, ds) => 'e' :: (if down then '-' else '+') :: ds

end Number

/-- Infinities and numbers that are none have no numeral. -/
def ofBinary64 (x : Binary64) : Json :=
  if x.isFinite then .number (.ofBinary64 x) else .null

end RelStore.Json
