import RelStore.Binary64.Basic
/-! Decimals for binary64 numbers: the number that a decimal stands for, the exact decimal of a
number, and the decimal with the fewest digits that still reads back to it. -/
namespace RelStore

structure Decimal where
  coefficient : Nat
  exponent : Int
  deriving DecidableEq

namespace Decimal

def magnitude (d : Decimal) : Nat :=
  if 0 ≤ d.exponent then Binary64.nearest (d.coefficient * 10 ^ d.exponent.toNat) 1
  else Binary64.nearest d.coefficient (10 ^ (-d.exponent).toNat)

def exact (m : Nat) : Decimal :=
  let (num, den) := Binary64.ratio m
  let places := Nat.log2 den
  if num = 0 then ⟨0, 0⟩ else ⟨num * 5 ^ places, -(places : Int)⟩

inductive Tie where
  | up
  | toEven
  deriving DecidableEq

def Tie.roundsUp (tie : Tie) (below : Nat) : Bool :=
  match tie with
  | .up => true
  | .toEven => below % 2 = 1

/-- The decimal nearest to `d` among its neighbours on the grid that drops `places` digits, of
those which read back to `m`. -/
def candidate? (tie : Tie) (m : Nat) (d : Decimal) (places : Nat) : Option Decimal :=
  let grid := 10 ^ places
  let below := d.coefficient / grid
  let rest := d.coefficient % grid
  let lower : Decimal := ⟨below, d.exponent + places⟩
  let upper : Decimal := ⟨below + 1, d.exponent + places⟩
  let preferUpper : Bool := grid < 2 * rest || (2 * rest = grid && tie.roundsUp below)
  let (first, second) := if preferUpper then (upper, lower) else (lower, upper)
  if first.magnitude = m then some first
  else if second.magnitude = m then some second
  else none

def search (tie : Tie) (m : Nat) (d : Decimal) : Nat → Decimal
  | 0 => d
  | places + 1 => (candidate? tie m d (places + 1)).getD (search tie m d places)

/-- The decimal with the fewest digits that reads back to `m`, the nearest of those. -/
def shortest (tie : Tie) (m : Nat) : Decimal :=
  let d := exact m
  search tie m d ((Text.natDigits d.coefficient).length - 1)

/-- The digits without trailing zeros, and the exponent of the first one. -/
def scientific (d : Decimal) : List Char × Int :=
  let ds := Text.natDigits d.coefficient
  let kept := (ds.reverse.dropWhile (· = '0')).reverse
  (if kept = [] then ['0'] else kept, d.exponent + ds.length - 1)

/-- The decimal in positional notation, with a point only before a digit. -/
def positional (d : Decimal) : List Char :=
  let (ds, first) := d.scientific
  if first < 0 then '0' :: '.' :: List.replicate (-first - 1).toNat '0' ++ ds
  else
    let whole := first.toNat + 1
    if ds.length ≤ whole then ds ++ List.replicate (whole - ds.length) '0'
    else ds.take whole ++ '.' :: ds.drop whole

end Decimal

end RelStore
