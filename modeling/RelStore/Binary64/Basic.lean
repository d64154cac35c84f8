import RelStore.Text.Numeral
/-! Binary64 numbers by their bit patterns, with rounding and arithmetic in natural numbers.

A magnitude is a pattern without its sign bit. Magnitudes are ordered as the numbers they stand
for, and the number after `magnitude` is `magnitude + 1`. -/
namespace RelStore

structure Binary64 where
  bits : UInt64
  deriving DecidableEq

namespace Binary64

def fractionRange : Nat := 2 ^ 52

/-- The magnitude of the infinities; the ones above it are no numbers. -/
def infinity : Nat := 0x7FF * fractionRange

def magnitude (x : Binary64) : Nat := x.bits.toNat % 2 ^ 63

def negative (x : Binary64) : Bool := 2 ^ 63 ≤ x.bits.toNat

def isFinite (x : Binary64) : Bool := x.magnitude < infinity

def isNaN (x : Binary64) : Bool := infinity < x.magnitude

def ofMagnitude (negative : Bool) (m : Nat) : Binary64 :=
  ⟨UInt64.ofNat (if negative then 2 ^ 63 + m else m)⟩

def zero : Binary64 := ofMagnitude false 0

/-- Places every pattern on one line: negative patterns from the largest magnitude up, then the
others. -/
def orderKey (x : Binary64) : Int :=
  if x.negative then -(x.magnitude : Int) - 1 else x.magnitude

theorem orderKey_injective {x y : Binary64} (h : x.orderKey = y.orderKey) : x = y := by
  obtain ⟨a⟩ := x
  obtain ⟨b⟩ := y
  have ha := a.toNat_lt
  have hb := b.toNat_lt
  simp only [orderKey, negative, magnitude, decide_eq_true_eq] at h
  congr 1
  apply UInt64.toNat_inj.1
  split at h <;> split at h <;> omega

instance : Ord Binary64 where
  compare := compareOn orderKey

theorem compare_def : compare (α := Binary64) = compareOn orderKey := rfl

instance : Std.TransOrd Binary64 := inferInstanceAs <| Std.TransCmp (compareOn _)

instance : Std.LawfulEqOrd Binary64 where
  eq_of_compare h := orderKey_injective (Std.LawfulEqOrd.eq_of_compare (α := Int) h)

/-- The biased exponent at which a magnitude is scaled; magnitudes below the smallest normal one
share its scale. -/
def biasedExponent (m : Nat) : Nat := max 1 (m / fractionRange)

def significand (m : Nat) : Nat :=
  if m < fractionRange then m else fractionRange + m % fractionRange

/-- A finite magnitude stands for `num / den`, a significand times a power of two. -/
def ratio (m : Nat) : Nat × Nat :=
  let e := biasedExponent m
  if 1075 ≤ e then (significand m * 2 ^ (e - 1075), 1) else (significand m, 2 ^ (1075 - e))

/-- The quotient to the nearest integer, a half to the even neighbour. -/
def roundQuotient (num den : Nat) : Nat :=
  let q := num / den
  let r := num % den
  if den < 2 * r || (2 * r = den && q % 2 = 1) then q + 1 else q

/-- The biased exponent at which a positive quotient has a 53-bit integer part, or the least one. -/
def scaleOf (num den : Nat) : Nat :=
  let k : Int := (Nat.log2 num : Int) - Nat.log2 den
  let reaches : Bool := if 0 ≤ k then den * 2 ^ k.toNat ≤ num else den ≤ num * 2 ^ (-k).toNat
  let e := if reaches then k else k - 1
  (max 1 (e + 1023)).toNat

/-- The magnitude nearest to `num / den`, a tie to the even one; quotients beyond the largest
finite magnitude give `infinity`. -/
def nearest (num den : Nat) : Nat :=
  if num = 0 then 0
  else
    let e := scaleOf num den
    let n :=
      if 1075 ≤ e then roundQuotient num (den * 2 ^ (e - 1075))
      else roundQuotient (num * 2 ^ (1075 - e)) den
    min infinity ((e - 1) * fractionRange + n)

def nearestProduct (m n : Nat) : Nat :=
  let (a, b) := ratio m
  let (c, d) := ratio n
  nearest (a * c) (b * d)

/-- The divisor is not zero. -/
def nearestQuotient (m n : Nat) : Nat :=
  let (a, b) := ratio m
  let (c, d) := ratio n
  nearest (a * d) (b * c)

end Binary64

end RelStore
