import Mathlib.Data.Rat.Cast.Order
import Mathlib.Order.Compare
import RelStore.Proofs.DecimalText
/-! The numbers of float patterns. Magnitudes are in the order of the numbers that their fields denote,
so two patterns, of which none is the negative zero, compare as their numbers do; adding zero is what
takes the negative zero away. -/
namespace RelStore

namespace Decimal

def number (d : Decimal) : ℚ := d.coefficient * 10 ^ d.exponent

variable {d : Decimal}

theorem number_nonneg (d : Decimal) : 0 ≤ d.number := by
  rw [number]
  positivity

theorem number_eq_quotient (d : Decimal) : d.number =
    (d.coefficient * 10 ^ d.exponent.toNat : ℕ) / (10 ^ (-d.exponent).toNat : ℕ) := by
  have hexp : d.exponent = (d.exponent.toNat : ℤ) - ((-d.exponent).toNat : ℤ) := by omega
  push_cast
  rw [mul_div_assoc, ← zpow_natCast, ← zpow_natCast, ← zpow_sub₀ (by norm_num), ← hexp, number]

theorem magnitude_eq_nearest (d : Decimal) :
    d.magnitude = Binary64.nearest d.number.num.natAbs d.number.den := by
  have hpos : 0 < 10 ^ (-d.exponent).toNat := Nat.pow_pos (by decide)
  have hden : (d.number.den : ℚ) ≠ 0 := by exact_mod_cast d.number.den_ne_zero
  have hnum : ((d.number.num.natAbs : ℕ) : ℚ) = d.number.num := by
    rw [Nat.cast_natAbs, abs_of_nonneg (Rat.num_nonneg.mpr d.number_nonneg)]
  have hquotient := d.number_eq_quotient
  rw [eq_div_iff (by exact_mod_cast hpos.ne'), ← Rat.num_div_den d.number, div_mul_eq_mul_div,
    div_eq_iff hden, ← hnum] at hquotient
  rw [magnitude_eq]
  exact Binary64.nearest_congr hpos d.number.den_pos (by exact_mod_cast hquotient.symm)

theorem magnitude_of_number (h : d.number = 0) : d.magnitude = 0 := by
  rw [magnitude_eq_nearest, h]
  rfl

theorem two_zpow_le_ten_zpow {m n : ℕ} (h : 2 ^ m ≤ 10 ^ n) :
    (2 : ℚ) ^ (m : ℤ) ≤ 10 ^ (n : ℤ) := by
  rw [zpow_natCast, zpow_natCast]
  exact_mod_cast h

/-- Digits and an exponent that leave nothing within the range of numbers. -/
theorem magnitude_of_low {k : ℕ} (hd : d.coefficient < 10 ^ k) (he : k + d.exponent ≤ -324) :
    d.magnitude = 0 := by
  have hcoefficient : (d.coefficient : ℚ) < 10 ^ (k : ℤ) := by
    rw [zpow_natCast]
    exact_mod_cast hd
  have hnumber : d.number < 2 ^ (-1075 : ℤ) :=
    calc d.number < 10 ^ (k : ℤ) * 10 ^ d.exponent :=
          mul_lt_mul_of_pos_right hcoefficient (by positivity)
      _ = 10 ^ (k + d.exponent) := (zpow_add₀ (by norm_num) _ _).symm
      _ ≤ 10 ^ (-324 : ℤ) := zpow_le_zpow_right₀ (by norm_num) he
      _ ≤ 2 ^ (-1075 : ℤ) := by
        rw [zpow_neg, zpow_neg]
        exact inv_anti₀ (by positivity) (two_zpow_le_ten_zpow (m := 1075) (by decide +kernel))
  rw [number_eq_quotient] at hnumber
  rw [magnitude_eq]
  exact Binary64.nearest_of_small (Nat.pow_pos (by decide)) hnumber

theorem magnitude_of_high (hd : d.coefficient ≠ 0) (he : 309 ≤ d.exponent) :
    d.magnitude = Binary64.infinity := by
  have hcoefficient : (1 : ℚ) ≤ d.coefficient := by exact_mod_cast Nat.pos_of_ne_zero hd
  have hnumber : 2 ^ (1024 : ℤ) ≤ d.number :=
    calc (2 : ℚ) ^ (1024 : ℤ) ≤ 10 ^ (309 : ℤ) :=
          two_zpow_le_ten_zpow (m := 1024) (by decide +kernel)
      _ ≤ 10 ^ d.exponent := zpow_le_zpow_right₀ (by norm_num) he
      _ ≤ d.coefficient * 10 ^ d.exponent := le_mul_of_one_le_left (by positivity) hcoefficient
  rw [number_eq_quotient] at hnumber
  rw [magnitude_eq]
  exact Binary64.nearest_of_large (Nat.pow_pos (by decide)) hnumber

end Decimal

namespace Binary64

/-- The number without a sign that 11 bits of exponent and 52 bits of fraction denote. The least
exponent marks the subnormal numbers, which have no leading one. -/
def absolute (m : Nat) : ℚ :=
  let exponent := m / fractionRange
  let fraction : ℚ := (m % fractionRange : ℕ) / fractionRange
  if exponent = 0 then fraction * 2 ^ (-1022 : ℤ)
  else (1 + fraction) * 2 ^ ((exponent : ℤ) - 1023)

/-- The number that a finite pattern denotes. -/
def number (x : Binary64) : ℚ := if x.negative then -absolute x.magnitude else absolute x.magnitude

section Magnitudes

variable {m : Nat}

theorem absolute_eq (m : Nat) :
    absolute m = significand m * 2 ^ ((biasedExponent m : ℤ) - 1075) := by
  have hrange : (fractionRange : ℚ) = 2 ^ (52 : ℤ) := by norm_num [fractionRange]
  have hdiv : m / fractionRange = 0 ↔ m < fractionRange := Nat.div_eq_zero_iff_lt (by decide)
  simp only [absolute, significand, biasedExponent, hdiv]
  split
  · next h =>
    rw [Nat.mod_eq_of_lt h, hdiv.mpr h, hrange, div_mul_eq_mul_div, mul_div_assoc,
      ← zpow_sub₀ two_ne_zero]
    rfl
  · next h =>
    have hexp : max 1 (m / fractionRange) = m / fractionRange :=
      Nat.max_eq_right (Nat.one_le_iff_ne_zero.mpr (mt hdiv.mp h))
    have hsplit : ((m / fractionRange : ℕ) : ℤ) - 1023 = 52 + ((m / fractionRange : ℕ) - 1075) := by
      ring
    rw [hexp, hsplit, zpow_add₀ two_ne_zero, ← mul_assoc, ← hrange]
    congr 1
    push_cast
    field_simp

/-- A finite magnitude is written as a quotient of natural numbers. -/
theorem absolute_eq_ratio (m : Nat) : absolute m = (ratio m).1 / (ratio m).2 := by
  rw [absolute_eq]
  simp only [ratio]
  split
  · next h =>
    rw [Nat.cast_one, div_one, Nat.cast_mul, Nat.cast_pow, Nat.cast_ofNat, ← zpow_natCast,
      Nat.cast_sub h]
    rfl
  · next h =>
    rw [Nat.cast_pow, Nat.cast_ofNat, ← zpow_natCast, Nat.cast_sub (by omega), div_eq_mul_inv,
      ← zpow_neg, neg_sub]
    rfl

/-- A magnitude counts the significands from the exponents below it on. -/
theorem magnitude_fields (m : Nat) :
    (biasedExponent m - 1) * fractionRange + significand m = m ∧
      significand m < 2 * fractionRange ∧ 1 ≤ biasedExponent m ∧
        (significand m < fractionRange → biasedExponent m = 1) := by
  simp only [biasedExponent, significand, fractionRange, Nat.reducePow]
  by_cases hsub : m < 4503599627370496
  · simp only [hsub, if_true]
    omega
  · simp only [hsub, if_false]
    omega

/-- The next magnitude denotes a larger number, also where it has the next exponent. -/
theorem absolute_lt_succ (m : Nat) : absolute m < absolute (m + 1) := by
  obtain ⟨hm, hlt, hpos, -⟩ := magnitude_fields m
  obtain ⟨hm', -, hpos', hsub⟩ := magnitude_fields (m + 1)
  have hstep : biasedExponent (m + 1) = biasedExponent m ∨
      biasedExponent (m + 1) = biasedExponent m + 1 := by
    simp only [biasedExponent, fractionRange, Nat.reducePow]
    omega
  have hscale : (0 : ℚ) < 2 ^ ((biasedExponent m : ℤ) - 1075) := by positivity
  rw [absolute_eq, absolute_eq]
  rcases hstep with hsame | hnext
  · have hsig : significand (m + 1) = significand m + 1 := by
      rw [hsame] at hm'
      omega
    rw [hsame, hsig]
    refine mul_lt_mul_of_pos_right ?_ hscale
    exact_mod_cast Nat.lt_succ_self _
  · -- the last significand is followed by the first one at twice the scale
    have hsig : significand m < 2 * significand (m + 1) := by
      simp only [fractionRange, Nat.reducePow] at *
      omega
    have hexp : ((biasedExponent (m + 1) : ℕ) : ℤ) - 1075 = 1 + ((biasedExponent m : ℤ) - 1075) := by
      rw [hnext]
      push_cast
      ring
    rw [hexp, zpow_add₀ two_ne_zero, zpow_one, ← mul_assoc, mul_comm (significand (m + 1) : ℚ)]
    refine mul_lt_mul_of_pos_right ?_ hscale
    exact_mod_cast hsig

theorem absolute_strictMono : StrictMono absolute := strictMono_nat_of_lt_succ absolute_lt_succ

theorem absolute_zero : absolute 0 = 0 := by simp [absolute]

theorem absolute_nonneg (m : Nat) : 0 ≤ absolute m :=
  absolute_zero ▸ absolute_strictMono.monotone (Nat.zero_le m)

end Magnitudes

/-- The pattern nearest to a number, under its sign; an infinity, if the number is too large. -/
def ofNumber (q : ℚ) : Binary64 := ofMagnitude (q < 0) (nearest q.num.natAbs q.den)

/-- The sum as IEEE arithmetic rounds it: the pattern nearest to the exact sum, and of the two zeros
the negative one only if both numbers are negative. -/
def add (x y : Binary64) : Binary64 :=
  let sum := x.number + y.number
  if sum = 0 then ofMagnitude (x.negative && y.negative) 0 else ofNumber sum

section Numbers

variable {x y : Binary64}

theorem number_zero : zero.number = 0 := by
  rw [number, show zero.magnitude = 0 from rfl, absolute_zero, neg_zero, ite_self]

theorem number_eq_zero_iff : x.number = 0 ↔ x.magnitude = 0 := by
  have habs : absolute x.magnitude = 0 ↔ x.magnitude = 0 := by
    rw [← absolute_zero, absolute_strictMono.injective.eq_iff]
  rw [number]
  split
  · rw [neg_eq_zero, habs]
  · exact habs

theorem abs_number (x : Binary64) : |x.number| = absolute x.magnitude := by
  rw [number]
  split
  · rw [abs_neg, abs_of_nonneg (absolute_nonneg _)]
  · rw [abs_of_nonneg (absolute_nonneg _)]

theorem number_neg_iff (h : x.magnitude ≠ 0) : x.number < 0 ↔ x.negative = true := by
  have hpos : 0 < absolute x.magnitude :=
    absolute_zero ▸ absolute_strictMono (Nat.pos_of_ne_zero h)
  rw [number]
  split
  · next hneg => exact iff_of_true (neg_neg_of_pos hpos) hneg
  · next hneg => exact iff_of_false hpos.not_gt hneg

/-- A finite pattern is the one nearest to its number. -/
theorem nearest_number (h : x.isFinite = true) :
    nearest x.number.num.natAbs x.number.den = x.magnitude := by
  have hden : 0 < (ratio x.magnitude).2 := ratio_pos _
  have habs : ((x.number.num.natAbs : ℕ) : ℚ) / x.number.den =
      (ratio x.magnitude).1 / (ratio x.magnitude).2 := by
    rw [← absolute_eq_ratio, ← abs_number, ← Rat.num_div_den |x.number|, Rat.num_abs_eq_abs_num,
      Rat.den_abs_eq_den, Nat.cast_natAbs]
  rw [div_eq_div_iff (by exact_mod_cast x.number.den_pos.ne') (by exact_mod_cast hden.ne')] at habs
  rw [nearest_congr x.number.den_pos hden (by exact_mod_cast habs),
    nearest_ratio (of_decide_eq_true h)]

/-- The two zeros become one by adding zero, and nothing else changes. -/
theorem add_zero_eq (h : x.isFinite = true) : x.add zero = x.unsignZero := by
  rw [add, number_zero, add_zero, unsignZero]
  by_cases hz : x.magnitude = 0
  · rw [if_pos (number_eq_zero_iff.mpr hz), if_pos hz, show zero.negative = false from rfl,
      Bool.and_false]
    rfl
  · have hsign : decide (x.number < 0) = x.negative := by
      rw [Bool.eq_iff_iff, decide_eq_true_iff, number_neg_iff hz]
    rw [if_neg (mt number_eq_zero_iff.mp hz), if_neg hz, ofNumber, nearest_number h, hsign,
      ofMagnitude_magnitude]

theorem number_unsignZero (x : Binary64) : x.unsignZero.number = x.number := by
  rw [unsignZero]
  split
  · next hz => rw [number_zero, number_eq_zero_iff.mpr hz]
  · rfl

theorem isLiteral_unsignZero (h : x.isFinite = true) : x.unsignZero.IsLiteral := by
  rw [unsignZero]
  split
  · exact ⟨by decide, fun _ => rfl⟩
  · next hz => exact ⟨of_decide_eq_true h, fun hz' => absurd hz' hz⟩

/-- Without the negative zero, the places on the line of patterns are in the order of the numbers. -/
theorem IsLiteral.orderKey_lt_iff (hx : x.IsLiteral) (hy : y.IsLiteral) :
    x.orderKey < y.orderKey ↔ x.number < y.number := by
  have hpos {x : Binary64} (hx : x.IsLiteral) (hneg : x.negative = true) :
      0 < absolute x.magnitude := by
    rw [← absolute_zero, absolute_strictMono.lt_iff_lt, Nat.pos_iff_ne_zero]
    intro hz
    rw [hx.2 hz] at hneg
    cases hneg
  have hnonneg := absolute_nonneg
  rw [orderKey, orderKey, number, number]
  by_cases hnx : x.negative = true
  · by_cases hny : y.negative = true
    · rw [if_pos hnx, if_pos hny, if_pos hnx, if_pos hny, neg_lt_neg_iff,
        absolute_strictMono.lt_iff_lt]
      omega
    · rw [if_pos hnx, if_neg hny, if_pos hnx, if_neg hny]
      exact iff_of_true (by omega) ((neg_neg_of_pos (hpos hx hnx)).trans_le (hnonneg _))
  · by_cases hny : y.negative = true
    · rw [if_neg hnx, if_pos hny, if_neg hnx, if_pos hny]
      exact iff_of_false (by omega) ((neg_neg_of_pos (hpos hy hny)).trans_le (hnonneg _)).not_gt
    · rw [if_neg hnx, if_neg hny, if_neg hnx, if_neg hny, absolute_strictMono.lt_iff_lt]
      omega

/-- The order of the patterns is the order of the numbers. -/
theorem IsLiteral.compare_eq (hx : x.IsLiteral) (hy : y.IsLiteral) :
    compare x y = compare x.number y.number := by
  rw [compare_def, compareOn]
  rcases lt_trichotomy x.number y.number with hlt | heq | hgt
  · rw [compare_lt_iff_lt.mpr hlt, compare_lt_iff_lt.mpr ((hx.orderKey_lt_iff hy).mpr hlt)]
  · have hxy : ¬ x.orderKey < y.orderKey := mt (hx.orderKey_lt_iff hy).mp heq.not_lt
    have hyx : ¬ y.orderKey < x.orderKey := mt (hy.orderKey_lt_iff hx).mp heq.not_gt
    rw [compare_eq_iff_eq.mpr heq, compare_eq_iff_eq]
    omega
  · rw [compare_gt_iff_gt.mpr hgt, compare_gt_iff_gt.mpr ((hy.orderKey_lt_iff hx).mpr hgt)]

theorem IsLiteral.number_inj (hx : x.IsLiteral) (hy : y.IsLiteral) :
    x.number = y.number ↔ x = y := by
  rw [← compare_eq_iff_eq, ← hx.compare_eq hy]
  exact Std.LawfulEqOrd.compare_eq_iff_eq

end Numbers

end Binary64

end RelStore
