import Mathlib.Algebra.Order.Field.Power
import Mathlib.Data.Int.Log
import Mathlib.Data.Rat.Floor
import Mathlib.Tactic.FieldSimp
import Mathlib.Tactic.Linarith
import Mathlib.Tactic.NormNum
import Mathlib.Tactic.Positivity
import Mathlib.Tactic.Ring
import RelStore.Binary64.Basic
/-! Rounding to binary64. The nearest magnitude depends on the quotient alone, not on how it is
written, a quotient that is a finite magnitude is rounded to itself, and one beyond all of them to zero
or to the infinity. -/
namespace RelStore.Binary64

section Scale

variable {num den : Nat}

theorem pow_log2_le {n : Nat} (hn : 0 < n) : ((2 : ℚ) ^ (Nat.log2 n : ℤ)) ≤ n := by
  rw [zpow_natCast]
  exact_mod_cast Nat.log2_self_le (by omega)

theorem lt_pow_log2_succ (n : Nat) : (n : ℚ) < 2 ^ ((Nat.log2 n : ℤ) + 1) := by
  have h : n < 2 ^ (Nat.log2 n + 1) := Nat.lt_log2_self
  calc (n : ℚ) < ((2 ^ (Nat.log2 n + 1) : ℕ) : ℚ) := by exact_mod_cast h
    _ = 2 ^ ((Nat.log2 n : ℤ) + 1) := by
      rw [← Nat.cast_succ, zpow_natCast]
      push_cast
      rfl

theorem quotient_bounds (hn : 0 < num) (hd : 0 < den) {k : ℤ}
    (hk : k = (Nat.log2 num : ℤ) - Nat.log2 den) :
    (2 : ℚ) ^ (k - 1) < num / den ∧ (num : ℚ) / den < 2 ^ (k + 1) := by
  have hd' : (0 : ℚ) < den := by exact_mod_cast hd
  constructor
  · rw [lt_div_iff₀ hd']
    calc (2 : ℚ) ^ (k - 1) * den
        < 2 ^ (k - 1) * 2 ^ ((Nat.log2 den : ℤ) + 1) :=
          mul_lt_mul_of_pos_left (lt_pow_log2_succ den) (by positivity)
      _ = 2 ^ (Nat.log2 num : ℤ) := by
          rw [← zpow_add₀ (by norm_num), hk]
          congr 1
          ring
      _ ≤ num := pow_log2_le hn
  · rw [div_lt_iff₀ hd']
    calc (num : ℚ) < 2 ^ ((Nat.log2 num : ℤ) + 1) := lt_pow_log2_succ num
      _ = 2 ^ (k + 1) * 2 ^ (Nat.log2 den : ℤ) := by
          rw [← zpow_add₀ (by norm_num), hk]
          congr 1
          ring
      _ ≤ 2 ^ (k + 1) * den := mul_le_mul_of_nonneg_left (pow_log2_le hd) (by positivity)

/-- Whether a quotient reaches a power of two is decided in natural numbers. -/
theorem reaches_iff (hd : 0 < den) (k : ℤ) :
    (if 0 ≤ k then decide (den * 2 ^ k.toNat ≤ num) else decide (den ≤ num * 2 ^ (-k).toNat)) =
      decide ((2 : ℚ) ^ k ≤ num / den) := by
  have hd' : (0 : ℚ) < den := by exact_mod_cast hd
  have hdiv : (2 : ℚ) ^ k ≤ num / den ↔ 2 ^ k * (den : ℚ) ≤ num := le_div_iff₀ hd'
  split
  · next hk =>
    obtain ⟨n, rfl⟩ := Int.eq_ofNat_of_zero_le hk
    rw [decide_eq_decide, hdiv, Int.toNat_natCast, zpow_natCast, mul_comm]
    exact_mod_cast Iff.rfl
  · next hk =>
    obtain ⟨n, hn⟩ := Int.eq_ofNat_of_zero_le (show 0 ≤ -k by omega)
    have hkn : k = -(n : ℤ) := by omega
    subst hkn
    have hpos : (0 : ℚ) < 2 ^ n := by positivity
    rw [decide_eq_decide, hdiv, neg_neg, Int.toNat_natCast, zpow_neg, zpow_natCast,
      inv_mul_le_iff₀ hpos, mul_comm]
    exact_mod_cast Iff.rfl

theorem scaleOf_eq (hn : 0 < num) (hd : 0 < den) :
    scaleOf num den = (max 1 (Int.log 2 ((num : ℚ) / den) + 1023)).toNat := by
  have hq : (0 : ℚ) < num / den := by positivity
  obtain ⟨k, hk⟩ : ∃ k : ℤ, k = (Nat.log2 num : ℤ) - Nat.log2 den := ⟨_, rfl⟩
  obtain ⟨hlow, hhigh⟩ := quotient_bounds hn hd hk
  have hlower : k - 1 ≤ Int.log 2 ((num : ℚ) / den) :=
    (Int.zpow_le_iff_le_log (by norm_num) hq).mp (by exact_mod_cast hlow.le)
  have hupper : Int.log 2 ((num : ℚ) / den) < k + 1 :=
    (Int.lt_zpow_iff_log_lt (by norm_num) hq).mp (by exact_mod_cast hhigh)
  have hreach : (2 : ℚ) ^ k ≤ num / den ↔ k ≤ Int.log 2 ((num : ℚ) / den) := by
    have := Int.zpow_le_iff_le_log (b := 2) (x := k) (by norm_num) hq
    exact_mod_cast this
  simp only [scaleOf, ← hk]
  rw [reaches_iff hd k]
  by_cases h : (2 : ℚ) ^ k ≤ num / den
  · have hle := hreach.mp h
    have : Int.log 2 ((num : ℚ) / den) = k := by omega
    simp [h, this]
  · have hlt := mt hreach.mpr h
    have : Int.log 2 ((num : ℚ) / den) = k - 1 := by omega
    simp [h, this]

theorem scaleOf_of_bounds (hn : 0 < num) (hd : 0 < den) {k : ℤ}
    (hlow : (2 : ℚ) ^ k ≤ num / den) (hhigh : (num : ℚ) / den < 2 ^ (k + 1)) :
    scaleOf num den = (max 1 (k + 1023)).toNat := by
  have hq : (0 : ℚ) < num / den := by positivity
  have hlower : k ≤ Int.log 2 ((num : ℚ) / den) :=
    (Int.zpow_le_iff_le_log (by norm_num) hq).mp (by exact_mod_cast hlow)
  have hupper : Int.log 2 ((num : ℚ) / den) < k + 1 :=
    (Int.lt_zpow_iff_log_lt (by norm_num) hq).mp (by exact_mod_cast hhigh)
  rw [scaleOf_eq hn hd, show Int.log 2 ((num : ℚ) / den) = k by omega]

theorem scaleOf_small (hn : 0 < num) (hd : 0 < den) (h : (num : ℚ) / den < 2 ^ (-1022 : ℤ)) :
    scaleOf num den = 1 := by
  have hq : (0 : ℚ) < num / den := by positivity
  have hupper : Int.log 2 ((num : ℚ) / den) < -1022 :=
    (Int.lt_zpow_iff_log_lt (by norm_num) hq).mp (by exact_mod_cast h)
  rw [scaleOf_eq hn hd]
  omega

theorem scaleOf_mul_left {k : Nat} (hk : 0 < k) (hn : 0 < num) (hd : 0 < den) :
    scaleOf (k * num) (k * den) = scaleOf num den := by
  have hk' : (k : ℚ) ≠ 0 := by exact_mod_cast hk.ne'
  rw [scaleOf_eq hn hd, scaleOf_eq (Nat.mul_pos hk hn) (Nat.mul_pos hk hd)]
  push_cast
  rw [mul_div_mul_left _ _ hk']

end Scale

theorem roundQuotient_mul_left {k : Nat} (hk : 0 < k) (num den : Nat) :
    roundQuotient (k * num) (k * den) = roundQuotient num den := by
  have hlt : k * den < 2 * (k * (num % den)) ↔ den < 2 * (num % den) := by
    rw [Nat.mul_left_comm]
    exact Nat.mul_lt_mul_left hk
  have heq : 2 * (k * (num % den)) = k * den ↔ 2 * (num % den) = den := by
    rw [Nat.mul_left_comm]
    exact Nat.mul_right_inj hk.ne'
  simp only [roundQuotient, Nat.mul_div_mul_left _ _ hk, Nat.mul_mod_mul_left, hlt, heq]

theorem roundQuotient_mul_self {n den : Nat} (hd : 0 < den) : roundQuotient (n * den) den = n := by
  simp [roundQuotient, Nat.mul_div_cancel _ hd, hd.ne]

theorem roundQuotient_of_lt {num den : Nat} (h : 2 * num < den) : roundQuotient num den = 0 := by
  have hlt : num < den := by omega
  simp only [roundQuotient, Nat.div_eq_of_lt hlt, Nat.mod_eq_of_lt hlt, Nat.not_lt.mpr h.le, h.ne,
    decide_false, Bool.false_and, Bool.or_false, Bool.false_eq_true, if_false]

theorem le_roundQuotient {num den n : Nat} (hd : 0 < den) (h : n * den ≤ num) :
    n ≤ roundQuotient num den := by
  have hdiv : n ≤ num / den := (Nat.le_div_iff_mul_le hd).mpr h
  simp only [roundQuotient]
  split
  · exact hdiv.trans (Nat.le_succ _)
  · exact hdiv

/-- Both sides of a quotient may be multiplied by the same number. -/
theorem nearest_mul_left {k : Nat} (hk : 0 < k) (num : Nat) {den : Nat} (hd : 0 < den) :
    nearest (k * num) (k * den) = nearest num den := by
  by_cases hn : num = 0
  · simp [nearest, hn]
  have hn' : 0 < num := Nat.pos_of_ne_zero hn
  have hkn : k * num ≠ 0 := (Nat.mul_pos hk hn').ne'
  simp only [nearest, hn, hkn, scaleOf_mul_left hk hn' hd, Nat.mul_assoc,
    roundQuotient_mul_left hk]

section Range

variable {num den : Nat}

/-- A quotient below half of the least positive number is rounded to zero. -/
theorem nearest_of_small (hd : 0 < den) (h : (num : ℚ) / den < 2 ^ (-1075 : ℤ)) :
    nearest num den = 0 := by
  by_cases hn : num = 0
  · rw [nearest, if_pos hn]
  have hscale : scaleOf num den = 1 :=
    scaleOf_small (Nat.pos_of_ne_zero hn) hd
      (h.trans (zpow_lt_zpow_right₀ one_lt_two (by decide)))
  obtain ⟨k, hk⟩ : ∃ k : ℕ, k + 1 = 1075 := ⟨1074, rfl⟩
  have hhalf : 2 * (num * 2 ^ k) < den := by
    rw [show (-1075 : ℤ) = -((k + 1 : ℕ) : ℤ) by omega, zpow_neg, zpow_natCast, inv_eq_one_div,
      div_lt_div_iff₀ (by exact_mod_cast hd) (by positivity), one_mul] at h
    rw [Nat.mul_left_comm, ← Nat.pow_succ']
    exact_mod_cast h
  simp only [nearest, hn, hscale, if_false, Nat.reduceLeDiff, show 1075 - 1 = k by omega,
    roundQuotient_of_lt hhalf]
  rfl

/-- A quotient beyond the largest finite number is rounded to the infinity. -/
theorem nearest_of_large (hd : 0 < den) (h : (2 : ℚ) ^ (1024 : ℤ) ≤ num / den) :
    nearest num den = infinity := by
  have hq : (0 : ℚ) < num / den := lt_of_lt_of_le (by positivity) h
  have hn : 0 < num := by
    rw [div_pos_iff_of_pos_right (by exact_mod_cast hd)] at hq
    exact_mod_cast hq
  have hmul : 2 ^ 1024 * den ≤ num := by
    rw [le_div_iff₀ (by exact_mod_cast hd), show (1024 : ℤ) = ((1024 : ℕ) : ℤ) from rfl,
      zpow_natCast] at h
    exact_mod_cast h
  obtain ⟨e, he⟩ : ∃ e, scaleOf num den = e := ⟨_, rfl⟩
  have hscale : 2047 ≤ e := by
    have hlog : 1024 ≤ Int.log 2 ((num : ℚ) / den) :=
      (Int.zpow_le_iff_le_log (by norm_num) hq).mp (by exact_mod_cast h)
    rw [← he, scaleOf_eq hn hd]
    omega
  simp only [nearest, hn.ne', he, if_false, show 1075 ≤ e by omega, if_true]
  refine Nat.min_eq_left ?_
  rcases hscale.eq_or_lt with heq | hlt
  · -- at the least exponent that no finite number has, the significand makes up for the missing step
    have hround : fractionRange ≤ roundQuotient num (den * 2 ^ (e - 1075)) := by
      refine le_roundQuotient (by positivity) ?_
      calc fractionRange * (den * 2 ^ (e - 1075)) = 2 ^ (52 + (e - 1075)) * den := by
            rw [fractionRange, Nat.pow_add]
            ring
        _ = 2 ^ 1024 * den := by rw [show 52 + (e - 1075) = 1024 by omega]
        _ ≤ num := hmul
    calc infinity = (e - 1) * fractionRange + fractionRange := by rw [← heq]; decide
      _ ≤ (e - 1) * fractionRange + roundQuotient num (den * 2 ^ (e - 1075)) :=
        Nat.add_le_add_left hround _
  · exact (Nat.mul_le_mul_right _ (show 0x7FF ≤ e - 1 by omega)).trans (Nat.le_add_right _ _)

end Range

section Ratio

variable {m : Nat}

theorem significand_normal (h : fractionRange ≤ m) :
    fractionRange ≤ significand m ∧ significand m < 2 * fractionRange := by
  have : m % fractionRange < fractionRange := Nat.mod_lt _ (by decide)
  rw [significand, if_neg (by omega)]
  omega

theorem magnitude_parts (h : fractionRange ≤ m) :
    (biasedExponent m - 1) * fractionRange + significand m = m ∧
      1 ≤ m / fractionRange ∧ biasedExponent m = m / fractionRange := by
  have hq : 1 ≤ m / fractionRange := (Nat.le_div_iff_mul_le (by decide)).mpr (by omega)
  have hb : biasedExponent m = m / fractionRange := by simp [biasedExponent, hq]
  have hm := Nat.div_add_mod m fractionRange
  refine ⟨?_, hq, hb⟩
  rw [significand, if_neg (by omega), hb]
  calc (m / fractionRange - 1) * fractionRange + (fractionRange + m % fractionRange)
      = (m / fractionRange - 1 + 1) * fractionRange + m % fractionRange := by ring
    _ = fractionRange * (m / fractionRange) + m % fractionRange := by
        rw [Nat.sub_add_cancel hq, Nat.mul_comm]
    _ = m := hm

theorem ratio_pos (m : Nat) : 0 < (ratio m).2 := by
  simp only [ratio]
  split <;> positivity

theorem nearest_subnormal (hm : 0 < m) (h : m < fractionRange) : nearest m (2 ^ 1074) = m := by
  have hsmall : ((m : ℕ) : ℚ) / ((2 ^ 1074 : ℕ) : ℚ) < 2 ^ (-1022 : ℤ) := by
    rw [div_lt_iff₀ (by positivity)]
    have hfit : (m : ℚ) < 2 ^ (52 : ℤ) := by exact_mod_cast h
    calc (m : ℚ) < 2 ^ (52 : ℤ) := hfit
      _ = 2 ^ (-1022 : ℤ) * ((2 ^ 1074 : ℕ) : ℚ) := by
        have hcast (n : ℕ) : ((2 ^ n : ℕ) : ℚ) = 2 ^ (n : ℤ) := by push_cast; rfl
        rw [hcast 1074, ← zpow_add₀ (by norm_num)]
        congr 1
  have hle : m ≤ infinity := (Nat.le_of_lt h).trans (by decide)
  have hs := scaleOf_small hm (Nat.two_pow_pos 1074) hsmall
  have hcoarse : ¬ 1075 ≤ 1 := by decide
  simp only [nearest, hm.ne', hs, if_false, if_neg hcoarse]
  rw [show 1075 - 1 = 1074 from rfl, roundQuotient_mul_self (Nat.two_pow_pos 1074)]
  omega

/-- A quotient with a 53-bit significand is rounded at the scale of its exponent. -/
theorem scaleOf_normal {num den s e : Nat} (hn : 0 < num) (hd : 0 < den) (he : 1 ≤ e)
    (hs : fractionRange ≤ s ∧ s < 2 * fractionRange)
    (hq : (num : ℚ) / den = s * 2 ^ ((e : ℤ) - 1075)) : scaleOf num den = e := by
  have hpos : (0 : ℚ) < 2 ^ ((e : ℤ) - 1075) := by positivity
  have hlow : (2 : ℚ) ^ (52 : ℤ) ≤ s := by exact_mod_cast hs.1
  have hhigh : (s : ℚ) < 2 ^ (53 : ℤ) := by exact_mod_cast hs.2
  rw [scaleOf_of_bounds hn hd (k := (e : ℤ) - 1023)]
  · omega
  · calc (2 : ℚ) ^ ((e : ℤ) - 1023) = 2 ^ (52 : ℤ) * 2 ^ ((e : ℤ) - 1075) := by
          rw [← zpow_add₀ (by norm_num)]
          congr 1
          ring
      _ ≤ s * 2 ^ ((e : ℤ) - 1075) := mul_le_mul_of_nonneg_right hlow hpos.le
      _ = num / den := hq.symm
  · calc (num : ℚ) / den = s * 2 ^ ((e : ℤ) - 1075) := hq
      _ < 2 ^ (53 : ℤ) * 2 ^ ((e : ℤ) - 1075) := mul_lt_mul_of_pos_right hhigh hpos
      _ = 2 ^ ((e : ℤ) - 1023 + 1) := by
          rw [← zpow_add₀ (by norm_num)]
          congr 1
          ring

theorem nearest_normal {s e : Nat} (he : 1 ≤ e)
    (hs : fractionRange ≤ s ∧ s < 2 * fractionRange) :
    (if 1075 ≤ e then nearest (s * 2 ^ (e - 1075)) 1 else nearest s (2 ^ (1075 - e))) =
      min infinity ((e - 1) * fractionRange + s) := by
  have hspos : 0 < s := Nat.lt_of_lt_of_le (by decide) hs.1
  split
  · next hle =>
    have hpos : 0 < s * 2 ^ (e - 1075) := Nat.mul_pos hspos (Nat.two_pow_pos _)
    have hscale : scaleOf (s * 2 ^ (e - 1075)) 1 = e := by
      refine scaleOf_normal hpos one_pos he hs ?_
      rw [Nat.cast_one, div_one, Nat.cast_mul, Nat.cast_pow, Nat.cast_ofNat, ← zpow_natCast,
        Nat.cast_sub hle]
      rfl
    simp only [nearest, hpos.ne', hscale, hle, if_true, if_false, Nat.one_mul]
    rw [roundQuotient_mul_self (Nat.two_pow_pos _)]
  · next hlt =>
    have hscale : scaleOf s (2 ^ (1075 - e)) = e := by
      refine scaleOf_normal hspos (Nat.two_pow_pos _) he hs ?_
      rw [Nat.cast_pow, Nat.cast_ofNat, ← zpow_natCast, Nat.cast_sub (by omega), div_eq_mul_inv,
        ← zpow_neg, neg_sub]
      rfl
    simp only [nearest, hspos.ne', hscale, hlt, if_false]
    rw [roundQuotient_mul_self (Nat.two_pow_pos _)]

/-- A finite magnitude is the one nearest to the number it stands for. -/
theorem nearest_ratio (h : m < infinity) : nearest (ratio m).1 (ratio m).2 = m := by
  by_cases hz : m = 0
  · subst hz; rfl
  by_cases hsub : m < fractionRange
  · have hq : m / fractionRange = 0 := Nat.div_eq_of_lt hsub
    have hb : biasedExponent m = 1 := by simp [biasedExponent, hq]
    simp only [ratio, hb, significand, hsub, if_true, Nat.reduceLeDiff, if_false, Nat.reduceSub]
    exact nearest_subnormal (Nat.pos_of_ne_zero hz) hsub
  · obtain ⟨hsum, hq, hb⟩ := magnitude_parts (Nat.le_of_not_lt hsub)
    have hn := nearest_normal (hb ▸ hq) (significand_normal (Nat.le_of_not_lt hsub))
    rw [hsum, Nat.min_eq_right h.le] at hn
    simp only [ratio]
    split
    · next he => rwa [if_pos he] at hn
    · next he => rwa [if_neg he] at hn

end Ratio

end RelStore.Binary64
