/-
# Exponentials in fixed point

`2 ^ (e / unit)` is approximated by a mantissa for the fraction `e % unit` and a power of two
for the integer part.  The approximation is monotone where the mantissa is, and where its last
step, back to the first mantissa with one more doubling, goes up as well.
-/
import Mathlib.Algebra.Order.Field.Basic
import Mathlib.Algebra.Order.Field.Power
import Mathlib.Algebra.Order.Floor.Semifield
import Mathlib.Algebra.Order.Field.Rat
import Mathlib.Data.Int.ConditionallyCompleteOrder
import Mathlib.Data.Rat.Floor
import Mathlib.Order.SuccPred.IntervalSucc

namespace Pickaxe.Lib.FixedExp

/-- The mantissa of the fraction, times two to the integer part. -/
def scaled (mantissa : ℕ → ℕ) (unit : ℕ) (e : ℤ) : ℚ :=
  mantissa (e % unit).toNat * 2 ^ (e / unit)

variable {mantissa : ℕ → ℕ} {unit : ℕ}

/-- Within a unit the mantissa goes up; across its end the mantissa falls to less than half,
and the power of two doubles. -/
theorem scaled_le_succ (hunit : 0 < unit) (step : ∀ i, i + 1 < unit → mantissa i ≤ mantissa (i + 1))
    (wrap : mantissa (unit - 1) ≤ 2 * mantissa 0) (e : ℤ) :
    scaled mantissa unit e ≤ scaled mantissa unit (e + 1) := by
  have hpos : (0 : ℤ) < unit := by exact_mod_cast hunit
  have hlt := Int.emod_lt_of_pos e hpos
  have hnonneg := Int.emod_nonneg e hpos.ne'
  have hdiv := Int.mul_ediv_add_emod e unit
  have hpow : (0 : ℚ) < 2 ^ (e / unit) := by positivity
  by_cases hwrap : e % unit + 1 < unit
  · -- the integer part stays
    have hquot : (e + 1) / unit = e / unit := by
      rw [show e + 1 = e % unit + 1 + unit * (e / unit) by omega,
        Int.add_mul_ediv_left _ _ hpos.ne', Int.ediv_eq_zero_of_lt (by omega) hwrap, zero_add]
    have hrem : (e + 1) % unit = e % unit + 1 := by
      rw [Int.emod_def, hquot]
      omega
    have hnat : (e % unit + 1).toNat = (e % unit).toNat + 1 := by omega
    unfold scaled
    rw [hquot, hrem, hnat]
    refine mul_le_mul_of_nonneg_right ?_ hpow.le
    exact_mod_cast step _ (by omega)
  · have hlast : e % unit = unit - 1 := by omega
    have hnat : (e % unit).toNat = unit - 1 := by omega
    have hnext : e + 1 = unit * (e / unit + 1) := by
      rw [mul_add, mul_one]
      omega
    have hquot : (e + 1) / unit = e / unit + 1 := by
      rw [hnext, Int.mul_ediv_cancel_left _ hpos.ne']
    have hrem : ((e + 1) % unit).toNat = 0 := by
      rw [hnext, Int.mul_emod_right]
      rfl
    have hmantissa : (mantissa (unit - 1) : ℚ) ≤ 2 * mantissa 0 := by exact_mod_cast wrap
    unfold scaled
    rw [hquot, hrem, hnat, zpow_add_one₀ two_ne_zero]
    calc (mantissa (unit - 1) : ℚ) * 2 ^ (e / unit)
        ≤ 2 * mantissa 0 * 2 ^ (e / unit) := mul_le_mul_of_nonneg_right hmantissa hpow.le
      _ = mantissa 0 * (2 ^ (e / unit) * 2) := by ring

theorem scaled_mono (hunit : 0 < unit) (step : ∀ i, i + 1 < unit → mantissa i ≤ mantissa (i + 1))
    (wrap : mantissa (unit - 1) ≤ 2 * mantissa 0) : Monotone (scaled mantissa unit) :=
  monotone_int_of_le_succ (scaled_le_succ hunit step wrap)

/-! ## Shifts

The integer below a number times a power of two: a shift, to the left or to the right. -/

lemma floor_shiftRight (n k : ℕ) : ⌊(n : ℚ) * 2 ^ (-(k : ℤ))⌋₊ = n / 2 ^ k := by
  have h := Nat.floor_div_eq_div (K := ℚ) n (2 ^ k)
  rw [zpow_neg, zpow_natCast, ← div_eq_mul_inv]
  exact_mod_cast h

lemma floor_shiftLeft (n k : ℕ) : ⌊(n : ℚ) * 2 ^ (k : ℤ)⌋₊ = n * 2 ^ k := by
  rw [zpow_natCast]
  exact_mod_cast Nat.floor_natCast (R := ℚ) (n * 2 ^ k)

/-- A right shift may stop where nothing is left to shift out. -/
lemma div_two_pow_min {n cap : ℕ} (h : n < 2 ^ cap) (k : ℕ) : n / 2 ^ min k cap = n / 2 ^ k := by
  rcases le_total k cap with hle | hle
  · rw [min_eq_left hle]
  · rw [min_eq_right hle, Nat.div_eq_of_lt h,
      Nat.div_eq_of_lt (h.trans_le (Nat.pow_le_pow_right (by decide) hle))]

/-- A shift by a signed amount. -/
theorem floor_mul_zpow {n cap : ℕ} (h : n < 2 ^ cap) (k : ℤ) :
    ⌊(n : ℚ) * 2 ^ k⌋₊ = if k ≤ 0 then n / 2 ^ min k.natAbs cap else n * 2 ^ k.natAbs := by
  split
  · rename_i hk
    rw [div_two_pow_min h, ← floor_shiftRight, Int.natCast_natAbs, abs_of_nonpos hk, neg_neg]
  · rename_i hk
    rw [← floor_shiftLeft, Int.natCast_natAbs, abs_of_pos (not_le.mp hk)]

end Pickaxe.Lib.FixedExp
