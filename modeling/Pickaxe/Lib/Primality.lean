/-
# Large primes

A number is prime when a large prime divides its predecessor and a power shows it (Pocklington), or
when powers show it for every prime that divides its predecessor (Lucas).
-/
import Mathlib.NumberTheory.LucasPrimality
import Mathlib.FieldTheory.Finite.Basic
import Mathlib.Tactic.NormNum.Prime

namespace Pickaxe.Lib

/-- Pocklington's criterion, for a prime above the square root. -/
lemma prime_of_large_dvd {n q r : ℕ} (a : ZMod n) (hn : 1 < n) (hq : q.Prime)
    (hfactor : n - 1 = q * r) (hlt : n < q ^ 2) (ha : a ^ (n - 1) = 1)
    (hunit : IsUnit (a ^ r - 1)) : n.Prime := by
  by_contra hcomposite
  have hsq := Nat.minFac_sq_le_self (by omega) hcomposite
  have hl : Fact n.minFac.Prime := ⟨Nat.minFac_prime (by omega)⟩
  have hl_pos := hl.out.two_le
  let f := ZMod.castHom n.minFac_dvd (ZMod n.minFac)
  have hone : f a ^ (q * r) = 1 := by rw [← hfactor, ← map_pow, ha, map_one]
  have hne : f a ^ r ≠ 1 := by
    have h := (hunit.map f).ne_zero
    rwa [map_sub, map_pow, map_one, sub_ne_zero] at h
  have hzero : f a ≠ 0 := by
    intro h
    rw [h, zero_pow (by omega)] at hone
    exact zero_ne_one hone
  -- the order of `a` modulo the least factor is a multiple of `q`
  have hdvd : q ∣ orderOf (f a) := by
    by_contra hndvd
    refine hne (orderOf_dvd_iff_pow_eq_one.mp ?_)
    exact (hq.coprime_iff_not_dvd.mpr hndvd).symm.dvd_of_dvd_mul_left
      (orderOf_dvd_of_pow_eq_one hone)
  have hle : q ≤ n.minFac - 1 := by
    refine Nat.le_of_dvd (by omega) (hdvd.trans ?_)
    exact orderOf_dvd_of_pow_eq_one (ZMod.pow_card_sub_one_eq_one hzero)
  have hpow : q ^ 2 ≤ n.minFac ^ 2 := Nat.pow_le_pow_left (by omega) 2
  omega

/-- Lucas's criterion, for a factored predecessor. -/
lemma prime_of_factors {n : ℕ} (a : ZMod n) (factors : List ℕ) (hprime : ∀ q ∈ factors, q.Prime)
    (hfactors : factors.prod = n - 1) (ha : a ^ (n - 1) = 1)
    (hne : ∀ q ∈ factors, a ^ ((n - 1) / q) ≠ 1) : n.Prime := by
  refine lucas_primality n a ha fun q hq hdvd => hne q ?_
  rw [← hfactors] at hdvd
  obtain ⟨p, hp, hqp⟩ := (Prime.dvd_prod_iff hq.prime).mp hdvd
  rwa [(Nat.prime_dvd_prime_iff_eq hq (hprime p hp)).mp hqp]

end Pickaxe.Lib
