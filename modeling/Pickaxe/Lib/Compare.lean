/-
# Comparison from the last digit on

Two numbers of as many digits are compared at the last digit in which they differ, the least
significant digit being the first.  This is how byte strings are compared as little-endian
numbers without building the numbers.
-/
import Pickaxe.Lib.Bytes
import Mathlib.Data.List.GetD
import Mathlib.Data.Nat.Digits.Defs

namespace Pickaxe.Lib.Compare

/-- The comparison of the first `n` digits, from the last on. -/
def below (a b : ℕ → ℕ) : ℕ → Bool
  | 0 => false
  | n + 1 => if a n ≠ b n then decide (a n < b n) else below a b n

/-- The value of the first `n` digits. -/
def digitsValue (base : ℕ) (a : ℕ → ℕ) : ℕ → ℕ
  | 0 => 0
  | n + 1 => digitsValue base a n + base ^ n * a n

variable {base n : ℕ} {a b : ℕ → ℕ}

lemma digitsValue_eq_ofDigits (n : ℕ) :
    digitsValue base a n = Nat.ofDigits base ((List.range n).map a) := by
  induction n with
  | zero => rfl
  | succ n ih =>
    rw [digitsValue, ih, List.range_succ, List.map_append, Nat.ofDigits_append, List.length_map,
      List.length_range, List.map_singleton, Nat.ofDigits_singleton]

lemma digitsValue_lt (hbase : 1 < base) (ha : ∀ i < n, a i < base) :
    digitsValue base a n < base ^ n := by
  have h := Nat.ofDigits_lt_base_pow_length (l := (List.range n).map a) hbase
    (List.forall_mem_map.mpr fun i hi => ha i (List.mem_range.mp hi))
  rwa [List.length_map, List.length_range, ← digitsValue_eq_ofDigits] at h

lemma digitsValue_congr (h : ∀ i < n, a i = b i) : digitsValue base a n = digitsValue base b n := by
  rw [digitsValue_eq_ofDigits, digitsValue_eq_ofDigits,
    List.map_congr_left fun i hi => h i (List.mem_range.mp hi)]

/-- A smaller digit outweighs all digits before it. -/
lemma digitsValue_succ_lt (hbase : 1 < base) (ha : ∀ i < n, a i < base) (h : a n < b n) :
    digitsValue base a (n + 1) < digitsValue base b (n + 1) := by
  have hlow := digitsValue_lt hbase ha
  have hmul : base ^ n * a n + base ^ n ≤ base ^ n * b n := by
    rw [← Nat.mul_succ]
    exact Nat.mul_le_mul_left _ h
  rw [digitsValue, digitsValue]
  omega

/-- The comparison is that of the values. -/
theorem below_iff (hbase : 1 < base) (ha : ∀ i < n, a i < base) (hb : ∀ i < n, b i < base) :
    below a b n = true ↔ digitsValue base a n < digitsValue base b n := by
  induction n with
  | zero => simp [below, digitsValue]
  | succ n ih =>
    have ha' : ∀ i < n, a i < base := fun i hi => ha i (by omega)
    have hb' : ∀ i < n, b i < base := fun i hi => hb i (by omega)
    rw [below]
    rcases lt_trichotomy (a n) (b n) with hlt | heq | hgt
    · rw [if_pos hlt.ne]
      exact iff_of_true (decide_eq_true hlt) (digitsValue_succ_lt hbase ha' hlt)
    · rw [if_neg (not_not.mpr heq), ih ha' hb', digitsValue, digitsValue, heq]
      omega
    · rw [if_pos hgt.ne', decide_eq_true_iff]
      exact iff_of_false (by omega) (by have := digitsValue_succ_lt hbase hb' hgt; omega)

/-- The number of a byte string is the value of its bytes. -/
lemma fromLe_eq_digitsValue (l : Bytes) :
    fromLe l = digitsValue 256 (fun i => (l.getD i 0).toNat) l.length := by
  rw [fromLe_eq_ofDigits, digitsValue_eq_ofDigits]
  congr 1
  refine List.ext_getElem (by simp) fun i hi _ => ?_
  rw [List.length_map] at hi
  simp [hi]

end Pickaxe.Lib.Compare
